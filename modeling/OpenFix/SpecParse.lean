import OpenFix.Dictionary.Reload

/-!
# `spec_parse.py`

The script that writes `fix_spec.h` from a dictionary document. `fix_dictionary::load` reads the
same kind of document at run time. The document is a parameter; an exception ends the script with
what it has written so far.

* `tagLines_eq`, `parse_eq`: the header of a document whose numbers can be read.
* `Plain.header_agrees`: the header and the loaded dictionary give the same numbers to the same
  names, and when MAX_VAL is behind all of them.
-/

namespace OpenFix.SpecParse

open Pugi (Node attribute_ child)

/-! ## Elements -/

/-- What ends the script: `iter` of a `find` that found nothing, and `int` of what is no number. -/
inductive PyError : Type
  | attributeError
  | valueError
  deriving DecidableEq, Repr

mutual

/-- An element and what is below it, in document order. -/
def elements : Node → List Node
  | ⟨name, attributes, children⟩ => ⟨name, attributes, children⟩ :: below children

/-- The elements from these children on. -/
def below : List Node → List Node
  | [] => []
  | c :: cs => elements c ++ below cs

end

/-- `iter( tag )`. -/
def iter (e : Node) (tag : String) : List Node := (elements e).filter fun e => e.name = ascii tag

/-- An attribute in an f-string. -/
def format (value : Option (List UInt8)) : List UInt8 := value.getD (ascii "None")

/-! ## `int` of a text -/

/-- White space in an attribute. -/
def isSpace (c : UInt8) : Bool := c = 9 || c = 10 || c = 13 || c = 32

/-- Without white space at both ends. -/
def strip (s : List UInt8) : List UInt8 :=
  ((s.dropWhile isSpace).reverse.dropWhile isSpace).reverse

/-- Groups of digits with an underscore between two of them, 4300 digits at most. -/
def digits (s : List UInt8) : Option Nat :=
  let groups := s.splitOn 95
  if (∀ group ∈ groups, group ≠ [] ∧ group.all Decimal.isDigit = true) ∧
      groups.flatten.length ≤ 4300 then
    some (Decimal.value groups.flatten)
  else none

/-- `int( text )`. -/
def int (text : List UInt8) : Option Int :=
  match strip text with
  | [] => none
  | c :: cs =>
      if c = minusSign then (digits cs).map fun n : Nat => -(n : Int)
      else if c = 43 then (digits cs).map fun n : Nat => (n : Int)
      else (digits (c :: cs)).map fun n : Nat => (n : Int)

/-! ## The script -/

/-- The version of the last `<fix>`, and 0 where there is none. -/
def version (root : Node) : List UInt8 × List UInt8 :=
  (iter root "fix").foldl
    (fun _ f => (format (attribute_ f "major"), format (attribute_ f "minor")))
    (ascii "0", ascii "0")

/-- What stands in front of the tags. -/
def preamble (root : Node) : List UInt8 :=
  ascii "#pragma once\n\n" ++ ascii "#include <unordered_map>\n" ++ ascii "#include <string>\n" ++
    ascii "\n" ++ ascii "#define FIX_VER_MAJOR " ++ (version root).1 ++
    ascii "\n#define FIX_VER_MINOR " ++ (version root).2 ++ ascii "\n" ++ ascii "\n" ++
    ascii "namespace fix_spec \x7b\n" ++ ascii "\tenum tag: int \x7b\n"

/-- The line of a tag. -/
def tagLine (name number : List UInt8) : List UInt8 :=
  ascii "\t\t" ++ name ++ ascii " = " ++ number ++ ascii ",\n"

/-- The loop over the tags: what it writes, and `max_` behind it. -/
def tagLines : List Node → Int → List UInt8 × Except PyError Int
  | [], max => ([], .ok max)
  | f :: fields, max =>
      match attribute_ f "number" with
      | none => tagLines fields max
      | some number =>
          let line := tagLine (format (attribute_ f "name")) number
          match int number with
          | none => (line, .error .valueError)
          | some max =>
              let later := tagLines fields max
              (line ++ later.1, later.2)

def maxLine (max : Int) : List UInt8 := ascii "\t\tMAX_VAL = " ++ fmtInt max ++ ascii "\n"

/-- What a `<value>` of a field writes. -/
def valueLines (f v : Node) : List UInt8 :=
  let constant := format (attribute_ f "name") ++ ascii "_" ++ format (attribute_ v "description")
  let ret := format (attribute_ v "enum")
  (if attribute_ f "type" = some (ascii "INT") ∨ attribute_ f "type" = some (ascii "QTY") then
    ascii "\tstatic constexpr int " ++ constant ++ ascii " = " ++ ret ++ ascii ";\n" else []) ++
  if attribute_ f "type" = some (ascii "CHAR") then
    ascii "\tstatic const char *" ++ constant ++ ascii " = \"" ++ ret ++ ascii "\";\n" else []

/-- The loop over the values. -/
def constantLines (fields : List Node) : List UInt8 :=
  fields.flatMap fun f =>
    if attribute_ f "type" ≠ some (ascii "INT") ∧ attribute_ f "type" ≠ some (ascii "CHAR") ∧
        attribute_ f "type" ≠ some (ascii "STRING") then []
    else (iter f "value").flatMap (valueLines f)

/-- `parse_fix_spec`: the header, and how the script ends. -/
def parseFixSpec (root : Node) : List UInt8 × Except PyError Unit :=
  match child (some root) "fields" with
  | none => (preamble root, .error .attributeError)
  | some fields =>
      match tagLines (iter fields "field") 0 with
      | (lines, .error e) => (preamble root ++ lines, .error e)
      | (lines, .ok max) =>
          (preamble root ++ lines ++ maxLine (max + 1) ++ ascii "\t\x7d;\n\n" ++
            constantLines (iter fields "field") ++ ascii "\x7d;", .ok ())

/-! ## Decimal numbers -/

theorem dropWhile_isSpace {s : List UInt8} (all : ∀ c ∈ s, isSpace c = false) :
    s.dropWhile isSpace = s := by
  cases s with
  | nil => rfl
  | cons c cs =>
      exact List.dropWhile_cons_of_neg (ne_true_of_eq_false (all c List.mem_cons_self))

theorem strip_of_not_space {s : List UInt8} (all : ∀ c ∈ s, isSpace c = false) : strip s = s := by
  have reversed : ∀ c ∈ s.reverse, isSpace c = false :=
    fun c member => all c (List.mem_reverse.mp member)
  rw [strip, dropWhile_isSpace all, dropWhile_isSpace reversed, List.reverse_reverse]

theorem not_space_of_isDigit {c : UInt8} (digit : Decimal.isDigit c = true) :
    isSpace c = false := by
  have range := Decimal.isDigit_iff.mp digit
  have apart (d : UInt8) (low : d.toNat < 48) : c ≠ d := by
    rintro rfl
    omega
  simp only [isSpace, apart 9 (by decide), apart 10 (by decide), apart 13 (by decide),
    apart 32 (by decide), decide_false, Bool.or_self]

theorem digits_text {n : Nat} (small : n < 10 ^ 10) : digits (Decimal.text n) = some n := by
  have all : ∀ c ∈ Decimal.text n, Decimal.isDigit c = true :=
    fun c member => Decimal.isDigit_of_mem_text member
  have whole : (Decimal.text n).splitOn 95 = [Decimal.text n] :=
    List.splitOn_eq_singleton fun member => absurd (all 95 member) (by decide)
  have short : (Decimal.text n).length ≤ 4300 :=
    (Decimal.length_text_le (by decide) small).trans (by decide)
  unfold digits
  rw [whole]
  dsimp only
  rw [List.flatten_singleton, Decimal.value_text, if_pos]
  refine ⟨fun group member => ?_, short⟩
  obtain rfl := List.mem_singleton.mp member
  exact ⟨Decimal.text_ne_nil n, List.all_eq_true.mpr all⟩

/-- `int` reads the decimal text of an `int` of C++. -/
theorem int_fmtInt {n : Int} (low : -2 ^ 31 ≤ n) (high : n < 2 ^ 31) : int (fmtInt n) = some n := by
  have read := digits_text (n := n.natAbs) (by omega)
  have spaces : ∀ c ∈ Decimal.text n.natAbs, isSpace c = false :=
    fun c member => not_space_of_isDigit (Decimal.isDigit_of_mem_text member)
  by_cases negative : n < 0
  · have text : fmtInt n = minusSign :: Decimal.text n.natAbs := if_pos negative
    have stripped : strip (fmtInt n) = minusSign :: Decimal.text n.natAbs := by
      rw [text]
      exact strip_of_not_space (List.forall_mem_cons.mpr ⟨by decide, spaces⟩)
    unfold int
    rw [stripped]
    dsimp only
    rw [if_pos rfl, read, Option.map_some]
    congr 1
    omega
  · have text : fmtInt n = Decimal.text n.natAbs := if_neg negative
    have stripped : strip (fmtInt n) = Decimal.text n.natAbs := by
      rw [text]
      exact strip_of_not_space spaces
    obtain ⟨c, cs, split⟩ := List.exists_cons_of_ne_nil (Decimal.text_ne_nil n.natAbs)
    have digit := Decimal.isDigit_of_mem_text (split ▸ List.mem_cons_self : c ∈ _)
    have notMinus : c ≠ minusSign := by
      rintro rfl
      exact absurd digit (by decide)
    have notPlus : c ≠ 43 := by
      rintro rfl
      exact absurd digit (by decide)
    rw [split] at stripped read
    unfold int
    rw [stripped]
    dsimp only
    rw [if_neg notMinus, if_neg notPlus, read, Option.map_some]
    congr 1
    omega

/-! ## Plain documents -/

open Dictionary (declared nameOf numberOf)

/-- The fields stand right below `<fields>`, each with a name and a decimal number. -/
structure Plain (root fields : Node) : Prop where
  found : child (some root) "fields" = some fields
  flat : ∀ f ∈ fields.children, f.name = ascii "field" ∧
    ∀ e ∈ below f.children, e.name ≠ ascii "field"
  named : ∀ f ∈ fields.children, ∃ (name : List UInt8) (n : Int),
    attribute_ f "name" = some name ∧ attribute_ f "number" = some (fmtInt n) ∧
      -2 ^ 31 ≤ n ∧ n < 2 ^ 31

theorem filter_below {tag : List UInt8} {cs : List Node}
    (flat : ∀ f ∈ cs, f.name = tag ∧ ∀ e ∈ below f.children, e.name ≠ tag) :
    (below cs).filter (fun e => e.name = tag) = cs := by
  induction cs with
  | nil => rfl
  | cons f cs ih =>
      obtain ⟨⟨name, deep⟩, rest⟩ := List.forall_mem_cons.mp flat
      obtain ⟨_, attributes, children⟩ := f
      have none_ : (below children).filter (fun e => e.name = tag) = [] :=
        List.filter_eq_nil_iff.mpr fun e member => by simpa using deep e member
      rw [below, elements, List.cons_append, List.filter_cons_of_pos (by simpa using name),
        List.filter_append, none_, ih rest, List.nil_append]

theorem Plain.iter_eq {root fields : Node} (plain : Plain root fields) :
    iter fields "field" = fields.children := by
  have name : fields.name = ascii "fields" := by
    have found := List.find?_some plain.found
    exact of_decide_eq_true found
  have flat := plain.flat
  have other : ascii "fields" ≠ ascii "field" := by decide
  rw [← name] at other
  obtain ⟨_, attributes, children⟩ := fields
  rw [iter, elements, List.filter_cons_of_neg (by simpa using other)]
  exact filter_below flat

/-- What the loop writes for plain fields, and the number it had last. -/
theorem tagLines_eq {cs : List Node} (named : ∀ f ∈ cs, ∃ (name : List UInt8) (n : Int),
    attribute_ f "name" = some name ∧ attribute_ f "number" = some (fmtInt n) ∧
      -2 ^ 31 ≤ n ∧ n < 2 ^ 31) (max : Int) :
    tagLines cs max =
      ((cs.map fun f => (nameOf f, numberOf f)).flatMap fun t => tagLine t.1 (fmtInt t.2),
        .ok (((cs.map numberOf).getLast?).getD max)) := by
  induction cs generalizing max with
  | nil => rfl
  | cons f cs ih =>
      obtain ⟨⟨name, n, named_, numbered, low, high⟩, named⟩ := List.forall_mem_cons.mp named
      have number : numberOf f = n := by
        rw [numberOf, numbered, Pugi.asInt, Pugi.stringToInteger_fmtInt]
        omega
      have name_ : nameOf f = format (attribute_ f "name") := by
        rw [nameOf, named_]
        rfl
      rw [tagLines, numbered]
      dsimp only
      rw [int_fmtInt low high]
      dsimp only
      rw [ih named, List.map_cons, List.flatMap_cons, name_, number, List.map_cons, number,
        List.getLast?_cons]
      rfl

/-! ## The header and the dictionary -/

section

variable {root fields : Node}

theorem Plain.declared_eq (plain : Plain root fields) :
    declared root = fields.children.map fun f => (nameOf f, numberOf f) := by
  rw [declared, plain.found]
  rfl

/-- The header of a plain document. -/
theorem Plain.parse_eq (plain : Plain root fields) :
    parseFixSpec root =
      (preamble root ++ (declared root).flatMap (fun t => tagLine t.1 (fmtInt t.2)) ++
        maxLine (((declared root).map Prod.snd).getLast?.getD 0 + 1) ++ ascii "\t\x7d;\n\n" ++
          constantLines fields.children ++ ascii "\x7d;", .ok ()) := by
  unfold parseFixSpec
  rw [plain.found]
  dsimp only
  rw [plain.iter_eq, tagLines_eq plain.named 0, plain.declared_eq, List.map_map]
  rfl

/-- The number written last is the largest, or MAX_VAL is not behind all numbers. -/
theorem below_max_iff (tags : List (List UInt8 × Int)) :
    (∀ t ∈ tags, t.2 < (tags.map Prod.snd).getLast?.getD 0 + 1) ↔
      ∀ last ∈ tags.getLast?, ∀ t ∈ tags, t.2 ≤ last.2 := by
  rw [List.getLast?_map]
  cases ends : tags.getLast? with
  | none =>
      rw [List.getLast?_eq_none_iff.mp ends]
      exact iff_of_true (List.forall_mem_nil _) nofun
  | some last =>
      rw [Option.map_some, Option.getD_some]
      constructor
      · rintro all _ ⟨⟩ t member
        exact Int.lt_add_one_iff.mp (all t member)
      · intro all t member
        exact Int.lt_add_one_iff.mpr (all last rfl t member)

/-- **The header and the dictionary.** Of a plain document with distinct names and numbers the
script writes one enumerator for each field, in order; the dictionary that `load` makes of the
document gives each enumerator's name its number and each number its name; and MAX_VAL is behind
all of them exactly when the last field has the largest number. -/
theorem Plain.header_agrees {document : Option Node} (plain : Plain root fields)
    (found : child document "fix" = some root) (names : ((declared root).map Prod.fst).Nodup)
    (numbers : ((declared root).map Prod.snd).Nodup) :
    ∃ (max : Int) (dic : Dictionary.FixDictionary),
      parseFixSpec root =
        (preamble root ++ (declared root).flatMap (fun t => tagLine t.1 (fmtInt t.2)) ++
          maxLine max ++ ascii "\t\x7d;\n\n" ++ constantLines fields.children ++ ascii "\x7d;",
          .ok ()) ∧
      Dictionary.load document Dictionary.new = (true, dic) ∧
      (∀ t ∈ declared root, dic.fieldDesc.find t.1 = some t.2) ∧
      (∀ name id, dic.fieldDict.find id = some name ↔ (name, id) ∈ declared root) ∧
      ((∀ t ∈ declared root, t.2 < max) ↔
        ∀ last ∈ (declared root).getLast?, ∀ t ∈ declared root, t.2 ≤ last.2) := by
  refine ⟨_, _, plain.parse_eq, Dictionary.load_any found Dictionary.new, fun t member => ?_,
    fun name id => ?_, below_max_iff (declared root)⟩
  · have filled := (Table.fill_eq_some_iff names).mpr (show (t.1, t.2) ∈ declared root from member)
    refine (Table.find_indexAll _ _ t.1 0).trans ?_
    rw [Dictionary.new, filled, Option.some_or]
  · exact (Table.fill_swap_iff names numbers).trans (Table.fill_eq_some_iff names)

end

/-- The header of a document with two fields. -/
theorem Plain.header_agrees_heartbeat :
    ∃ (max : Int) (dic : Dictionary.FixDictionary),
      Dictionary.load (Dictionary.heartbeatDocument "N") Dictionary.new = (true, dic) ∧
      (parseFixSpec (Dictionary.heartbeat "N")).2 = .ok () ∧
      dic.fieldDict.find 112 = some (ascii "TestReqID") ∧ 112 < max := by
  have numbered : ascii "8" = fmtInt 8 ∧ ascii "112" = fmtInt 112 := by decide +kernel
  have plain : Plain (Dictionary.heartbeat "N")
      (Dictionary.element "fields" []
        [Dictionary.element "field" [("number", "8"), ("name", "BeginString")] [],
          Dictionary.element "field" [("number", "112"), ("name", "TestReqID")] []]) := by
    refine ⟨rfl, ?_, ?_⟩
    · decide +kernel
    · intro f member
      rcases List.mem_cons.mp member with rfl | later
      · exact ⟨ascii "BeginString", 8, by decide +kernel, by decide +kernel, by decide, by decide⟩
      · obtain rfl := List.mem_singleton.mp later
        exact ⟨ascii "TestReqID", 112, by decide +kernel, by decide +kernel, by decide, by decide⟩
  have loads : child (Dictionary.heartbeatDocument "N") "fix" = some (Dictionary.heartbeat "N") :=
    rfl
  obtain ⟨max, dic, header, loaded, -, numbers, behind⟩ :=
    plain.header_agrees loads (by decide +kernel) (by decide +kernel)
  refine ⟨max, dic, loaded, congrArg Prod.snd header, (numbers _ _).mpr (by decide +kernel),
    behind.mpr (by decide +kernel) (ascii "TestReqID", 112) (by decide +kernel)⟩

end OpenFix.SpecParse

import OpenFix.FixParse.Extent
import OpenFix.FixParse.Framing

/-!
# The grammar of fields

A field as text, and where a cursor finds one.

* `wholeField_iff`: a step finds a field exactly where the bytes begin with one, and reads it
  from there.
* `TextField.unique`: no bytes begin with two fields.
* `FixFieldIterator.next_grammar`: the step on a byte string with a NUL behind it.
-/

namespace OpenFix

open FixFieldIterator (fieldBytes afterField scan)

/-! ## What a scan has walked over -/

theorem scan_value_inv {cs : List UInt8} {i p q : Nat} {first : Ptr}
    (scanned : scan SOH cs i (some p) = .ok (first, some q)) :
    first = some p ∧ ∃ value rest, Clean value ∧ cs = value ++ SOH :: rest ∧
      q = i + value.length := by
  induction cs generalizing i with
  | nil => cases scanned
  | cons c cs ih =>
      unfold scan at scanned
      split at scanned
      case isTrue => cases scanned
      case isFalse notNul =>
        split at scanned
        case isTrue again => cases again.2
        case isFalse =>
          split at scanned
          case isTrue found =>
            cases scanned
            refine ⟨rfl, [], cs, List.forall_mem_nil _, ?_, rfl⟩
            rw [found, List.nil_append]
          case isFalse notDelim =>
            obtain ⟨same, value, rest, clean, rfl, rfl⟩ := ih scanned
            refine ⟨same, c :: value, rest, ?_, rfl, ?_⟩
            · intro d member
              rcases List.mem_cons.mp member with rfl | later
              · exact ⟨notNul, notDelim⟩
              · exact clean d later
            · rw [List.length_cons]
              omega

theorem scan_inv {cs : List UInt8} {i p q : Nat}
    (scanned : scan SOH cs i none = .ok (some p, some q)) :
    ∃ tagText value rest, Clean tagText ∧ equalSign ∉ tagText ∧ Clean value ∧
      cs = fieldBytes tagText value ++ rest ∧ p = i + tagText.length + 1 ∧
        q = i + tagText.length + 1 + value.length := by
  induction cs generalizing i with
  | nil => cases scanned
  | cons c cs ih =>
      unfold scan at scanned
      split at scanned
      case isTrue => cases scanned
      case isFalse notNul =>
        split at scanned
        case isTrue equal =>
          obtain ⟨same, value, rest, clean, rfl, rfl⟩ := scan_value_inv scanned
          refine ⟨[], value, rest, List.forall_mem_nil _, List.not_mem_nil, clean, ?_,
            Option.some.inj same, rfl⟩
          simp only [fieldBytes, equal.1, List.nil_append, List.cons_append, List.append_assoc]
        case isFalse notEqual =>
          split at scanned
          case isTrue => cases scanned
          case isFalse notDelim =>
            obtain ⟨tagText, value, rest, cleanTag, noEqual, cleanValue, rfl, rfl, rfl⟩ :=
              ih scanned
            refine ⟨c :: tagText, value, rest, ?_, ?_, cleanValue, rfl, ?_, ?_⟩
            · intro d member
              rcases List.mem_cons.mp member with rfl | later
              · exact ⟨notNul, notDelim⟩
              · exact cleanTag d later
            · rw [List.mem_cons]
              rintro (same | later)
              · exact notEqual ⟨same.symm, rfl⟩
              · exact noEqual later
            · rw [List.length_cons]
              omega
            · rw [List.length_cons]
              omega

/-! ## Fields as text -/

/-- `tag=value<SOH>`, with no `'='` in the tag. -/
structure TextField : Type where
  tagText : List UInt8
  value : List UInt8
  cleanTag : Clean tagText
  noEqual : equalSign ∉ tagText
  cleanValue : Clean value
  deriving DecidableEq

namespace TextField

def bytes (f : TextField) : List UInt8 := fieldBytes f.tagText f.value

/-- What `details::atoi` reads in the tag. -/
def tag (f : TextField) : Int := Details.atoiText 10 f.tagText

/-- What `std::atoi` reads in the value; the delimiter stops it. -/
def number (f : TextField) : Int :=
  match strtol (f.value ++ [SOH]) with
  | .ok n => wrap32 n
  | .error _ => 0

/-- The field where it stands at offset `b`. -/
def placed (f : TextField) (b : Nat) : WholeField :=
  ⟨f.tag, b + f.tagText.length + 1, b + f.tagText.length + 1 + f.value.length⟩

theorem length_bytes (f : TextField) : f.bytes.length = f.tagText.length + f.value.length + 2 :=
  FixFieldIterator.length_fieldBytes _ _

theorem bytes_ne_nil (f : TextField) : f.bytes ≠ [] := by
  rw [← List.length_pos_iff, length_bytes]
  omega

/-- The cursor behind the field. -/
theorem past_placed (f : TextField) (b : Nat) :
    (f.placed b).past = afterField f.tag f.tagText f.value b := by
  have behind : b + f.tagText.length + 1 + f.value.length + 1 =
      b + (fieldBytes f.tagText f.value).length := by
    rw [FixFieldIterator.length_fieldBytes]
    omega
  rw [WholeField.past, placed, behind]
  rfl

theorem valEnd_placed (f : TextField) (b : Nat) :
    (f.placed b).valEnd + 1 = b + f.bytes.length := by
  rw [length_bytes]
  simp only [placed]
  omega

theorem zero_notMem_bytes (f : TextField) : (0 : UInt8) ∉ f.bytes := by
  have layout : f.bytes = f.tagText ++ equalSign :: (f.value ++ [SOH]) := by
    simp only [bytes, fieldBytes, List.append_assoc, List.cons_append]
  rw [layout]
  simp only [List.mem_append, List.mem_cons, List.not_mem_nil, or_false, not_or]
  refine ⟨fun member => (f.cleanTag 0 member).1 rfl, by decide,
    fun member => (f.cleanValue 0 member).1 rfl, by decide⟩

/-- A field in front of a NUL ends in front of it. -/
theorem prefix_of_nul {f : TextField} {s after rest : List UInt8}
    (bytes : s ++ 0 :: after = f.bytes ++ rest) :
    ∃ rest', s = f.bytes ++ rest' ∧ rest = rest' ++ 0 :: after := by
  rcases List.append_eq_append_iff.mp bytes with ⟨tail, begins, ends⟩ | ⟨tail, begins, ends⟩
  · rcases tail with _ | ⟨c, tail⟩
    · rw [List.append_nil] at begins
      exact ⟨[], begins ▸ (List.append_nil s).symm, ends.symm⟩
    · cases ends
      refine (f.zero_notMem_bytes ?_).elim
      rw [begins]
      exact List.mem_append_right _ List.mem_cons_self
  · exact ⟨tail, begins, ends⟩

end TextField

/-! ## Where a cursor finds a field -/

theorem WholeField.past_inj {field other : WholeField} (same : field.past = other.past) :
    field = other := by
  simp only [WholeField.past, FixFieldIterator.mk.injEq, FixField.mk.injEq,
    Option.some.injEq] at same
  cases field
  cases other
  simp only [WholeField.mk.injEq]
  exact ⟨same.1, same.2.1, same.2.2.1⟩

theorem wholeField_of_text {mem : Mem} {b : Nat} {f : TextField} {rest : List UInt8}
    (bytes : mem.drop b = f.bytes ++ rest) : wholeField mem (some b) = .ok (some (f.placed b)) := by
  have step : FixFieldIterator.next SOH mem ⟨⟨0, none, none, some b⟩⟩ = .ok (f.placed b).past := by
    rw [f.past_placed]
    exact FixFieldIterator.next_field _ rfl bytes f.cleanTag f.noEqual f.cleanValue
  rcases FixFieldIterator.next_wholeField mem ⟨⟨0, none, none, some b⟩⟩ rfl with
    ⟨fault, -, run⟩ | ⟨value, -, -, run⟩ | ⟨field, found, -, run⟩
  · cases step.symm.trans run
  · have begins := congrArg (fun it => it.cur.begin) (Except.ok.inj (step.symm.trans run))
    cases begins
  · rw [WholeField.past_inj (Except.ok.inj (step.symm.trans run))]
    exact found

theorem exists_text_of_wholeField {mem : Mem} {b : Nat} {field : WholeField}
    (found : wholeField mem (some b) = .ok (some field)) :
    ∃ (f : TextField) (rest : List UInt8), mem.drop b = f.bytes ++ rest ∧ field = f.placed b := by
  have read := found
  unfold wholeField at read
  simp only at read
  split at read
  case h_1 => cases read
  case h_3 => cases read
  case h_2 valBegin valEnd scanned =>
    obtain ⟨tagText, value, rest, cleanTag, noEqual, cleanValue, bytes, -, -⟩ := scan_inv scanned
    let f : TextField := ⟨tagText, value, cleanTag, noEqual, cleanValue⟩
    have whole : wholeField mem (some b) = .ok (some (f.placed b)) := wholeField_of_text bytes
    cases found.symm.trans whole
    exact ⟨f, rest, bytes, rfl⟩

/-- Where a field is found. -/
theorem wholeField_iff {mem : Mem} {b : Nat} {field : WholeField} :
    wholeField mem (some b) = .ok (some field) ↔
      ∃ (f : TextField) (rest : List UInt8), mem.drop b = f.bytes ++ rest ∧ field = f.placed b := by
  constructor
  · exact exists_text_of_wholeField
  · rintro ⟨f, rest, bytes, rfl⟩
    exact wholeField_of_text bytes

/-- One field at a time. -/
theorem TextField.unique {f g : TextField} {rest rest' : List UInt8}
    (same : f.bytes ++ rest = g.bytes ++ rest') : f = g ∧ rest = rest' := by
  have left : wholeField (f.bytes ++ rest) (some 0) = .ok (some (f.placed 0)) :=
    wholeField_of_text rfl
  have right : wholeField (f.bytes ++ rest) (some 0) = .ok (some (g.placed 0)) :=
    wholeField_of_text same
  have placed : f.placed 0 = g.placed 0 := Option.some.inj (Except.ok.inj (left.symm.trans right))
  simp only [TextField.placed, WholeField.mk.injEq] at placed
  obtain ⟨-, tags, values⟩ := placed
  have lengths : f.bytes.length = g.bytes.length := by
    rw [length_bytes, length_bytes]
    omega
  obtain ⟨bytes, rests⟩ := List.append_inj same lengths
  refine ⟨?_, rests⟩
  simp only [TextField.bytes, fieldBytes] at bytes
  obtain ⟨tagText, value⟩ := List.append_inj (List.append_cancel_right bytes) (by omega)
  cases f
  cases g
  cases tagText
  cases value
  rfl

/-- In front of a NUL a step never faults. -/
theorem wholeField_total {mem : Mem} {b : Nat} {s after : List UInt8}
    (bytes : mem.drop b = s ++ 0 :: after) : ∃ found, wholeField mem (some b) = .ok found := by
  obtain ⟨it, step⟩ :=
    FixFieldIterator.next_total ⟨⟨0, none, none, some b⟩⟩ rfl bytes (.inl rfl)
  rcases FixFieldIterator.next_wholeField mem ⟨⟨0, none, none, some b⟩⟩ rfl with
    ⟨fault, -, run⟩ | ⟨value, found, -, -⟩ | ⟨field, found, -, -⟩
  · cases step.symm.trans run
  · exact ⟨none, found⟩
  · exact ⟨some field, found⟩

/-! ## A byte string with a NUL behind it -/

/-- The string begins with `tag=value<SOH>`, and `rest` is behind that. -/
def Spells (s tagText value rest : List UInt8) : Prop :=
  s = fieldBytes tagText value ++ rest ∧ equalSign ∉ tagText ∧ SOH ∉ tagText ∧ SOH ∉ value

/-- The tag is an `int` in decimal digits. -/
def Numeric (tagText : List UInt8) : Prop :=
  tagText ≠ [] ∧ (∀ c ∈ tagText, Decimal.isDigit c = true) ∧ Decimal.value tagText < 2 ^ 31

theorem Spells.exists_field {s tagText value rest : List UInt8}
    (spells : Spells s tagText value rest) (noNul : (0 : UInt8) ∉ s) :
    ∃ f : TextField, f.tagText = tagText ∧ f.value = value ∧ s = f.bytes ++ rest := by
  obtain ⟨rfl, noEqual, noDelimTag, noDelimValue⟩ := spells
  have layout : fieldBytes tagText value ++ rest =
      tagText ++ equalSign :: (value ++ SOH :: rest) := by
    simp only [fieldBytes, List.append_assoc, List.cons_append, List.nil_append]
  rw [layout] at noNul
  have cleanTag : Clean tagText := by
    intro c member
    refine ⟨?_, fun delim => noDelimTag (delim ▸ member)⟩
    rintro rfl
    exact noNul (List.mem_append_left _ member)
  have cleanValue : Clean value := by
    intro c member
    refine ⟨?_, fun delim => noDelimValue (delim ▸ member)⟩
    rintro rfl
    exact noNul (List.mem_append_right _ (List.mem_cons_of_mem _ (List.mem_append_left _ member)))
  exact ⟨⟨tagText, value, cleanTag, noEqual, cleanValue⟩, rfl, rfl, rfl⟩

theorem TextField.spells (f : TextField) (rest : List UInt8) :
    Spells (f.bytes ++ rest) f.tagText f.value rest :=
  ⟨rfl, f.noEqual, fun member => (f.cleanTag SOH member).2 rfl,
    fun member => (f.cleanValue SOH member).2 rfl⟩

/-- The value read from where the field stands. -/
theorem TextField.asString_placed {mem : Mem} {b : Nat} {f : TextField} {rest : List UInt8}
    (bytes : mem.drop b = f.bytes ++ rest) :
    (f.placed b).past.cur.asString mem = .ok f.value := by
  have layout : f.bytes ++ rest = (f.tagText ++ [equalSign]) ++ (f.value ++ SOH :: rest) := by
    simp only [TextField.bytes, fieldBytes, List.append_assoc, List.cons_append, List.nil_append]
  rw [layout] at bytes
  have window := Bytes.drop_add_length bytes
  rw [List.length_append, List.length_singleton, ← Nat.add_assoc] at window
  simp only [FixField.asString, WholeField.past, TextField.placed, Bytes.slice]
  rw [window, Nat.add_sub_cancel_left, List.take_left]

/-- **The field grammar.** A step at the beginning of a string succeeds exactly when the string
begins with a tag without `'='`, an `'='`, a value and the delimiter. It has the value and the
byte behind the delimiter, and where the tag is an `int` in digits, that `int`. -/
theorem FixFieldIterator.next_grammar (before s after : List UInt8) (noNul : (0 : UInt8) ∉ s)
    (it : FixFieldIterator) (at_ : it.cur.begin = some before.length) :
    ∃ it', next SOH (before ++ (s ++ 0 :: after)) it = .ok it' ∧
      (it'.cur.begin ≠ none ↔ ∃ tagText value rest, Spells s tagText value rest) ∧
      ∀ tagText value rest, Spells s tagText value rest →
        it'.cur.valBegin = some (before.length + tagText.length + 1) ∧
        it'.cur.valEnd = some (before.length + tagText.length + 1 + value.length) ∧
        it'.cur.asString (before ++ (s ++ 0 :: after)) = .ok value ∧
        it'.cur.begin = some (before.length + (fieldBytes tagText value).length) ∧
        (Numeric tagText → it'.cur.tag = Decimal.value tagText) := by
  have bytes : (before ++ (s ++ 0 :: after)).drop before.length = s ++ 0 :: after :=
    List.drop_left
  rcases next_wholeField (before ++ (s ++ 0 :: after)) it at_ with
    ⟨fault, found, -⟩ | ⟨value, found, -, step⟩ | ⟨field, found, -, step⟩
  · obtain ⟨total, read⟩ := wholeField_total bytes
    cases found.symm.trans read
  · -- Where the string begins with a field, one is found.
    have none_ (tagText value rest : List UInt8) : ¬ Spells s tagText value rest := by
      intro spells
      obtain ⟨f, -, -, split⟩ := spells.exists_field noNul
      rw [split, List.append_assoc] at bytes
      rw [split, List.append_assoc] at found
      cases found.symm.trans (wholeField_of_text bytes)
    refine ⟨_, step, ?_, fun tagText value rest spells => (none_ _ _ _ spells).elim⟩
    constructor
    · intro some_
      exact (some_ rfl).elim
    · rintro ⟨tagText, value, rest, spells⟩
      exact (none_ _ _ _ spells).elim
  · obtain ⟨f, rest, split, rfl⟩ := wholeField_iff.mp found
    obtain ⟨rest, rfl, -⟩ := TextField.prefix_of_nul (bytes.symm.trans split)
    refine ⟨_, step, ?_, ?_⟩
    · constructor
      · intro _
        exact ⟨_, _, _, f.spells rest⟩
      · intro _
        exact nofun
    · intro tagText value rest' spells
      obtain ⟨g, rfl, rfl, same⟩ := spells.exists_field noNul
      obtain ⟨rfl, -⟩ := TextField.unique same
      refine ⟨rfl, rfl, TextField.asString_placed split, ?_, ?_⟩
      · rw [f.past_placed]
        rfl
      · rintro ⟨nonempty, digits, fits⟩
        exact Details.atoiText_digits nonempty digits fits

/-- `8=F` in front of another field. -/
theorem FixFieldIterator.next_grammar_header :
    ∃ it', next SOH ([7] ++ ([56, 61, 70, 1, 57] ++ 0 :: [])) ⟨⟨0, none, none, some 1⟩⟩ = .ok it' ∧
      it'.cur.begin ≠ none ∧ it'.cur.tag = 8 := by
  have spells : Spells [56, 61, 70, 1, 57] [56] [70] [57] := by
    unfold Spells
    decide
  obtain ⟨it', step, found, read⟩ :=
    next_grammar [7] [56, 61, 70, 1, 57] [] (by decide) ⟨⟨0, none, none, some 1⟩⟩ rfl
  obtain ⟨-, -, -, -, tag⟩ := read _ _ _ spells
  exact ⟨it', step, found.mpr ⟨_, _, _, spells⟩, tag ⟨by decide, by decide +kernel, by decide⟩⟩

/-- `:=x` is a field, with the tag of the trailer. -/
theorem FixFieldIterator.next_grammar_colon :
    next SOH [58, 61, 120, 1, 0] ⟨⟨0, none, none, some 0⟩⟩ =
        .ok ⟨⟨FixSpec.CheckSum, some 2, some 3, some 4⟩⟩ ∧
      ¬ ∀ (before s after : List UInt8) (it it' : FixFieldIterator), (0 : UInt8) ∉ s →
        it.cur.begin = some before.length →
        next SOH (before ++ (s ++ 0 :: after)) it = .ok it' →
        (it'.cur.begin ≠ none ↔
          ∃ tagText value rest, Spells s tagText value rest ∧ Numeric tagText) := by
  have step : next SOH [58, 61, 120, 1, 0] ⟨⟨0, none, none, some 0⟩⟩ =
      .ok ⟨⟨FixSpec.CheckSum, some 2, some 3, some 4⟩⟩ := by
    decide +kernel
  refine ⟨step, ?_⟩
  intro law
  obtain ⟨tagText, value, rest, ⟨split, -, -, -⟩, nonempty, digits, -⟩ :=
    (law [] [58, 61, 120, 1] [] _ _ (by decide) rfl step).mp nofun
  obtain ⟨c, tagText, rfl⟩ := List.exists_cons_of_ne_nil nonempty
  have colon : 58 = c := by
    have heads := congrArg List.head? split
    exact Option.some.inj heads
  have digit := digits c List.mem_cons_self
  rw [← colon] at digit
  exact absurd digit (by decide)

end OpenFix

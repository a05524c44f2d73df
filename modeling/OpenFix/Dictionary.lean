import OpenFix.Lib.Table
import OpenFix.Pugixml

/-!
# `fix_dictionary`

`load` reads the fields, the header and the messages of a dictionary document into its maps. The
document is a parameter, none where `load_file` fails.

* `load_eq`: what the three loops leave.
* `loaded_iff`: when that is what the document declares.
-/

namespace OpenFix.Dictionary

open Pugi

/-! ## The functions -/

/-- `field_t`. -/
structure Field : Type where
  id : Int
  required : Bool
  deriving DecidableEq

/-- `fix_dictionary`, but for the document and the trailer. -/
structure FixDictionary : Type where
  fixMaj : Int
  fixMin : Int
  header : List Field
  messageFields : Table (List UInt8) (List Field)
  messageDesc : Table (List UInt8) (List UInt8)
  fieldDict : Table Int (List UInt8)
  fieldDesc : Table (List UInt8) Int

/-- `fix_dictionary{ }`. -/
def new : FixDictionary := ⟨0, 0, [], .empty, .empty, .empty, .empty⟩

/-- The attributes that `load` reads. -/
def nameOf (node : Node) : List UInt8 := asString (attribute_ node "name")

def numberOf (node : Node) : Int := asInt (attribute_ node "number")

def requiredOf (node : Node) : List UInt8 := asString (attribute_ node "required")

def typeOf (node : Node) : List UInt8 := asString (attribute_ node "msgtype")

/-- The body of the loop over the fields. -/
def loadField (dic : FixDictionary) (f : Node) : FixDictionary :=
  { dic with
    fieldDict := dic.fieldDict.set (numberOf f) (nameOf f)
    fieldDesc := dic.fieldDesc.set (nameOf f) (numberOf f) }

/-- The body of the loop over the header. -/
def loadHeader (dic : FixDictionary) (c : Node) : FixDictionary :=
  let id := dic.fieldDesc.index (nameOf c) 0
  { dic with
    fieldDesc := id.1
    header := dic.header ++ [⟨id.2, 0 < strcmp (requiredOf c) (ascii "Y")⟩] }

/-- The body of the loop over the children of a message. -/
def loadMessageField (msgName : List UInt8) (dic : FixDictionary) (f : Node) : FixDictionary :=
  let id := dic.fieldDesc.index (nameOf f) 0
  { dic with
    fieldDesc := id.1
    messageFields := dic.messageFields.push msgName
      ⟨id.2, strcmp (requiredOf f) (ascii "Y") = 0⟩ }

/-- The body of the loop over the messages. -/
def loadMessage (dic : FixDictionary) (m : Node) : FixDictionary :=
  m.children.foldl (loadMessageField (nameOf m))
    { dic with messageDesc := dic.messageDesc.set (nameOf m) (typeOf m) }

/-- `load`: what it returns, and the dictionary it leaves. -/
def load (document : Option Node) (dic : FixDictionary) : Bool × FixDictionary :=
  match document with
  | none => (false, dic)
  | some document =>
      match child (some document) "fix" with
      | none => (false, dic)
      | some fix =>
          let dic := { dic with
            fixMaj := asInt (attribute_ fix "major")
            fixMin := asInt (attribute_ fix "minor") }
          let dic := (children (child (some fix) "fields")).foldl loadField dic
          let dic := (children (child (some fix) "header")).foldl loadHeader dic
          let dic := (children (child (some fix) "messages")).foldl loadMessage dic
          (true, dic)

/-! ## What is expected -/

/-- The names and numbers of the fields that a dictionary declares. -/
def declared (fix : Node) : List (List UInt8 × Int) :=
  (children (child (some fix) "fields")).map fun f => (nameOf f, numberOf f)

def headerOf (fix : Node) : List Node := children (child (some fix) "header")

def messagesOf (fix : Node) : List Node := children (child (some fix) "messages")

/-- The children of the messages with a name, in order. -/
def messageChildren (fix : Node) (name : List UInt8) : List Node :=
  ((messagesOf fix).filter fun m => nameOf m = name).flatMap Node.children

/-- Field names and numbers are distinct, and what the header and the messages name is a declared
field. -/
structure Consistent (fix : Node) : Prop where
  names : ((declared fix).map Prod.fst).Nodup
  numbers : ((declared fix).map Prod.snd).Nodup
  header : ∀ c ∈ headerOf fix, nameOf c ∈ (declared fix).map Prod.fst
  messages : ∀ m ∈ messagesOf fix, ∀ f ∈ m.children, nameOf f ∈ (declared fix).map Prod.fst

/-- An entry of the dictionary has the declared number of its child's name, and is required where
the child says `"Y"`. -/
def Lists (fix : Node) (c : Node) (field : Field) : Prop :=
  (nameOf c, field.id) ∈ declared fix ∧ (field.required = true ↔ requiredOf c = ascii "Y")

/-- A dictionary has what the document declares. -/
structure Loaded (fix : Node) (dic : FixDictionary) : Prop where
  /-- The names and numbers of the declared fields. -/
  declared : ∀ name id, dic.fieldDesc.find name = some id ↔ (name, id) ∈ declared fix
  inverse : ∀ name id, dic.fieldDict.find id = some name ↔ dic.fieldDesc.find name = some id
  header : List.Forall₂ (Lists fix) (headerOf fix) dic.header
  messages : ∀ name,
    List.Forall₂ (Lists fix) (messageChildren fix name) ((dic.messageFields.find name).getD [])

/-! ## The loops -/

/-- What a loop puts into its list for a child, when its name is in the map. -/
def entry (fieldDesc : Table (List UInt8) Int) (required : List UInt8 → Bool) (c : Node) : Field :=
  ⟨(fieldDesc.find (nameOf c)).getD 0, required (requiredOf c)⟩

/-- The test of the header loop. -/
def behindY (required : List UInt8) : Bool := 0 < strcmp required (ascii "Y")

/-- The test of the message loop. -/
def isY (required : List UInt8) : Bool := strcmp required (ascii "Y") = 0

/-- The names of the nodes are in the map. -/
def Known (fieldDesc : Table (List UInt8) Int) (cs : List Node) : Prop :=
  ∀ c ∈ cs, ∃ id, fieldDesc.find (nameOf c) = some id

theorem foldl_loadField (fs : List Node) (dic : FixDictionary) :
    fs.foldl loadField dic =
      { dic with
        fieldDict := dic.fieldDict.fill ((fs.map fun f => (nameOf f, numberOf f)).map Prod.swap)
        fieldDesc := dic.fieldDesc.fill (fs.map fun f => (nameOf f, numberOf f)) } := by
  induction fs generalizing dic with
  | nil => rfl
  | cons f fs ih =>
      rw [List.foldl_cons, ih]
      rfl

theorem loadHeader_eq {dic : FixDictionary} {c : Node} {id : Int}
    (known : dic.fieldDesc.find (nameOf c) = some id) :
    loadHeader dic c =
      { dic with header := dic.header ++ [entry dic.fieldDesc behindY c] } := by
  unfold loadHeader entry
  dsimp only
  rw [Table.index_of_some known, known]
  rfl

theorem foldl_loadHeader {cs : List Node} (dic : FixDictionary) (known : Known dic.fieldDesc cs) :
    cs.foldl loadHeader dic =
      { dic with header := dic.header ++ cs.map (entry dic.fieldDesc behindY) } := by
  induction cs generalizing dic with
  | nil => rw [List.map_nil, List.append_nil, List.foldl_nil]
  | cons c cs ih =>
      obtain ⟨id, here⟩ := known c List.mem_cons_self
      have next := ih { dic with header := dic.header ++ [entry dic.fieldDesc behindY c] }
        fun d member => known d (.tail c member)
      rw [List.foldl_cons, loadHeader_eq here, next, List.append_assoc]
      rfl

theorem loadMessageField_eq {dic : FixDictionary} {f : Node} {id : Int}
    (known : dic.fieldDesc.find (nameOf f) = some id) (msgName : List UInt8) :
    loadMessageField msgName dic f =
      { dic with messageFields := dic.messageFields.push msgName (entry dic.fieldDesc isY f) } := by
  unfold loadMessageField entry
  dsimp only
  rw [Table.index_of_some known, known]
  rfl

theorem foldl_loadMessageField {fs : List Node} (msgName : List UInt8) (dic : FixDictionary)
    (known : Known dic.fieldDesc fs) :
    fs.foldl (loadMessageField msgName) dic =
      { dic with
        messageFields := dic.messageFields.pushAll
          (fs.map fun f => (msgName, entry dic.fieldDesc isY f)) } := by
  induction fs generalizing dic with
  | nil => rfl
  | cons f fs ih =>
      obtain ⟨id, here⟩ := known f List.mem_cons_self
      rw [List.foldl_cons, loadMessageField_eq here]
      exact ih _ fun g member => known g (.tail f member)

/-- The fields of the messages, each with the name of its message. -/
def messageEntries (fieldDesc : Table (List UInt8) Int) (ms : List Node) :
    List (List UInt8 × Field) :=
  ms.flatMap fun m => m.children.map fun f => (nameOf m, entry fieldDesc isY f)

theorem loadMessage_eq {dic : FixDictionary} {m : Node} (known : Known dic.fieldDesc m.children) :
    loadMessage dic m =
      { dic with
        messageDesc := dic.messageDesc.set (nameOf m) (typeOf m)
        messageFields := dic.messageFields.pushAll
          (m.children.map fun f => (nameOf m, entry dic.fieldDesc isY f)) } :=
  foldl_loadMessageField (nameOf m)
    { dic with messageDesc := dic.messageDesc.set (nameOf m) (typeOf m) } known

theorem foldl_loadMessage {ms : List Node} (dic : FixDictionary)
    (known : ∀ m ∈ ms, Known dic.fieldDesc m.children) :
    ms.foldl loadMessage dic =
      { dic with
        messageDesc := dic.messageDesc.fill (ms.map fun m => (nameOf m, typeOf m))
        messageFields := dic.messageFields.pushAll (messageEntries dic.fieldDesc ms) } := by
  induction ms generalizing dic with
  | nil => rfl
  | cons m ms ih =>
      have entries : messageEntries dic.fieldDesc (m :: ms) =
          m.children.map (fun f => (nameOf m, entry dic.fieldDesc isY f)) ++
            messageEntries dic.fieldDesc ms := List.flatMap_cons
      rw [List.foldl_cons, loadMessage_eq (known m List.mem_cons_self), entries,
        Table.pushAll_append]
      exact ih _ fun n member => known n (.tail m member)

/-- What `load` leaves of a consistent document. -/
theorem load_eq {document : Option Node} {fix : Node} (found : child document "fix" = some fix)
    (consistent : Consistent fix) :
    load document new =
      (true,
        { fixMaj := asInt (attribute_ fix "major")
          fixMin := asInt (attribute_ fix "minor")
          header := (headerOf fix).map (entry (Table.empty.fill (declared fix)) behindY)
          messageFields := Table.empty.pushAll
            (messageEntries (Table.empty.fill (declared fix)) (messagesOf fix))
          messageDesc := Table.empty.fill
            ((messagesOf fix).map fun m => (nameOf m, typeOf m))
          fieldDict := Table.empty.fill ((declared fix).map Prod.swap)
          fieldDesc := Table.empty.fill (declared fix) }) := by
  have known : ∀ cs, (∀ c ∈ cs, nameOf c ∈ (declared fix).map Prod.fst) →
      Known (Table.empty.fill (declared fix)) cs := by
    intro cs names c member
    obtain ⟨⟨name, id⟩, isDeclared, same⟩ := List.mem_map.mp (names c member)
    exact ⟨id, (Table.fill_eq_some_iff consistent.names).mpr (same ▸ isDeclared)⟩
  cases document with
  | none => cases found
  | some document =>
      unfold load
      dsimp only
      rw [found]
      dsimp only
      rw [foldl_loadField, foldl_loadHeader _ (known _ consistent.header)]
      exact congrArg (Prod.mk true)
        (foldl_loadMessage _ fun m member => known _ (consistent.messages m member))

/-! ## When the dictionary is right -/

section

variable {fix : Node}

theorem entry_id {c : Node} (consistent : Consistent fix)
    (named : nameOf c ∈ (declared fix).map Prod.fst) (required : List UInt8 → Bool) :
    (nameOf c, (entry (Table.empty.fill (declared fix)) required c).id) ∈ declared fix := by
  obtain ⟨⟨name, id⟩, isDeclared, same⟩ := List.mem_map.mp named
  obtain rfl : name = nameOf c := same
  have found := (Table.fill_eq_some_iff consistent.names).mpr isDeclared
  rw [entry, found]
  exact isDeclared

/-- A loop lists a child as it should if its test tells `"Y"`. -/
theorem lists_entry_iff {c : Node} (consistent : Consistent fix)
    (named : nameOf c ∈ (declared fix).map Prod.fst) (required : List UInt8 → Bool) :
    Lists fix c (entry (Table.empty.fill (declared fix)) required c) ↔
      (required (requiredOf c) = true ↔ requiredOf c = ascii "Y") :=
  and_iff_right (entry_id consistent named required)

/-- The message loop's test is right, the header loop's only on what comes before `"Y"`. -/
theorem isY_iff (required : List UInt8) : isY required = true ↔ required = ascii "Y" := by
  rw [isY, decide_eq_true_iff, strcmp_eq_zero_iff]

theorem behindY_iff (required : List UInt8) :
    (behindY required = true ↔ required = ascii "Y") ↔ strcmp required (ascii "Y") < 0 := by
  rw [behindY, decide_eq_true_iff, ← strcmp_eq_zero_iff]
  omega

/-- The entries of a message name are those of its children. -/
theorem messageEntries_of_name (fieldDesc : Table (List UInt8) Int) (fix : Node)
    (name : List UInt8) :
    ((messageEntries fieldDesc (messagesOf fix)).filter fun e => e.1 = name).map Prod.snd =
      (messageChildren fix name).map (entry fieldDesc isY) := by
  rw [messageEntries, messageChildren]
  induction messagesOf fix with
  | nil => rfl
  | cons m ms ih =>
      rw [List.flatMap_cons, List.filter_append, List.map_append, ih, Table.filter_map_key,
        List.filter_cons]
      by_cases here : nameOf m = name
      · rw [if_pos here, if_pos (decide_eq_true here), List.flatMap_cons, List.map_append]
      · rw [if_neg here, if_neg (ne_true_of_eq_false (decide_eq_false here)), List.nil_append]

/-- Entries that a loop has made of children with declared names. -/
theorem forall₂_entry_iff {cs : List Node} (consistent : Consistent fix)
    (named : ∀ c ∈ cs, nameOf c ∈ (declared fix).map Prod.fst) (required : List UInt8 → Bool) :
    List.Forall₂ (Lists fix) cs (cs.map (entry (Table.empty.fill (declared fix)) required)) ↔
      ∀ c ∈ cs, (required (requiredOf c) = true ↔ requiredOf c = ascii "Y") := by
  rw [List.forall₂_map_right_iff, List.forall₂_same]
  exact forall₂_congr fun c member => lists_entry_iff consistent (named c member) required

/-- **The dictionary is right** if no child of the header is required, nor says what is behind
`"Y"` in byte order. -/
theorem loaded_iff {document : Option Node} {dic : FixDictionary}
    (found : child document "fix" = some fix) (consistent : Consistent fix)
    (run : load document new = (true, dic)) :
    Loaded fix dic ↔ ∀ c ∈ headerOf fix, strcmp (requiredOf c) (ascii "Y") < 0 := by
  rw [load_eq found consistent] at run
  obtain rfl := (Prod.mk.inj run).2
  have header := forall₂_entry_iff consistent consistent.header behindY
  have messages : ∀ name, List.Forall₂ (Lists fix) (messageChildren fix name)
      (((Table.empty.pushAll (messageEntries (Table.empty.fill (declared fix))
        (messagesOf fix))).find name).getD []) := by
    intro name
    rw [Table.getD_pushAll, messageEntries_of_name]
    refine (forall₂_entry_iff consistent (fun f member => ?_) isY).mpr fun f _ => isY_iff _
    obtain ⟨m, within, isChild⟩ := List.mem_flatMap.mp member
    exact consistent.messages m (List.mem_filter.mp within).1 f isChild
  constructor
  · intro loaded c member
    exact (behindY_iff _).mp (header.mp loaded.header c member)
  · intro before
    exact {
      declared := fun name id => Table.fill_eq_some_iff consistent.names
      inverse := fun name id => Table.fill_swap_iff consistent.names consistent.numbers
      header := header.mpr fun c member => (behindY_iff _).mpr (before c member)
      messages := messages }

end

/-- An element with attributes. -/
def element (name : String) (attributes : List (String × String)) (children : List Node) : Node :=
  ⟨ascii name, attributes.map fun a => (ascii a.1, ascii a.2), children⟩

/-- A dictionary with two fields, one of them in the header and one in a message. -/
def heartbeat (required : String) : Node :=
  element "fix" [("major", "4"), ("minor", "4")]
    [element "header" [] [element "field" [("name", "BeginString"), ("required", required)] []],
      element "messages" [] [element "message" [("name", "Heartbeat"), ("msgtype", "0")]
        [element "field" [("name", "TestReqID"), ("required", "Y")] []]],
      element "fields" [] [element "field" [("number", "8"), ("name", "BeginString")] [],
        element "field" [("number", "112"), ("name", "TestReqID")] []]]

/-- Its document. -/
def heartbeatDocument (required : String) : Option Node :=
  some (element "" [] [heartbeat required])

theorem loaded_iff_heartbeat : Loaded (heartbeat "N") (load (heartbeatDocument "N") new).2 := by
  have found : child (heartbeatDocument "N") "fix" = some (heartbeat "N") := rfl
  have consistent : Consistent (heartbeat "N") :=
    ⟨by decide +kernel, by decide +kernel, by decide +kernel, by decide +kernel⟩
  exact (loaded_iff found consistent rfl).mpr (by decide +kernel)

/-- A header child that is required is listed as one that is not. -/
theorem not_loaded_required :
    ¬ ∀ (document : Option Node) (fix : Node) (dic : FixDictionary),
      child document "fix" = some fix → Consistent fix → load document new = (true, dic) →
        Loaded fix dic := by
  intro all
  have consistent : Consistent (heartbeat "Y") :=
    ⟨by decide +kernel, by decide +kernel, by decide +kernel, by decide +kernel⟩
  have loaded := all (heartbeatDocument "Y") (heartbeat "Y") _ rfl consistent rfl
  have header : List.Forall₂ (Lists (heartbeat "Y"))
      [element "field" [("name", "BeginString"), ("required", "Y")] []] [⟨8, false⟩] :=
    loaded.header
  cases header with
  | cons lists =>
      have required := lists.2.mpr (by decide +kernel)
      cases required

end OpenFix.Dictionary

import OpenFix.Dictionary

/-!
# `fix_dictionary::load` on any document

What `load` leaves of a document that need not be consistent, in a dictionary that need not be
new. A name that no field declares gets the number 0 where it is looked up first, so it has that
number from then on.

* `load_any`: the three loops on any document.
* `gathered_of_load`: what the maps and the lists then hold.
* `gathered_again`: what a second `load` of the document adds.
-/

namespace OpenFix.Dictionary

open Pugi

/-! ## The loops -/

/-- Tables that read the same with 0 as the default make the same entries. -/
theorem entry_congr {fieldDesc fieldDesc' : Table (List UInt8) Int}
    (same : ∀ name, (fieldDesc.find name).getD 0 = (fieldDesc'.find name).getD 0)
    (required : List UInt8 → Bool) : entry fieldDesc required = entry fieldDesc' required := by
  funext c
  rw [entry, entry, same]

theorem entry_indexAll (fieldDesc : Table (List UInt8) Int) (names : List (List UInt8))
    (required : List UInt8 → Bool) :
    entry (fieldDesc.indexAll names 0) required = entry fieldDesc required :=
  entry_congr (fun name => Table.getD_indexAll fieldDesc names name 0) required

theorem loadHeader_any (dic : FixDictionary) (c : Node) :
    loadHeader dic c =
      { dic with
        fieldDesc := dic.fieldDesc.indexAll [nameOf c] 0
        header := dic.header ++ [entry dic.fieldDesc behindY c] } := by
  unfold loadHeader entry
  dsimp only
  rw [Table.index_snd]
  rfl

theorem foldl_loadHeader_any (cs : List Node) (dic : FixDictionary) :
    cs.foldl loadHeader dic =
      { dic with
        fieldDesc := dic.fieldDesc.indexAll (cs.map nameOf) 0
        header := dic.header ++ cs.map (entry dic.fieldDesc behindY) } := by
  induction cs generalizing dic with
  | nil =>
      rw [List.map_nil, List.map_nil, List.append_nil]
      rfl
  | cons c cs ih =>
      rw [List.foldl_cons, ih, loadHeader_any]
      dsimp only
      rw [entry_indexAll, ← Table.indexAll_append, List.append_assoc]
      rfl

theorem loadMessageField_any (msgName : List UInt8) (dic : FixDictionary) (f : Node) :
    loadMessageField msgName dic f =
      { dic with
        fieldDesc := dic.fieldDesc.indexAll [nameOf f] 0
        messageFields := dic.messageFields.push msgName (entry dic.fieldDesc isY f) } := by
  unfold loadMessageField entry
  dsimp only
  rw [Table.index_snd]
  rfl

theorem foldl_loadMessageField_any (msgName : List UInt8) (fs : List Node) (dic : FixDictionary) :
    fs.foldl (loadMessageField msgName) dic =
      { dic with
        fieldDesc := dic.fieldDesc.indexAll (fs.map nameOf) 0
        messageFields := dic.messageFields.pushAll
          (fs.map fun f => (msgName, entry dic.fieldDesc isY f)) } := by
  induction fs generalizing dic with
  | nil => rfl
  | cons f fs ih =>
      rw [List.foldl_cons, ih, loadMessageField_any]
      dsimp only
      rw [entry_indexAll, ← Table.indexAll_append]
      rfl

/-- The names of the children of the messages. -/
def childNames (ms : List Node) : List (List UInt8) := ms.flatMap fun m => m.children.map nameOf

theorem foldl_loadMessage_any (ms : List Node) (dic : FixDictionary) :
    ms.foldl loadMessage dic =
      { dic with
        fieldDesc := dic.fieldDesc.indexAll (childNames ms) 0
        messageDesc := dic.messageDesc.fill (ms.map fun m => (nameOf m, typeOf m))
        messageFields := dic.messageFields.pushAll (messageEntries dic.fieldDesc ms) } := by
  induction ms generalizing dic with
  | nil => rfl
  | cons m ms ih =>
      have entries : messageEntries dic.fieldDesc (m :: ms) =
          m.children.map (fun f => (nameOf m, entry dic.fieldDesc isY f)) ++
            messageEntries dic.fieldDesc ms := List.flatMap_cons
      have names : childNames (m :: ms) = m.children.map nameOf ++ childNames ms :=
        List.flatMap_cons
      have again : messageEntries (dic.fieldDesc.indexAll (m.children.map nameOf) 0) ms =
          messageEntries dic.fieldDesc ms := by
        rw [messageEntries, entry_indexAll]
        rfl
      rw [List.foldl_cons, ih, loadMessage, foldl_loadMessageField_any]
      dsimp only
      rw [again, ← Table.indexAll_append, ← names, entries, Table.pushAll_append]
      rfl

/-- The names that the header and the messages look up. -/
def referenced (fix : Node) : List (List UInt8) :=
  (headerOf fix).map nameOf ++ childNames (messagesOf fix)

/-- What `load` leaves of any document. -/
theorem load_any {document : Option Node} {fix : Node} (found : child document "fix" = some fix)
    (dic : FixDictionary) :
    load document dic =
      (true,
        { fixMaj := asInt (attribute_ fix "major")
          fixMin := asInt (attribute_ fix "minor")
          header := dic.header ++
            (headerOf fix).map (entry (dic.fieldDesc.fill (declared fix)) behindY)
          messageFields := dic.messageFields.pushAll
            (messageEntries (dic.fieldDesc.fill (declared fix)) (messagesOf fix))
          messageDesc := dic.messageDesc.fill
            ((messagesOf fix).map fun m => (nameOf m, typeOf m))
          fieldDict := dic.fieldDict.fill ((declared fix).map Prod.swap)
          fieldDesc := (dic.fieldDesc.fill (declared fix)).indexAll (referenced fix) 0 }) := by
  cases document with
  | none => cases found
  | some document =>
      unfold load
      dsimp only
      rw [found]
      dsimp only
      rw [foldl_loadField, foldl_loadHeader_any, foldl_loadMessage_any]
      dsimp only
      rw [← Table.indexAll_append, messageEntries, entry_indexAll]
      rfl

/-! ## What the dictionary holds -/

/-- What a dictionary has gathered from a document, over what it held before. -/
structure Gathered (fix : Node) (before dic : FixDictionary) : Prop where
  /-- The name that the document gives a number last. -/
  fieldDict : ∀ id, dic.fieldDict.find id =
    (Table.lastOf ((declared fix).map Prod.swap) id).or (before.fieldDict.find id)
  /-- The number that the document gives a name last, and 0 for a name that is only looked up. -/
  fieldDesc : ∀ name, dic.fieldDesc.find name =
    ((Table.lastOf (declared fix) name).or (before.fieldDesc.find name)).or
      (if name ∈ referenced fix then some 0 else none)
  messageDesc : ∀ name, dic.messageDesc.find name =
    (Table.lastOf ((messagesOf fix).map fun m => (nameOf m, typeOf m)) name).or
      (before.messageDesc.find name)
  /-- The children in order, by the numbers that `fieldDesc` has in the end. -/
  header : dic.header = before.header ++ (headerOf fix).map (entry dic.fieldDesc behindY)
  messages : ∀ name, (dic.messageFields.find name).getD [] =
    (before.messageFields.find name).getD [] ++
      (messageChildren fix name).map (entry dic.fieldDesc isY)

/-- **Any document**, loaded into any dictionary: `load` returns true where there is a `<fix>`,
and has gathered it; else the dictionary is as it was. -/
theorem gathered_of_load (document : Option Node) (before : FixDictionary) :
    (∃ fix dic, child document "fix" = some fix ∧ load document before = (true, dic) ∧
        Gathered fix before dic) ∨
      child document "fix" = none ∧ load document before = (false, before) := by
  cases found : child document "fix" with
  | none =>
      refine .inr ⟨rfl, ?_⟩
      unfold load
      cases document with
      | none => rfl
      | some document =>
          dsimp only
          rw [found]
  | some fix =>
      refine .inl ⟨fix, _, rfl, load_any found before, ?_⟩
      constructor
      · exact Table.find_fill before.fieldDict _
      · intro name
        refine (Table.find_indexAll _ _ name 0).trans ?_
        rw [Table.find_fill]
        congr
      · exact Table.find_fill before.messageDesc _
      · exact congrArg (before.header ++ ·) (by rw [entry_indexAll])
      · intro name
        exact (Table.getD_pushAll _ _ name).trans
          (by rw [messageEntries_of_name, entry_indexAll])

/-- A second `load` of the document leaves the maps as they are, and puts the same children
into the lists once more. -/
theorem gathered_again {fix : Node} {before dic dic' : FixDictionary}
    (first : Gathered fix before dic) (second : Gathered fix dic dic') :
    (∀ id, dic'.fieldDict.find id = dic.fieldDict.find id) ∧
      (∀ name, dic'.fieldDesc.find name = dic.fieldDesc.find name) ∧
      (∀ name, dic'.messageDesc.find name = dic.messageDesc.find name) ∧
      (∃ added, dic.header = before.header ++ added ∧ dic'.header = dic.header ++ added) ∧
      ∀ name, ∃ added,
        (dic.messageFields.find name).getD [] =
          (before.messageFields.find name).getD [] ++ added ∧
        (dic'.messageFields.find name).getD [] =
          (dic.messageFields.find name).getD [] ++ added := by
  have again {α : Type} (last old : Option α) : last.or (last.or old) = last.or old := by
    cases last <;> rfl
  have default {α : Type} (last old zero : Option α) :
      (last.or ((last.or old).or zero)).or zero = (last.or old).or zero := by
    cases last <;> cases old <;> cases zero <;> rfl
  have fieldDesc : ∀ name, dic'.fieldDesc.find name = dic.fieldDesc.find name := by
    intro name
    rw [second.fieldDesc, first.fieldDesc, default]
  have same : ∀ required, entry dic'.fieldDesc required = entry dic.fieldDesc required :=
    entry_congr fun name => by rw [fieldDesc]
  refine ⟨fun id => ?_, fieldDesc, fun name => ?_, ⟨_, first.header, ?_⟩,
    fun name => ⟨_, first.messages name, ?_⟩⟩
  · rw [second.fieldDict, first.fieldDict, again]
  · rw [second.messageDesc, first.messageDesc, again]
  · rw [second.header, same]
  · rw [second.messages, same]

end OpenFix.Dictionary

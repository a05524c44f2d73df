import OpenFix.FixParse.Confine
import OpenFix.FixParse.Walk

/-!
# The texts that the parser reads

`init` and the range-based `for` together: over which bytes they come to an end, and what a
reader then gets of them.

* `Layout.init_eq`: what a call of `init` stores.
* `walk_stand`, `find_stand`: what the loop and `find` come to in front of whole fields.
* `FixMessage.readsText_iff`: the language of the parser.
-/

namespace OpenFix

open FixFieldIterator (fieldBytes)

/-! ## What is read of a field -/

/-- `as_char` on the value: its first byte, or the delimiter. -/
def TextField.char (f : TextField) : UInt8 := f.value.headD SOH

/-- A reader of `v` gets the tag and the value of `f`. -/
structure TextField.Seen (f : TextField) (mem : Mem) (v : FixField) : Prop where
  tag : v.tag = f.tag
  asString : v.asString mem = .ok f.value
  asInt : v.asInt mem = .ok f.number
  asChar : v.asChar mem = .ok f.char

theorem TextField.seen_placed {mem : Mem} {p : Nat} {f : TextField} {rest : List UInt8}
    (bytes : mem.drop p = f.bytes ++ rest) : f.Seen mem (f.placed p).past.cur := by
  refine ⟨rfl, TextField.asString_placed bytes, TextField.stdAtoi_placed bytes, ?_⟩
  have layout : f.bytes ++ rest = (f.tagText ++ [equalSign]) ++ (f.value ++ SOH :: rest) := by
    simp only [TextField.bytes, fieldBytes, List.append_assoc, List.cons_append, List.nil_append]
  rw [layout] at bytes
  have window := Bytes.drop_add_length bytes
  rw [List.length_append, List.length_singleton, ← Nat.add_assoc] at window
  have first : mem[p + f.tagText.length + 1]? = some f.char := by
    rw [← List.head?_drop, window, TextField.char]
    cases f.value <;> rfl
  simp only [FixField.asChar, WholeField.past, TextField.placed, first]

/-! ## What `init` stores -/

namespace Layout

variable {mem : Mem} {b : Nat}

theorem jumps_ (l : Layout mem b) :
    Jumps (mem.drop b) l.beginString l.bodyLength (l.msgType.bytes ++ l.rest) :=
  ⟨l.starts, l.tag8, l.tag9, l.nonzero⟩

theorem framing_eq (l : Layout mem b) {beginIt : FixFieldIterator}
    (step : FixFieldIterator.next SOH mem (l.msgType.placed l.body).past = .ok beginIt) :
    framing mem b = .ok (.message l.end_ beginIt (l.checkSum.placed l.landing).past
      (toUInt8 l.checkSum.number) l.msgType.char) := by
  have past := l.bodyLength.valEnd_placed (b + l.beginString.bytes.length)
  have inside : l.landing ≤ mem.length := by
    have bound := Bytes.add_length_le l.lands l.checkSum.bytes_ne_nil
    omega
  have target : ((l.bodyLength.placed (b + l.beginString.bytes.length)).valEnd : Int) +
      (l.bodyLength.number + 1) = l.landing := by
    have jumps := l.jumps
    omega
  have type := (TextField.seen_placed l.drop_body).asChar
  rw [l.jumps_.framing_eq, movePtr_of_le target inside, ok_bind, landed,
    wholeField_of_text l.lands, ok_bind]
  dsimp only
  rw [l.checkSum.placed_tag, if_neg (not_not.mpr l.tag10), TextField.stdAtoi_placed l.lands,
    ok_bind, past, ← Layout.body, wholeField_of_text l.drop_body, ok_bind]
  dsimp only
  rw [l.msgType.placed_tag, if_neg (not_not.mpr l.tag35), type, ok_bind, step, ok_bind,
    l.checkSum.valEnd_placed]
  rfl

/-- What `init` stores. -/
theorem init_eq (l : Layout mem b) {msg : FixMessage} (at_ : msg.begin_ = b)
    {beginIt : FixFieldIterator}
    (step : FixFieldIterator.next SOH mem (l.msgType.placed l.body).past = .ok beginIt) :
    msg.init mem = .ok
      { msg with
        end_ := some l.end_
        beginIt
        endIt := (l.checkSum.placed l.landing).past
        checksum := toUInt8 l.checkSum.number
        type := l.msgType.char
        valid := true } := by
  have inits := msg.inits mem
  rw [at_, l.framing_eq step] at inits
  generalize run : msg.init mem = result at inits
  cases inits
  rfl

end Layout

/-! ## Walks over whole fields -/

namespace FixMessage

variable {mem : Mem} {stop : FixFieldIterator} {e : Nat}

/-- What a walk over `fields` visits, from `p` on. -/
def placedAll (p : Nat) : List TextField → List FixField
  | [] => []
  | f :: fields => (f.placed p).past.cur :: placedAll (p + f.bytes.length) fields

theorem Stand.behind {p : Nat} {f last : TextField} {fields : List TextField}
    (stand : Stand mem p e (f :: (fields ++ [last]))) :
    Stand mem (p + f.bytes.length) e (fields ++ [last]) := by
  cases fields with
  | nil => exact stand.tail
  | cons g fields => exact stand.tail

theorem seen_placedAll {p : Nat} {fields : List TextField} {rest : List UInt8}
    (bytes : mem.drop p = fields.flatMap TextField.bytes ++ rest) :
    List.Forall₂ (fun f v => f.Seen mem v) fields (placedAll p fields) := by
  induction fields generalizing p with
  | nil => exact .nil
  | cons f fields ih =>
      rw [List.flatMap_cons, List.append_assoc] at bytes
      exact .cons (TextField.seen_placed bytes) (ih (Bytes.drop_add_length bytes))

/-- The cursor at the last field does not differ from the trailer's. -/
theorem Stand.stopped (stops : stop.cur.begin = some e) {p : Nat} {last : TextField}
    (stand : Stand mem p e [last]) : (last.placed p).past.differs stop = false := by
  have ends := stand.ends
  rw [List.flatMap_singleton] at ends
  simp only [FixFieldIterator.differs, begin_past_placed, stops, ends, ne_eq, not_true_eq_false,
    decide_false]

/-- In front of further fields it does. -/
theorem Stand.differs (stops : stop.cur.begin = some e) {p : Nat} {f last : TextField}
    {fields : List TextField} (stand : Stand mem p e (f :: (fields ++ [last]))) :
    (f.placed p).past.differs stop = true := by
  have ends := stand.ends
  rw [List.flatMap_cons, List.flatMap_append, List.flatMap_singleton, List.length_append,
    List.length_append] at ends
  have positive := List.length_pos_of_ne_nil last.bytes_ne_nil
  simp only [FixFieldIterator.differs, begin_past_placed, stops, ne_eq, Option.some.injEq,
    decide_eq_true_eq]
  omega

/-- A step in front of the fields finds the first of them. -/
theorem Stand.enter {p : Nat} {fields : List TextField} {last : TextField}
    (stand : Stand mem p e (fields ++ [last])) {it : FixFieldIterator}
    (at_ : it.cur.begin = some p) :
    FixFieldIterator.next SOH mem it = .ok ((fields.headD last).placed p).past := by
  cases fields with
  | nil =>
      obtain ⟨behind, bytes⟩ := stand.head
      rw [List.headD_nil, last.past_placed]
      exact FixFieldIterator.next_field _ at_ bytes last.cleanTag last.noEqual last.cleanValue
  | cons f fields =>
      obtain ⟨behind, bytes⟩ := stand.head
      rw [List.headD_cons, f.past_placed]
      exact FixFieldIterator.next_field _ at_ bytes f.cleanTag f.noEqual f.cleanValue

/-- The loop visits all fields but the last. -/
theorem walk_stand (stops : stop.cur.begin = some e) {p : Nat} {fields : List TextField}
    {last : TextField} (stand : Stand mem p e (fields ++ [last])) :
    walk mem stop (fields.length + 1) ((fields.headD last).placed p).past =
      .ok (some (placedAll p fields)) := by
  induction fields generalizing p with
  | nil =>
      rw [walk, List.headD_nil, stand.stopped stops]
      rfl
  | cons f fields ih =>
      have step := stand.behind.enter (begin_past_placed f p)
      have later := ih stand.behind
      rw [List.length_cons, walk, List.headD_cons, if_pos (stand.differs stops), step, ok_bind,
        later]
      rfl

/-- What a search for a tag comes to: the first of the fields with that tag, or the end. -/
def Finds (mem : Mem) (stop : FixFieldIterator) (fields : List TextField) (tag : Int)
    (found : FixFieldIterator) : Prop :=
  match fields.find? (·.tag = tag) with
  | some f => found.differs stop = true ∧ f.Seen mem found.cur
  | none => found.differs stop = false

theorem find_stand (stops : stop.cur.begin = some e) {p : Nat} {fields : List TextField}
    {last : TextField} (stand : Stand mem p e (fields ++ [last])) (tag : Int) :
    ∃ found, findFrom mem stop tag (fields.length + 1) ((fields.headD last).placed p).past =
      .ok (some found) ∧ Finds mem stop fields tag found := by
  induction fields generalizing p with
  | nil =>
      refine ⟨_, ?_, stand.stopped stops⟩
      rw [findFrom, List.headD_nil, stand.stopped stops]
      rfl
  | cons f fields ih =>
      have differs := stand.differs stops
      obtain ⟨behind, bytes⟩ := stand.head
      rw [List.length_cons, findFrom, List.headD_cons, if_pos differs]
      by_cases here : f.tag = tag
      · refine ⟨_, if_pos here, ?_⟩
        rw [Finds, List.find?_cons, decide_eq_true here]
        exact ⟨differs, TextField.seen_placed bytes⟩
      · obtain ⟨found, search, finds⟩ := ih stand.behind
        have step := stand.behind.enter (begin_past_placed f p)
        have other : ¬ (f.placed p).past.cur.tag = tag := here
        refine ⟨found, ?_, ?_⟩
        · rw [if_neg other, step, ok_bind, search]
        · rw [Finds, List.find?_cons, decide_eq_false here]
          exact finds

end FixMessage

/-! ## The language -/

/-- A message as the parser reads it: fields 8, 9 and 35, any number of fields, and a last one
that has a field 10 at its end. BodyLength counts from field 35 up to that field 10. -/
structure MessageText : Type where
  beginString : TextField
  bodyLength : TextField
  msgType : TextField
  fields : List TextField
  last : TextField
  before : List UInt8
  checkSum : TextField
  tag8 : beginString.tag = FixSpec.BeginString
  tag9 : bodyLength.tag = FixSpec.BodyLength
  tag35 : msgType.tag = FixSpec.MsgType
  tag10 : checkSum.tag = FixSpec.CheckSum
  ends : last.bytes = before ++ checkSum.bytes
  counted : bodyLength.number =
    (msgType.bytes ++ (fields.flatMap TextField.bytes ++ before)).length

namespace MessageText

def bytes (m : MessageText) : List UInt8 :=
  m.beginString.bytes ++ (m.bodyLength.bytes ++
    (m.msgType.bytes ++ (m.fields.flatMap TextField.bytes ++ m.last.bytes)))

/-- What a reader gets of `m` from the object behind `init`. -/
structure Read (m : MessageText) (mem : Mem) (b : Nat) (msg : FixMessage) : Prop where
  valid : msg.valid = true
  begin_ : msg.begin_ = b
  end_ : msg.end_ = some (b + m.bytes.length)
  type : msg.type = m.msgType.char
  checksum : msg.checksum = toUInt8 m.checkSum.number
  loop : ∃ visited, msg.fields mem (m.fields.length + 1) = .ok (some visited) ∧
    List.Forall₂ (fun f v => f.Seen mem v) m.fields visited
  find : ∀ tag, ∃ found, msg.find mem tag (m.fields.length + 1) = .ok (some found) ∧
    FixMessage.Finds mem msg.endIt m.fields tag found

variable {mem : Mem} {b : Nat} {rest : List UInt8}

/-- Where it stands, as a layout with whole fields up to the end of the trailer. -/
theorem exists_layout (m : MessageText) (bytes : mem.drop b = m.bytes ++ rest) :
    ∃ l : Layout mem b, l.msgType = m.msgType ∧ l.checkSum = m.checkSum ∧
      l.end_ = b + m.bytes.length ∧
      FixMessage.Stand mem (l.body + l.msgType.bytes.length) l.end_ (m.fields ++ [m.last]) := by
  have starts : mem.drop b = m.beginString.bytes ++ (m.bodyLength.bytes ++ (m.msgType.bytes ++
      (m.fields.flatMap TextField.bytes ++ m.last.bytes ++ rest))) := by
    rw [bytes]
    simp only [MessageText.bytes, List.append_assoc]
  have behind := Bytes.drop_add_length (Bytes.drop_add_length (Bytes.drop_add_length starts))
  have trailer := behind
  rw [m.ends, List.append_assoc, List.append_assoc, ← List.append_assoc] at trailer
  have lands := Bytes.drop_add_length trailer
  have total : b + m.bytes.length = b + m.beginString.bytes.length + m.bodyLength.bytes.length +
      m.msgType.bytes.length + (m.fields.flatMap TextField.bytes ++ m.before).length +
        m.checkSum.bytes.length := by
    have ends := congrArg List.length m.ends
    simp only [MessageText.bytes, List.length_append] at ends ⊢
    omega
  let l : Layout mem b :=
    { beginString := m.beginString, bodyLength := m.bodyLength, msgType := m.msgType
      rest := m.fields.flatMap TextField.bytes ++ m.last.bytes ++ rest
      landing := b + m.beginString.bytes.length + m.bodyLength.bytes.length +
        m.msgType.bytes.length + (m.fields.flatMap TextField.bytes ++ m.before).length
      checkSum := m.checkSum, behind := rest
      tag8 := m.tag8
      tag9 := m.tag9
      nonzero := by
        have positive := List.length_pos_of_ne_nil m.msgType.bytes_ne_nil
        rw [m.counted, List.length_append]
        omega
      tag10 := m.tag10
      tag35 := m.tag35
      starts
      jumps := by
        have counted := m.counted
        simp only [List.length_append] at counted ⊢
        omega
      lands }
  refine ⟨l, rfl, rfl, total.symm, by simp, ⟨rest, ?_⟩, ?_⟩
  · rw [List.flatMap_append, List.flatMap_singleton]
    exact behind
  · rw [List.flatMap_append, List.flatMap_singleton]
    have ends := congrArg List.length m.ends
    simp only [Layout.body, Layout.end_, l, List.length_append] at ends ⊢
    omega

/-- What is read of a message. -/
theorem exists_read (m : MessageText) (garbage : StackGarbage)
    (bytes : mem.drop b = m.bytes ++ rest) :
    ∃ msg, (FixMessage.new b garbage).init mem = .ok msg ∧ m.Read mem b msg := by
  obtain ⟨l, type, checkSum, ends, stand⟩ := m.exists_layout bytes
  have stops : (l.checkSum.placed l.landing).past.cur.begin = some l.end_ :=
    FixMessage.begin_past_placed l.checkSum l.landing
  -- The cursor behind field 35 stands in front of a whole field, so `init` gets to its end.
  have first : FixFieldIterator.next SOH mem (l.msgType.placed l.body).past =
      .ok ((m.fields.headD m.last).placed (l.body + l.msgType.bytes.length)).past :=
    stand.enter (FixMessage.begin_past_placed l.msgType l.body)
  refine ⟨_, l.init_eq rfl first, rfl, rfl, congrArg some ends, congrArg TextField.char type,
    congrArg (fun f => toUInt8 (TextField.number f)) checkSum, ?_, fun tag => ?_⟩
  · obtain ⟨behind, at_⟩ := stand.bytes
    rw [List.flatMap_append, List.append_assoc] at at_
    exact ⟨_, FixMessage.walk_stand stops stand, FixMessage.seen_placedAll at_⟩
  · exact FixMessage.find_stand stops stand tag

end MessageText

/-! ## Nothing else is read -/

/-- Whole fields end with a delimiter. -/
theorem getLast?_fields (f : TextField) (fields : List TextField) :
    (f.bytes ++ fields.flatMap TextField.bytes).getLast? = some SOH := by
  induction fields generalizing f with
  | nil =>
      rw [List.flatMap_nil, List.append_nil, TextField.bytes, fieldBytes, List.append_assoc,
        List.cons_append, ← List.cons_append, ← List.append_assoc, List.getLast?_append]
      rfl
  | cons g fields ih =>
      rw [List.flatMap_cons, List.getLast?_append, ih g]
      rfl

/-- A trailer that ends where the last of some fields ends starts in that field. -/
theorem Layout.le_landing {mem : Mem} {b q : Nat} (l : Layout mem b) {fields : List TextField}
    {last : TextField} {behind : List UInt8}
    (body : mem.drop l.body =
      l.msgType.bytes ++ (fields.flatMap TextField.bytes ++ (last.bytes ++ behind)))
    (start : l.body + l.msgType.bytes.length + (fields.flatMap TextField.bytes).length = q)
    (end_ : l.landing + l.checkSum.bytes.length = q + last.bytes.length) : q ≤ l.landing := by
  have positive := List.length_pos_of_ne_nil last.bytes_ne_nil
  have positive35 := List.length_pos_of_ne_nil l.msgType.bytes_ne_nil
  by_contra earlier
  -- In front of the last field stands a delimiter, and the trailer has none but its last byte.
  have delimiter : mem[q - 1]? = some SOH := by
    have last_ := getLast?_fields l.msgType fields
    have inside : q - 1 - l.body <
        (l.msgType.bytes ++ fields.flatMap TextField.bytes).length := by
      rw [List.length_append]
      omega
    have same : l.body + (q - 1 - l.body) = q - 1 := by omega
    rw [← same, ← List.getElem?_drop, body, ← List.append_assoc,
      List.getElem?_append_left inside, ← last_, List.getLast?_eq_getElem?]
    congr 1
    rw [List.length_append]
    omega
  have inTrailer : (l.checkSum.bytes ++ l.behind)[q - 1 - l.landing]? = some SOH := by
    rw [← l.lands, List.getElem?_drop, ← delimiter]
    congr 1
    omega
  have short := TextField.length_le_of_delimiter inTrailer
  omega

/-- Where the trailer ends with the last of some fields, a message stands. -/
theorem Layout.exists_text {mem : Mem} {b : Nat} (l : Layout mem b) {fields : List TextField}
    (stand : FixMessage.Stand mem (l.body + l.msgType.bytes.length) l.end_ fields) :
    ∃ (m : MessageText) (rest : List UInt8), mem.drop b = m.bytes ++ rest := by
  obtain ⟨fields, last, rfl⟩ : ∃ earlier last, fields = earlier ++ [last] :=
    ⟨_, _, (List.dropLast_append_getLast stand.some_).symm⟩
  obtain ⟨-, ⟨behind, bytes⟩, ends⟩ := stand
  rw [List.flatMap_append, List.flatMap_singleton] at bytes ends
  rw [List.length_append] at ends
  rw [List.append_assoc] at bytes
  have body : mem.drop l.body =
      l.msgType.bytes ++ (fields.flatMap TextField.bytes ++ (last.bytes ++ behind)) := by
    rw [← bytes, Bytes.drop_add_length l.drop_body]
    exact l.drop_body
  have atLast := Bytes.drop_add_length bytes
  generalize start : l.body + l.msgType.bytes.length + (fields.flatMap TextField.bytes).length = q
    at atLast
  have end_ : l.landing + l.checkSum.bytes.length = q + last.bytes.length := by
    rw [← start, Nat.add_assoc, ends]
    rfl
  have landing : q ≤ l.landing := l.le_landing body start end_
  have split : last.bytes.drop (l.landing - q) = l.checkSum.bytes := by
    have lands := l.lands
    rw [← Nat.add_sub_cancel' landing, ← List.drop_drop, atLast,
      List.drop_append_of_le_length (by omega)] at lands
    exact List.append_inj_left lands (by rw [List.length_drop]; omega)
  have counted : l.bodyLength.number = (l.msgType.bytes ++ (fields.flatMap TextField.bytes ++
      last.bytes.take (l.landing - q))).length := by
    have jumps := l.jumps
    rw [← Layout.body] at jumps
    simp only [List.length_append, List.length_take]
    omega
  let m : MessageText :=
    { beginString := l.beginString, bodyLength := l.bodyLength, msgType := l.msgType, fields, last
      before := last.bytes.take (l.landing - q)
      checkSum := l.checkSum
      tag8 := l.tag8
      tag9 := l.tag9
      tag35 := l.tag35
      tag10 := l.tag10
      ends := by rw [← split, List.take_append_drop]
      counted }
  refine ⟨m, behind, ?_⟩
  have rest : l.rest = fields.flatMap TextField.bytes ++ (last.bytes ++ behind) :=
    List.append_cancel_left (l.drop_body.symm.trans body)
  rw [l.starts, rest]
  simp only [MessageText.bytes, m, List.append_assoc]

/-- **The language of the parser.** `init` accepts and the range-based `for` over the object ends
exactly where a message of `MessageText` stands; and wherever one stands, the type, the checksum,
the end, the loop over the fields and `find` for every tag give what that text has. -/
theorem FixMessage.readsText_iff (mem : Mem) (b : Nat) (garbage : StackGarbage) :
    ((∃ msg passes visited, (new b garbage).init mem = .ok msg ∧ msg.valid = true ∧
        msg.fields mem passes = .ok (some visited)) ↔
      ∃ (m : MessageText) (rest : List UInt8), mem.drop b = m.bytes ++ rest) ∧
    ∀ (m : MessageText) (rest : List UInt8), mem.drop b = m.bytes ++ rest →
      ∃ msg, (new b garbage).init mem = .ok msg ∧ m.Read mem b msg := by
  refine ⟨⟨?_, ?_⟩, fun m rest bytes => m.exists_read garbage bytes⟩
  · rintro ⟨msg, passes, visited, run, valid, walked⟩
    obtain ⟨l, -, -, endIt, step⟩ := exists_layout run valid
    have stops : msg.endIt.cur.begin = some l.end_ := by
      rw [endIt]
      exact begin_past_placed l.checkSum l.landing
    obtain ⟨fields, stand⟩ :=
      fields_of_walk stops (begin_past_placed l.msgType l.body) step walked
    exact l.exists_text stand
  · rintro ⟨m, rest, bytes⟩
    obtain ⟨msg, run, read⟩ := m.exists_read garbage bytes
    obtain ⟨visited, walked, -⟩ := read.loop
    exact ⟨msg, _, visited, run, read.valid, walked⟩

end OpenFix

import OpenFix.FixParse.Layout

/-!
# Iteration over an accepted message

The walk over a message ends where its cursor meets the trailer's, which came there by the jump
over BodyLength. `init` does not look at the bytes between.

* `fields_of_walk`: a walk that ends has gone through whole fields up to there.
* `walk_of_fields`: and through whole fields a walk ends.
* `FixMessage.iterates_iff`: when iteration over an accepted message is safe.
-/

namespace OpenFix

namespace FixMessage

variable {mem : Mem} {stop : FixFieldIterator} {e : Nat}

/-- `fields` stand from `p` on, and end at `e`. -/
structure Stand (mem : Mem) (p e : Nat) (fields : List TextField) : Prop where
  some_ : fields ≠ []
  bytes : ∃ behind, mem.drop p = fields.flatMap TextField.bytes ++ behind
  ends : p + (fields.flatMap TextField.bytes).length = e

theorem Stand.single {p : Nat} {f : TextField} {rest : List UInt8}
    (bytes : mem.drop p = f.bytes ++ rest) : Stand mem p (p + f.bytes.length) [f] := by
  refine ⟨List.cons_ne_nil _ _, ⟨rest, ?_⟩, ?_⟩
  · rw [List.flatMap_singleton, bytes]
  · rw [List.flatMap_singleton]

theorem Stand.cons {p : Nat} {f : TextField} {rest : List UInt8} {fields : List TextField}
    (bytes : mem.drop p = f.bytes ++ rest) (stand : Stand mem (p + f.bytes.length) e fields) :
    Stand mem p e (f :: fields) := by
  obtain ⟨-, ⟨behind, later⟩, ends⟩ := stand
  rw [Bytes.drop_add_length bytes] at later
  refine ⟨List.cons_ne_nil _ _, ⟨behind, ?_⟩, ?_⟩
  · rw [List.flatMap_cons, bytes, later, List.append_assoc]
  · rw [List.flatMap_cons, List.length_append]
    omega

theorem Stand.head {p : Nat} {f : TextField} {fields : List TextField}
    (stand : Stand mem p e (f :: fields)) : ∃ rest, mem.drop p = f.bytes ++ rest := by
  obtain ⟨-, ⟨behind, bytes⟩, -⟩ := stand
  rw [List.flatMap_cons, List.append_assoc] at bytes
  exact ⟨_, bytes⟩

theorem Stand.tail {p : Nat} {f g : TextField} {fields : List TextField}
    (stand : Stand mem p e (f :: g :: fields)) :
    Stand mem (p + f.bytes.length) e (g :: fields) := by
  obtain ⟨-, ⟨behind, bytes⟩, ends⟩ := stand
  rw [List.flatMap_cons, List.append_assoc] at bytes
  rw [List.flatMap_cons, List.length_append] at ends
  exact ⟨List.cons_ne_nil _ _, ⟨behind, Bytes.drop_add_length bytes⟩, by omega⟩

/-! ## Walks that end -/

theorem begin_past_placed (f : TextField) (p : Nat) :
    (f.placed p).past.cur.begin = some (p + f.bytes.length) :=
  congrArg some (f.valEnd_placed p)

/-- A walk that ends has gone through whole fields up to the trailer's cursor: from a null
cursor there is no further step. -/
theorem fields_of_walk (stops : stop.cur.begin = some e) {passes p : Nat}
    {before it : FixFieldIterator} {visited : List FixField} (at_ : before.cur.begin = some p)
    (step : FixFieldIterator.next SOH mem before = .ok it)
    (walked : walk mem stop passes it = .ok (some visited)) : ∃ fields, Stand mem p e fields := by
  induction passes generalizing p before it visited with
  | zero => cases walked
  | succ passes ih =>
      unfold walk at walked
      rcases FixFieldIterator.next_wholeField mem before at_ with
        ⟨fault, -, run⟩ | ⟨value, -, -, run⟩ | ⟨field, found, -, run⟩
      · cases step.symm.trans run
      · cases Except.ok.inj (step.symm.trans run)
        have differs : (brokenField before.cur.tag value).differs stop = true := by
          simp only [FixFieldIterator.differs, brokenField, stops]
          rfl
        rw [if_pos differs] at walked
        cases walked
      · cases Except.ok.inj (step.symm.trans run)
        obtain ⟨f, rest, bytes, rfl⟩ := wholeField_iff.mp found
        split at walked
        case isTrue =>
          obtain ⟨later, next, walked⟩ := of_bind_ok walked
          obtain ⟨fields, walked, mapped⟩ := of_bind_ok walked
          cases fields with
          | none => cases mapped
          | some visited =>
              obtain ⟨fields, stand⟩ := ih (begin_past_placed f p) next walked
              exact ⟨f :: fields, stand.cons bytes⟩
        case isFalse same =>
          have ends : p + f.bytes.length = e := by
            simp only [FixFieldIterator.differs, begin_past_placed, stops, ne_eq, decide_not,
              Bool.not_eq_true, Bool.not_eq_false', decide_eq_true_eq, Option.some.injEq] at same
            exact same
          rw [← ends]
          exact ⟨[f], .single bytes⟩

/-- The value of a field that stands whole between `lo` and `hi`. -/
def Whole (mem : Mem) (lo hi : Nat) (visited : FixField) : Prop :=
  ∃ (f : TextField) (i : Nat) (rest : List UInt8), mem.drop i = f.bytes ++ rest ∧
    visited = (f.placed i).past.cur ∧ lo ≤ i ∧ i + f.bytes.length ≤ hi

/-- Through whole fields a walk ends. -/
theorem walk_of_fields (stops : stop.cur.begin = some e) {p lo : Nat} (low : lo ≤ p)
    {f : TextField} {fields : List TextField} (stand : Stand mem p e (f :: fields)) :
    ∃ passes visited, walk mem stop passes (f.placed p).past = .ok (some visited) ∧
      ∀ v ∈ visited, Whole mem lo e v := by
  induction fields generalizing p f with
  | nil =>
      have same : (f.placed p).past.differs stop = false := by
        have ends := stand.ends
        rw [List.flatMap_singleton] at ends
        simp only [FixFieldIterator.differs, begin_past_placed, stops, ends, ne_eq,
          not_true_eq_false, decide_false]
      refine ⟨1, [], ?_, List.forall_mem_nil _⟩
      rw [walk, same]
      rfl
  | cons g fields ih =>
      obtain ⟨rest, bytes⟩ := stand.head
      obtain ⟨behind, later⟩ := stand.tail.head
      obtain ⟨passes, visited, walked, whole⟩ := ih (by omega) stand.tail
      have ends := stand.ends
      rw [List.flatMap_cons, List.flatMap_cons, List.length_append, List.length_append] at ends
      have positive := List.length_pos_of_ne_nil g.bytes_ne_nil
      have differs : (f.placed p).past.differs stop = true := by
        simp only [FixFieldIterator.differs, begin_past_placed, stops, ne_eq, Option.some.injEq,
          decide_eq_true_eq]
        omega
      have step : FixFieldIterator.next SOH mem (f.placed p).past =
          .ok (g.placed (p + f.bytes.length)).past := by
        rw [g.past_placed]
        exact FixFieldIterator.next_field _ (begin_past_placed f p) later g.cleanTag g.noEqual
          g.cleanValue
      refine ⟨passes + 1, (f.placed p).past.cur :: visited, ?_, ?_⟩
      · rw [walk, if_pos differs, step, ok_bind, walked]
        rfl
      · intro v member
        rcases List.mem_cons.mp member with rfl | later
        · exact ⟨f, p, rest, bytes, rfl, low, by omega⟩
        · exact whole v later

/-- Where the walk ends, every search ends, at a field of the walk or at its end. -/
theorem find_of_walk {passes : Nat} {it : FixFieldIterator} {visited : List FixField}
    (walked : walk mem stop passes it = .ok (some visited)) (tag : Int) :
    ∃ found, findFrom mem stop tag passes it = .ok (some found) ∧
      (found.differs stop = true → found.cur.tag = tag ∧ found.cur ∈ visited) := by
  induction passes generalizing it visited with
  | zero => cases walked
  | succ passes ih =>
      unfold walk at walked
      unfold findFrom
      split at walked
      case isTrue differs =>
        obtain ⟨later, next, walked⟩ := of_bind_ok walked
        obtain ⟨fields, rest, mapped⟩ := of_bind_ok walked
        cases fields with
        | none => cases mapped
        | some fields =>
            cases mapped
            rw [if_pos differs]
            by_cases here : it.cur.tag = tag
            · rw [if_pos here]
              exact ⟨it, rfl, fun _ => ⟨here, List.mem_cons_self⟩⟩
            · obtain ⟨found, search, behind⟩ := ih rest
              rw [if_neg here, next, ok_bind]
              exact ⟨found, search, fun differs =>
                ⟨(behind differs).1, List.mem_cons_of_mem _ (behind differs).2⟩⟩
      case isFalse same =>
        rw [if_neg same]
        exact ⟨it, rfl, fun differs => (same differs).elim⟩

end FixMessage

/-! ## Iteration over an accepted message -/

/-- Behind field 35 stand whole fields, one or more, up to the end of the trailer that the jump
leads to. -/
def Layout.FieldsUpToEnd {mem : Mem} {b : Nat} (l : Layout mem b) : Prop :=
  ∃ fields, FixMessage.Stand mem (l.body + l.msgType.bytes.length) l.end_ fields

/-- A field that lies in the message. -/
def FixMessage.Within (mem : Mem) (msg : FixMessage) (visited : FixField) : Prop :=
  ∃ end_, msg.end_ = some end_ ∧ Whole mem msg.begin_ end_ visited

/-- The range-based `for` over a message and `find` for every tag end, without a step from a null
pointer, and the fields they come to lie in the message. -/
structure FixMessage.Iterates (mem : Mem) (msg : FixMessage) : Prop where
  loop : ∃ passes visited, msg.fields mem passes = .ok (some visited) ∧
    ∀ v ∈ visited, msg.Within mem v
  find : ∀ tag, ∃ passes found, msg.find mem tag passes = .ok (some found) ∧
    (found.differs msg.endIt = true → found.cur.tag = tag ∧ msg.Within mem found.cur)

/-- Two layouts at one place are one. -/
theorem Layout.unique {mem : Mem} {b : Nat} (l l' : Layout mem b) :
    l.body = l'.body ∧ l.msgType = l'.msgType ∧ l.end_ = l'.end_ := by
  obtain ⟨same8, behind8⟩ := TextField.unique (l.starts.symm.trans l'.starts)
  obtain ⟨same9, behind9⟩ := TextField.unique behind8
  obtain ⟨same35, -⟩ := TextField.unique behind9
  have landing : l.landing = l'.landing := by
    have jumps := l.jumps
    have jumps' := l'.jumps
    rw [same8, same9] at jumps
    omega
  have lands := l.lands
  rw [landing] at lands
  obtain ⟨same10, -⟩ := TextField.unique (lands.symm.trans l'.lands)
  refine ⟨?_, same35, ?_⟩
  · rw [body, body, same8, same9]
  · rw [end_, end_, landing, same10]

/-- **Safe iteration.** It is safe to iterate over an accepted message exactly when whole fields
stand from behind field 35 up to the end of its trailer. -/
theorem FixMessage.iterates_iff (mem : Mem) (b : Nat) (garbage : StackGarbage) (msg : FixMessage)
    (run : (new b garbage).init mem = .ok msg) (valid : msg.valid = true) :
    Iterates mem msg ↔ ∃ l : Layout mem b, l.FieldsUpToEnd := by
  obtain ⟨l, rfl, ends, endIt, step⟩ := exists_layout run valid
  have stops : msg.endIt.cur.begin = some l.end_ := by
    rw [endIt]
    exact begin_past_placed l.checkSum l.landing
  have start := begin_past_placed l.msgType l.body
  constructor
  · intro iterates
    obtain ⟨passes, visited, walked, -⟩ := iterates.loop
    exact ⟨l, fields_of_walk stops start step walked⟩
  · rintro ⟨l', fields, stand⟩
    obtain ⟨body, msgType, end_⟩ := l.unique l'
    rw [← body, ← msgType, ← end_] at stand
    obtain ⟨f, fields, rfl⟩ := List.exists_cons_of_ne_nil stand.some_
    obtain ⟨rest, bytes⟩ := stand.head
    have first : FixFieldIterator.next SOH mem (l.msgType.placed l.body).past =
        .ok (f.placed (l.body + l.msgType.bytes.length)).past := by
      rw [f.past_placed]
      exact FixFieldIterator.next_field _ start bytes f.cleanTag f.noEqual f.cleanValue
    have beginIt : msg.beginIt = (f.placed (l.body + l.msgType.bytes.length)).past :=
      Except.ok.inj (step.symm.trans first)
    have low : msg.begin_ ≤ l.body + l.msgType.bytes.length := by
      unfold Layout.body
      omega
    obtain ⟨passes, visited, walked, whole⟩ := walk_of_fields stops low stand
    rw [← beginIt] at walked
    have within : ∀ v ∈ visited, msg.Within mem v :=
      fun v member => ⟨l.end_, ends, whole v member⟩
    refine ⟨⟨passes, visited, walked, within⟩, fun tag => ?_⟩
    obtain ⟨found, search, behind⟩ := find_of_walk walked tag
    exact ⟨passes, found, search, fun differs =>
      ⟨(behind differs).1, within _ (behind differs).2⟩⟩

/-- The layout of `8=F|9=9|35=0|1=a|10=000|`. -/
def Layout.oneField : Layout [56, 61, 70, 1, 57, 61, 57, 1, 51, 53, 61, 48, 1, 49, 61, 97, 1,
    49, 48, 61, 48, 48, 48, 1, 0] 0 where
  beginString := .header
  bodyLength := .nine
  msgType := ⟨[51, 53], [48], by decide +kernel, by decide, by decide +kernel⟩
  rest := [49, 61, 97, 1, 49, 48, 61, 48, 48, 48, 1, 0]
  landing := 17
  checkSum := ⟨[49, 48], [48, 48, 48], by decide +kernel, by decide, by decide +kernel⟩
  behind := [0]
  tag8 := by decide
  tag9 := by decide
  nonzero := by decide
  tag10 := by decide
  tag35 := by decide
  starts := rfl
  jumps := by decide
  lands := rfl

theorem FixMessage.iterates_iff_oneField : ∃ (mem : Mem) (msg : FixMessage),
    msg.valid = true ∧ msg.beginIt.differs msg.endIt = true ∧ Iterates mem msg := by
  let msg : FixMessage :=
    ⟨0, some 24, ⟨⟨1, some 15, some 16, some 17⟩⟩, ⟨⟨10, some 20, some 23, some 24⟩⟩, 0, 48, true⟩
  have fields : Layout.oneField.FieldsUpToEnd :=
    ⟨[⟨[49], [97], by decide +kernel, by decide, by decide +kernel⟩, Layout.oneField.checkSum],
      List.cons_ne_nil _ _, ⟨[0], rfl⟩, rfl⟩
  exact ⟨_, msg, rfl, rfl,
    (iterates_iff _ 0 ⟨0, 0⟩ msg (by decide +kernel) rfl).mpr ⟨_, fields⟩⟩

/-- `8=F|9=9|35=0|abc|10=000|`: the walk stops at a null cursor in front of the trailer. -/
theorem FixMessage.not_iterates_noEqual :
    ¬ ∀ (mem : Mem) (b : Nat) (garbage : StackGarbage) (msg : FixMessage),
      (new b garbage).init mem = .ok msg → msg.valid = true → Iterates mem msg := by
  intro law
  let mem : Mem := [56, 61, 70, 1, 57, 61, 57, 1, 51, 53, 61, 48, 1, 97, 98, 99, 1,
    49, 48, 61, 48, 48, 48, 1, 0]
  let msg : FixMessage :=
    ⟨0, some 24, ⟨⟨35, none, some 16, none⟩⟩, ⟨⟨10, some 20, some 23, some 24⟩⟩, 0, 48, true⟩
  have run : (new 0 ⟨0, 0⟩).init mem = .ok msg := by decide +kernel
  obtain ⟨passes, visited, walked, -⟩ := (law mem 0 ⟨0, 0⟩ msg run rfl).loop
  have step : FixFieldIterator.next SOH mem ⟨⟨35, some 11, some 12, some 13⟩⟩ =
      .ok msg.beginIt := by
    decide +kernel
  obtain ⟨fields, stand⟩ := fields_of_walk rfl rfl step walked
  obtain ⟨f, fields, rfl⟩ := List.exists_cons_of_ne_nil stand.some_
  obtain ⟨rest, bytes⟩ := stand.head
  have whole := wholeField_iff.mpr ⟨f, rest, bytes, rfl⟩
  have none : wholeField mem (some 13) = .ok none := by decide +kernel
  cases none.symm.trans whole

end OpenFix

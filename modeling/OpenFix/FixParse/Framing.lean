import OpenFix.FixParse.Message

/-!
# What stands at a position

`framing mem b` reads the bytes from `b` on with no message object at hand: the field 8, the
field 9 and the jump it makes, the trailer, the field 35. `init_framing` compares `init` with
it: on every object `init` accepts exactly what is framed there, and otherwise leaves the
marks of earlier calls as they are.

* `agree_iff`: when two objects with one `begin_` come out of `init` alike.
-/

namespace OpenFix

/-! ## Whole fields -/

/-- A field that ends before a NUL. -/
structure WholeField : Type where
  tag : Int
  valBegin : Nat
  valEnd : Nat
  deriving DecidableEq, Repr

/-- The cursor behind a whole field. -/
def WholeField.past (field : WholeField) : FixFieldIterator :=
  ⟨⟨field.tag, some field.valBegin, some field.valEnd, some (field.valEnd + 1)⟩⟩

@[simp] theorem WholeField.past_tag (field : WholeField) : field.past.cur.tag = field.tag := rfl

@[simp] theorem WholeField.past_valEnd (field : WholeField) :
    field.past.cur.valEnd = some field.valEnd := rfl

@[simp] theorem WholeField.past_asInt (mem : Mem) (field : WholeField) :
    field.past.cur.asInt mem = stdAtoi mem (some field.valBegin) := rfl

/-- The whole field at `b`, if there is one. -/
def wholeField (mem : Mem) (b : Ptr) : Except Fault (Option WholeField) :=
  match b with
  | none => .error .nullPointer
  | some b =>
      match FixFieldIterator.scan SOH (mem.drop b) b none with
      | .error fault => .error fault
      | .ok (some valBegin, some valEnd) =>
          match Details.atoi mem (some b) (some (valBegin - 1)) 10 with
          | .error fault => .error fault
          | .ok tag => .ok (some ⟨tag, valBegin, valEnd⟩)
      | .ok _ => .ok none

/-- The cursor that found no whole field: its tag is what it was. -/
def brokenField (tag : Int) (value : Ptr × Ptr) : FixFieldIterator :=
  ⟨⟨tag, value.1, value.2, none⟩⟩

@[simp] theorem brokenField_tag (tag : Int) (value : Ptr × Ptr) :
    (brokenField tag value).cur.tag = tag := rfl

/-- A value that is not whole: one of its ends is null, the other one inside the allocation. -/
def Broken (mem : Mem) (value : Ptr × Ptr) : Prop :=
  value.2 = none ∨ value.1 = none ∧ ∃ q, value.2 = some q ∧ q + 1 ≤ mem.length

/-- Where a scan found a delimiter, the allocation goes on. -/
theorem FixFieldIterator.scan_inside {mem : Mem} {b q : Nat} {first : Ptr}
    (scanned : scan SOH (mem.drop b) b none = .ok (first, some q)) : q + 1 ≤ mem.length := by
  obtain ⟨⟨k, at_, found⟩, -⟩ := (scan_range scanned).2 q rfl
  have below := (List.getElem?_eq_some_iff.mp found).1
  rw [List.length_drop] at below
  omega

/-- A step of the cursor, apart from what the cursor held before. -/
theorem FixFieldIterator.next_wholeField (mem : Mem) (it : FixFieldIterator) {b : Nat}
    (at_ : it.cur.begin = some b) :
    (∃ fault, wholeField mem (some b) = .error fault ∧ next SOH mem it = .error fault) ∨
    (∃ value, wholeField mem (some b) = .ok none ∧ Broken mem value ∧
      next SOH mem it = .ok (brokenField it.cur.tag value)) ∨
    ∃ field, wholeField mem (some b) = .ok (some field) ∧ field.valEnd + 1 ≤ mem.length ∧
      next SOH mem it = .ok field.past := by
  unfold next wholeField
  simp only [at_]
  cases scanned : scan SOH (mem.drop b) b none with
  | error fault => exact .inl ⟨fault, rfl, rfl⟩
  | ok value =>
      rcases value with ⟨_ | valBegin, _ | valEnd⟩
      · exact .inr (.inl ⟨(none, none), rfl, .inl rfl, rfl⟩)
      · exact .inr (.inl ⟨(none, some valEnd), rfl,
          .inr ⟨rfl, valEnd, rfl, scan_inside scanned⟩, rfl⟩)
      · exact .inr (.inl ⟨(some valBegin, none), rfl, .inl rfl, rfl⟩)
      · cases read : Details.atoi mem (some b) (some (valBegin - 1)) 10 with
        | error fault => exact .inl ⟨fault, by simp only [read], by simp only [read]⟩
        | ok tag =>
            exact .inr (.inr ⟨⟨tag, valBegin, valEnd⟩, by simp only [read],
              scan_inside scanned, by simp only [read]; rfl⟩)

/-! ## Faults that are no null pointers -/

theorem scan_fault {delim : UInt8} {cs : List UInt8} {i : Nat} {valBegin : Ptr} {fault : Fault}
    (scanned : FixFieldIterator.scan delim cs i valBegin = .error fault) :
    fault ≠ .nullPointer := by
  induction cs generalizing i valBegin with
  | nil =>
      cases scanned
      exact nofun
  | cons c cs ih =>
      unfold FixFieldIterator.scan at scanned
      split at scanned
      case isTrue => cases scanned
      case isFalse =>
        split at scanned
        case isTrue => exact ih scanned
        case isFalse =>
          split at scanned
          case isTrue => cases scanned
          case isFalse => exact ih scanned

theorem atoi_fault {mem : Mem} {begin end_ : Ptr} {base : Int} {fault : Fault}
    (read : Details.atoi mem begin end_ base = .error fault) : fault ≠ .nullPointer := by
  unfold Details.atoi at read
  split at read
  · split at read
    · cases read
    · cases read
      exact nofun
  · cases read

theorem wholeField_fault {mem : Mem} {b : Nat} {fault : Fault}
    (found : wholeField mem (some b) = .error fault) : fault ≠ .nullPointer := by
  unfold wholeField at found
  simp only at found
  split at found
  · rename_i scanned
    cases found
    exact scan_fault scanned
  · split at found
    · rename_i read
      cases found
      exact atoi_fault read
    · cases found
  · cases found

theorem strtolDigits_overrun {cs : List UInt8} {acc : Nat} {fault : Fault}
    (read : strtolDigits cs acc = .error fault) : fault = .overrun := by
  induction cs generalizing acc with
  | nil =>
      cases read
      rfl
  | cons c cs ih =>
      unfold strtolDigits at read
      split at read
      · exact ih read
      · cases read

/-- The end of the allocation is all that `strtol` can run into. -/
theorem strtol_overrun {bytes : List UInt8} {fault : Fault}
    (read : strtol bytes = .error fault) : fault = .overrun := by
  unfold strtol at read
  simp only at read
  split at read
  · rename_i digits
    cases read
    exact strtolDigits_overrun digits
  · cases read

theorem stdAtoi_fault {mem : Mem} {p : Nat} {fault : Fault}
    (read : stdAtoi mem (some p) = .error fault) : fault ≠ .nullPointer := by
  unfold stdAtoi at read
  simp only at read
  cases number : strtol (mem.drop p) with
  | ok n =>
      rw [number] at read
      cases read
  | error fault' =>
      rw [number] at read
      cases read
      rw [strtol_overrun number]
      exact nofun

theorem movePtr_fault {mem : Mem} {p : Nat} {k : Int} {fault : Fault}
    (moved : movePtr mem (some p) k = .error fault) : fault ≠ .nullPointer := by
  unfold movePtr at moved
  simp only at moved
  split at moved
  · cases moved
    exact nofun
  · split at moved
    · cases moved
      exact nofun
    · cases moved

theorem asChar_fault {mem : Mem} {field : WholeField} {fault : Fault}
    (read : field.past.cur.asChar mem = .error fault) : fault ≠ .nullPointer := by
  simp only [FixField.asChar, WholeField.past] at read
  split at read
  · cases read
    exact nofun
  · cases read

/-! ## Framing -/

/-- What stands at a position: a message, with all that `init` stores for it; no whole field;
a field 9 that leads to no whole field; or something else that is no message. -/
inductive Framing : Type
  | message (end_ : Nat) (beginIt endIt : FixFieldIterator) (checksum type : UInt8)
  | noField
  | noTrailer
  | malformed
  deriving DecidableEq, Repr

/-- The fields 8, 9, 10 and 35 from `b` on. -/
def framing (mem : Mem) (b : Nat) : Except Fault Framing := do
  match ← wholeField mem (some b) with
  | none => return .noField
  | some first =>
      if first.tag ≠ FixSpec.BeginString then
        return .malformed
      match ← wholeField mem (some (first.valEnd + 1)) with
      | none => return .malformed
      | some length =>
          if length.tag ≠ FixSpec.BodyLength then
            return .malformed
          let bLen ← stdAtoi mem (some length.valBegin)
          if bLen = 0 then
            return .malformed
          let landing ← movePtr mem (some length.valEnd) (bLen + 1)
          match ← wholeField mem landing with
          | none => return .noTrailer
          | some trailer =>
              if trailer.tag ≠ FixSpec.CheckSum then
                return .malformed
              let checksum ← stdAtoi mem (some trailer.valBegin)
              match ← wholeField mem (some (length.valEnd + 1)) with
              | none => return .malformed
              | some type =>
                  if type.tag ≠ FixSpec.MsgType then
                    return .malformed
                  let first ← type.past.cur.asChar mem
                  let beginIt ← FixFieldIterator.next SOH mem type.past
                  return .message (trailer.valEnd + 1) beginIt trailer.past (toUInt8 checksum) first

/-- What `init` comes to on an object, by what stands at its `begin_`. -/
inductive FixMessage.Inits (msg : FixMessage) :
    Except Fault Framing → Except Fault FixMessage → Prop
  | fault {fault : Fault} : fault ≠ .nullPointer → Inits msg (.error fault) (.error fault)
  | message (end_ : Nat) (beginIt endIt : FixFieldIterator) (checksum type : UInt8) :
    Inits msg (.ok (.message end_ beginIt endIt checksum type))
      (.ok { msg with end_ := some end_, beginIt, endIt, checksum, type, valid := true })
  /-- The tag tested is that of an earlier call, and the cursor is null. -/
  | staleField : msg.beginIt.cur.tag = FixSpec.BeginString →
    Inits msg (.ok .noField) (.error .nullPointer)
  | noField {msg' : FixMessage} : msg.beginIt.cur.tag ≠ FixSpec.BeginString →
    msg'.valid = msg.valid → msg'.type = msg.type → Inits msg (.ok .noField) (.ok msg')
  | staleTrailer : msg.endIt.cur.tag = FixSpec.CheckSum →
    Inits msg (.ok .noTrailer) (.error .nullPointer)
  | noTrailer {msg' : FixMessage} : msg.endIt.cur.tag ≠ FixSpec.CheckSum →
    msg'.valid = msg.valid → msg'.type = msg.type → Inits msg (.ok .noTrailer) (.ok msg')
  | malformed {msg' : FixMessage} : msg'.valid = msg.valid → msg'.type = msg.type →
    Inits msg (.ok .malformed) (.ok msg')

/-- A value that is not whole faults where `init` reads the trailer. -/
theorem Broken.trailer_fault {α : Type} {mem : Mem} {value : Ptr × Ptr} (broken : Broken mem value)
    {tag : Int} (rest : Ptr → Int → Except Fault α) :
    (movePtr mem (brokenField tag value).cur.valEnd 1 >>= fun end_ =>
      (brokenField tag value).cur.asInt mem >>= rest end_) = .error .nullPointer := by
  obtain ⟨valBegin, valEnd⟩ := value
  rcases broken with ended | ⟨begun, q, ended, inside⟩
  · cases ended
    rfl
  · cases begun
    cases ended
    simp only [brokenField]
    rw [movePtr_of_le (q := q + 1) rfl inside]
    rfl

/-- `init` and what stands at `begin_`. -/
theorem FixMessage.inits (mem : Mem) (msg : FixMessage) :
    msg.Inits (framing mem msg.begin_) (msg.init mem) := by
  unfold init framing
  -- the field 8
  rcases FixFieldIterator.next_wholeField mem
      ⟨{ msg.beginIt.cur with begin := some msg.begin_ }⟩ rfl with
    ⟨fault, found, step⟩ | ⟨value, found, -, step⟩ | ⟨first, found, -, step⟩
  · simp only [found, step, error_bind]
    exact .fault (wholeField_fault found)
  · simp only [found, step, ok_bind, brokenField_tag, ne_eq]
    by_cases stale : msg.beginIt.cur.tag = FixSpec.BeginString
    · simp only [stale, not_true_eq_false, if_false]
      exact .staleField stale
    · simp only [stale, not_false_eq_true, if_true]
      exact .noField stale rfl rfl
  simp only [found, step, ok_bind, WholeField.past_tag, ne_eq]
  by_cases tag8 : first.tag = FixSpec.BeginString
  case neg =>
    simp only [tag8, not_false_eq_true, if_true]
    exact .malformed rfl rfl
  simp only [tag8, not_true_eq_false, if_false]
  -- the field 9 and the jump
  rcases FixFieldIterator.next_wholeField mem first.past rfl with
    ⟨fault, found, step⟩ | ⟨value, found, -, step⟩ | ⟨length, found, -, step⟩
  · simp only [found, step, error_bind]
    exact .fault (wholeField_fault found)
  · have other : ¬ FixSpec.BeginString = FixSpec.BodyLength := by decide
    simp only [found, step, ok_bind, brokenField_tag, WholeField.past_tag, tag8, other,
      not_false_eq_true, if_true]
    exact .malformed rfl rfl
  simp only [found, step, ok_bind, WholeField.past_tag, WholeField.past_asInt,
    WholeField.past_valEnd]
  by_cases tag9 : length.tag = FixSpec.BodyLength
  case neg =>
    simp only [tag9, not_false_eq_true, if_true]
    exact .malformed rfl rfl
  simp only [tag9, not_true_eq_false, if_false]
  cases bodyLength : stdAtoi mem (some length.valBegin) with
  | error fault => exact .fault (stdAtoi_fault bodyLength)
  | ok bLen =>
  simp only [ok_bind]
  by_cases zero : bLen = 0
  case pos =>
    simp only [zero, if_true]
    exact .malformed rfl rfl
  simp only [zero, if_false]
  cases moved : movePtr mem (some length.valEnd) (bLen + 1) with
  | error fault => exact .fault (movePtr_fault moved)
  | ok landing =>
  obtain ⟨landing, rfl⟩ := movePtr_ok moved
  simp only [ok_bind]
  -- the trailer
  rcases FixFieldIterator.next_wholeField mem
      ⟨{ msg.endIt.cur with begin := some landing }⟩ rfl with
    ⟨fault, found, step⟩ | ⟨value, found, broken, step⟩ | ⟨trailer, found, inside, step⟩
  · simp only [found, step, error_bind]
    exact .fault (wholeField_fault found)
  · simp only [found, step, ok_bind, brokenField_tag]
    by_cases stale : msg.endIt.cur.tag = FixSpec.CheckSum
    · simp only [stale, not_true_eq_false, if_false]
      rw [broken.trailer_fault]
      exact .staleTrailer stale
    · simp only [stale, not_false_eq_true, if_true]
      exact .noTrailer stale rfl rfl
  simp only [found, step, ok_bind, WholeField.past_tag, WholeField.past_asInt,
    WholeField.past_valEnd]
  by_cases tag10 : trailer.tag = FixSpec.CheckSum
  case neg =>
    simp only [tag10, not_false_eq_true, if_true]
    exact .malformed rfl rfl
  simp only [tag10, not_true_eq_false, if_false]
  rw [movePtr_of_le (q := trailer.valEnd + 1) rfl inside, ok_bind]
  cases checksum : stdAtoi mem (some trailer.valBegin) with
  | error fault => exact .fault (stdAtoi_fault checksum)
  | ok checksum =>
  simp only [ok_bind]
  -- the field 35
  rcases FixFieldIterator.next_wholeField mem length.past rfl with
    ⟨fault, found, step⟩ | ⟨value, found, -, step⟩ | ⟨type, found, -, step⟩
  · simp only [found, step, error_bind]
    exact .fault (wholeField_fault found)
  · have other : ¬ FixSpec.BodyLength = FixSpec.MsgType := by decide
    simp only [found, step, ok_bind, brokenField_tag, WholeField.past_tag, tag9, other,
      not_false_eq_true, if_true]
    exact .malformed rfl rfl
  simp only [found, step, ok_bind, WholeField.past_tag]
  by_cases tag35 : type.tag = FixSpec.MsgType
  case neg =>
    simp only [tag35, not_false_eq_true, if_true]
    exact .malformed rfl rfl
  simp only [tag35, not_true_eq_false, if_false]
  cases read : type.past.cur.asChar mem with
  | error fault => exact .fault (asChar_fault read)
  | ok char =>
  simp only [ok_bind]
  rcases FixFieldIterator.next_wholeField mem type.past rfl with
    ⟨fault, found, step⟩ | ⟨value, -, -, step⟩ | ⟨later, -, -, step⟩
  · simp only [step, error_bind]
    exact .fault (wholeField_fault found)
  · simp only [step, ok_bind]
    exact .message ..
  · simp only [step, ok_bind]
    exact .message ..

/-! ## Objects with a past -/

/-- This call accepts the message: with `valid` cleared before it, it sets `valid`. -/
def FixMessage.Accepts (mem : Mem) (msg : FixMessage) : Prop :=
  ∃ msg', { msg with valid := false }.init mem = .ok msg' ∧ msg'.valid = true

/-- One call does its own work: no null cursor is dereferenced, and `valid` is set behind it
only if this call accepted. -/
structure FixMessage.Earns (mem : Mem) (msg : FixMessage) : Prop where
  grounded : msg.init mem ≠ .error .nullPointer
  accepts : ∀ msg', msg.init mem = .ok msg' → msg'.valid = true → msg.Accepts mem

/-- Two calls end alike: with the same `valid`, and when it is set, with the same results. That
both leave the allocation says nothing of their pasts. -/
def Alike : Except Fault FixMessage → Except Fault FixMessage → Prop
  | .ok msg, .ok msg' => msg.valid = msg'.valid ∧ (msg.valid = true →
      msg.type = msg'.type ∧ msg.checksum = msg'.checksum ∧ msg.end_ = msg'.end_ ∧
        msg.beginIt = msg'.beginIt ∧ msg.endIt = msg'.endIt)
  | .error fault, .error fault' => fault = fault'
  | _, _ => False

/-- `init` on two objects does not depend on their pasts. -/
structure Agree (mem : Mem) (msg msg' : FixMessage) : Prop where
  alike : Alike (msg.init mem) (msg'.init mem)
  earns : msg.Earns mem
  earns' : msg'.Earns mem

/-- The object holds no mark that `init` would take for its own where this stands. -/
def FixMessage.Unmarked (msg : FixMessage) : Framing → Prop
  | .message .. => True
  | .noField => msg.valid = false ∧ msg.beginIt.cur.tag ≠ FixSpec.BeginString
  | .noTrailer => msg.valid = false ∧ msg.endIt.cur.tag ≠ FixSpec.CheckSum
  | .malformed => msg.valid = false

instance (msg : FixMessage) (framed : Framing) : Decidable (msg.Unmarked framed) := by
  cases framed <;> unfold FixMessage.Unmarked <;> infer_instance

theorem FixMessage.unmarked_move {msg : FixMessage} {b : Nat} {framed : Framing} :
    FixMessage.Unmarked { msg with begin_ := b } framed ↔ msg.Unmarked framed := by
  cases framed <;> exact Iff.rfl

/-- What `init` comes to on an unmarked object. -/
inductive Honest : Except Fault Framing → Except Fault FixMessage → Prop
  | fault {fault : Fault} : fault ≠ .nullPointer → Honest (.error fault) (.error fault)
  | message {end_ : Nat} {beginIt endIt : FixFieldIterator} {checksum type : UInt8} (begin_ : Nat) :
    Honest (.ok (.message end_ beginIt endIt checksum type))
      (.ok ⟨begin_, some end_, beginIt, endIt, checksum, type, true⟩)
  | reject {framed : Framing} {msg' : FixMessage} : (∀ end_ beginIt endIt checksum type,
    framed ≠ .message end_ beginIt endIt checksum type) → msg'.valid = false →
    Honest (.ok framed) (.ok msg')

theorem FixMessage.Inits.honest {msg : FixMessage} {framed : Except Fault Framing}
    {result : Except Fault FixMessage} (inits : msg.Inits framed result)
    (unmarked : ∀ f, framed = .ok f → msg.Unmarked f) : Honest framed result := by
  cases inits with
  | fault grounded => exact .fault grounded
  | message end_ beginIt endIt checksum type => exact .message msg.begin_
  | staleField stale => exact absurd stale (unmarked _ rfl).2
  | noField _ same => exact .reject (fun _ _ _ _ _ => nofun) (same.trans (unmarked _ rfl).1)
  | staleTrailer stale => exact absurd stale (unmarked _ rfl).2
  | noTrailer _ same => exact .reject (fun _ _ _ _ _ => nofun) (same.trans (unmarked _ rfl).1)
  | malformed same => exact .reject (fun _ _ _ _ _ => nofun) (same.trans (unmarked _ rfl))

theorem Honest.alike {framed : Except Fault Framing} {result result' : Except Fault FixMessage}
    (honest : Honest framed result) (honest' : Honest framed result') : Alike result result' := by
  cases honest with
  | fault _ =>
      cases honest'
      exact rfl
  | message begin_ =>
      cases honest' with
      | message begin_' => exact ⟨rfl, fun _ => ⟨rfl, rfl, rfl, rfl, rfl⟩⟩
      | reject none_ _ => exact (none_ _ _ _ _ _ rfl).elim
  | reject none_ invalid =>
      cases honest' with
      | message begin_' => exact (none_ _ _ _ _ _ rfl).elim
      | reject _ invalid' =>
          refine ⟨invalid.trans invalid'.symm, fun valid => ?_⟩
          exact absurd (valid.symm.trans invalid) nofun

/-- A call accepts exactly the messages, whatever object it runs on. -/
theorem FixMessage.accepts_iff {mem : Mem} {msg : FixMessage} :
    msg.Accepts mem ↔ ∃ end_ beginIt endIt checksum type,
      framing mem msg.begin_ = .ok (.message end_ beginIt endIt checksum type) := by
  have inits := FixMessage.inits mem { msg with valid := false }
  constructor
  · intro accepts
    obtain ⟨msg', run, valid⟩ := accepts
    rw [run] at inits
    generalize framing mem msg.begin_ = framed at inits ⊢
    cases inits with
    | message end_ beginIt endIt checksum type => exact ⟨_, _, _, _, _, rfl⟩
    | noField _ same => exact absurd (valid.symm.trans same) nofun
    | noTrailer _ same => exact absurd (valid.symm.trans same) nofun
    | malformed same => exact absurd (valid.symm.trans same) nofun
  · intro framed
    obtain ⟨end_, beginIt, endIt, checksum, type, framed⟩ := framed
    rw [framed] at inits
    generalize run : FixMessage.init mem { msg with valid := false } = result at inits
    cases inits
    exact ⟨_, run, rfl⟩

theorem FixMessage.earns_iff {mem : Mem} {msg : FixMessage} :
    msg.Earns mem ↔ ∀ framed, framing mem msg.begin_ = .ok framed → msg.Unmarked framed := by
  have inits := msg.inits mem
  constructor
  · intro earns framed at_
    have unset {msg' : FixMessage} (run : msg.init mem = .ok msg') (same : msg'.valid = msg.valid)
        (none_ : ∀ end_ beginIt endIt checksum type,
          framed ≠ .message end_ beginIt endIt checksum type) : msg.valid = false := by
      by_contra marked
      rw [Bool.not_eq_false] at marked
      obtain ⟨_, _, _, _, _, message⟩ :=
        accepts_iff.mp (earns.accepts msg' run (same.trans marked))
      exact none_ _ _ _ _ _ (Except.ok.inj (at_.symm.trans message))
    rw [at_] at inits
    generalize run : msg.init mem = result at inits
    cases inits with
    | message _ _ _ _ _ => trivial
    | staleField _ => exact absurd run earns.grounded
    | noField stale same => exact ⟨unset run same fun _ _ _ _ _ => nofun, stale⟩
    | staleTrailer _ => exact absurd run earns.grounded
    | noTrailer stale same => exact ⟨unset run same fun _ _ _ _ _ => nofun, stale⟩
    | malformed same => exact unset run same fun _ _ _ _ _ => nofun
  · intro unmarked
    have honest := inits.honest unmarked
    constructor
    · intro null
      rw [null] at honest
      generalize framing mem msg.begin_ = framed at honest
      cases honest with
      | fault grounded => exact grounded rfl
    · intro msg' run valid
      rw [run] at honest
      rw [accepts_iff]
      generalize framing mem msg.begin_ = framed at honest
      cases honest with
      | message _ => exact ⟨_, _, _, _, _, rfl⟩
      | reject _ invalid => exact absurd (valid.symm.trans invalid) nofun

/-- **Independence of the past.** Two objects at one position come out of `init` alike, with
no null cursor dereferenced and `valid` set only by an accepting call, exactly when no message
object is needed to tell what stands there: a message, or bytes whose reading leaves the
allocation; or neither object holds a mark of an earlier call. -/
theorem FixMessage.agree_iff (mem : Mem) (b : Nat) (msg msg' : FixMessage) :
    Agree mem { msg with begin_ := b } { msg' with begin_ := b } ↔
      ∀ framed, framing mem b = .ok framed → msg.Unmarked framed ∧ msg'.Unmarked framed := by
  constructor
  · intro agree framed at_
    exact ⟨unmarked_move.mp (earns_iff.mp agree.earns framed at_),
      unmarked_move.mp (earns_iff.mp agree.earns' framed at_)⟩
  · intro unmarked
    have left : ∀ framed, framing mem b = .ok framed →
        FixMessage.Unmarked { msg with begin_ := b } framed :=
      fun framed at_ => unmarked_move.mpr (unmarked framed at_).1
    have right : ∀ framed, framing mem b = .ok framed →
        FixMessage.Unmarked { msg' with begin_ := b } framed :=
      fun framed at_ => unmarked_move.mpr (unmarked framed at_).2
    have honest := (FixMessage.inits mem { msg with begin_ := b }).honest left
    have honest' := (FixMessage.inits mem { msg' with begin_ := b }).honest right
    exact ⟨honest.alike honest', earns_iff.mpr left, earns_iff.mpr right⟩

/-- `8=F|9=5|35=0|10=062|` and a NUL. -/
def heartbeatNul : Mem :=
  [56, 61, 70, 1, 57, 61, 53, 1, 51, 53, 61, 48, 1, 49, 48, 61, 48, 54, 50, 1, 0]

/-- The object that has accepted the message. -/
def FixMessage.reused : FixMessage where
  begin_ := 0
  end_ := some 20
  beginIt := ⟨⟨10, some 16, some 19, some 20⟩⟩
  endIt := ⟨⟨10, some 16, some 19, some 20⟩⟩
  checksum := 62
  type := 48
  valid := true

/-- At the NUL this object stays valid, a new one does not become valid. -/
theorem FixMessage.not_agree_reused :
    (new 0 ⟨0, 0⟩).init heartbeatNul = .ok reused ∧
      ¬ Agree heartbeatNul { new 20 ⟨0, 0⟩ with begin_ := 20 } { reused with begin_ := 20 } := by
  constructor
  · decide +kernel
  · intro agree
    exact absurd agree.alike.1 (by decide +kernel)

end OpenFix

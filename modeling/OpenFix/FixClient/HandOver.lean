import OpenFix.FixClient.Progress
import OpenFix.FixParse.Relocate

/-!
# The hand-over of the buffer

The caller gives the buffer back to the pool when the handler returns `true`; otherwise the
consumer does, behind the entry marked final. Which of the two comes to pass is decided by the
bytes: whether a message stands at the start of the buffer, and where the trailers lead from
it. Behind the first message a trailer is enough, since the object is marked valid.

* `handOver_iff`: when a call that returns keeps the contract.
* `settles_of_complete`: on bytes that meet the condition by themselves, whatever the rest of
  the allocation holds, a call goes on to hand its buffer over; `Onward` is what holds of them
  at each point on the way.
-/

namespace OpenFix

/-- The fields 8, 9 and 10 from `b` on: where the field 10 ends. -/
def trailer (mem : Mem) (b : Nat) : Except Fault (Option Nat) := do
  match ← wholeField mem (some b) with
  | none => return none
  | some first =>
      if first.tag ≠ FixSpec.BeginString then
        return none
      match ← wholeField mem (some (first.valEnd + 1)) with
      | none => return none
      | some length =>
          if length.tag ≠ FixSpec.BodyLength then
            return none
          let bLen ← stdAtoi mem (some length.valBegin)
          if bLen = 0 then
            return none
          let landing ← movePtr mem (some length.valEnd) (bLen + 1)
          match ← wholeField mem landing with
          | none => return none
          | some trailer =>
              if trailer.tag ≠ FixSpec.CheckSum then
                return none
              return some (trailer.valEnd + 1)

/-- A call of `init` moves `end_` behind the trailer, if it finds one. -/
theorem FixMessage.end_init {mem : Mem} {msg msg' : FixMessage} (run : msg.init mem = .ok msg') :
    (∃ j, trailer mem msg.begin_ = .ok (some j) ∧ msg'.end_ = some j) ∨
      trailer mem msg.begin_ = .ok none ∧ msg'.end_ = msg.end_ := by
  rw [init] at run
  unfold trailer
  -- the field 8
  obtain ⟨begin8, step, run⟩ := of_bind_ok run
  rcases FixFieldIterator.next_wholeField mem
      ⟨{ msg.beginIt.cur with begin := some msg.begin_ }⟩ rfl with
    ⟨fault, -, step'⟩ | ⟨value, found, -, step'⟩ | ⟨first, found, -, step'⟩
  · cases step'.symm.trans step
  · cases step'.symm.trans step
    rw [found, ok_bind]
    split at run
    · cases run
      exact .inr ⟨rfl, rfl⟩
    · cases run
  cases step'.symm.trans step
  rw [found, ok_bind]
  split at run
  case isTrue other =>
    cases run
    exact .inr ⟨if_pos other, rfl⟩
  case isFalse tag8 =>
  dsimp only [WholeField.past_tag] at tag8 ⊢
  rw [if_neg tag8]
  -- the field 9 and the jump
  obtain ⟨begin9, step, run⟩ := of_bind_ok run
  rcases FixFieldIterator.next_wholeField mem first.past rfl with
    ⟨fault, -, step'⟩ | ⟨value, found, -, step'⟩ | ⟨length, found, -, step'⟩
  · cases step'.symm.trans step
  · cases step'.symm.trans step
    rw [found, ok_bind]
    have other : first.tag ≠ FixSpec.BodyLength := by
      rw [not_not.mp tag8]
      decide
    split at run
    case isTrue =>
      cases run
      exact .inr ⟨rfl, rfl⟩
    case isFalse same => exact absurd other same
  cases step'.symm.trans step
  rw [found, ok_bind]
  split at run
  case isTrue other =>
    cases run
    exact .inr ⟨if_pos other, rfl⟩
  case isFalse tag9 =>
  dsimp only [WholeField.past_tag] at tag9 ⊢
  rw [if_neg tag9]
  obtain ⟨bLen, number, run⟩ := of_bind_ok run
  rw [WholeField.past_asInt] at number
  rw [number, ok_bind]
  split at run
  case isTrue zero =>
    cases run
    exact .inr ⟨if_pos zero, rfl⟩
  case isFalse nonzero =>
  rw [if_neg nonzero]
  obtain ⟨landing, moved, run⟩ := of_bind_ok run
  obtain ⟨landing, rfl⟩ := movePtr_ok moved
  rw [WholeField.past_valEnd] at moved
  rw [moved, ok_bind]
  -- the trailer
  obtain ⟨end10, step, run⟩ := of_bind_ok run
  rcases FixFieldIterator.next_wholeField mem
      ⟨{ msg.endIt.cur with begin := some landing }⟩ rfl with
    ⟨fault, -, step'⟩ | ⟨value, found, broken, step'⟩ | ⟨last, found, inside, step'⟩
  · cases step'.symm.trans step
  · cases step'.symm.trans step
    rw [found, ok_bind]
    split at run
    · cases run
      exact .inr ⟨rfl, rfl⟩
    · rw [broken.trailer_fault] at run
      cases run
  cases step'.symm.trans step
  rw [found, ok_bind]
  split at run
  case isTrue other =>
    cases run
    exact .inr ⟨if_pos other, rfl⟩
  case isFalse tag10 =>
  dsimp only [WholeField.past_tag] at tag10 ⊢
  rw [if_neg tag10]
  rw [WholeField.past_valEnd, movePtr_of_le (q := last.valEnd + 1) rfl inside, ok_bind] at run
  refine .inl ⟨last.valEnd + 1, rfl, ?_⟩
  -- what follows leaves `end_`
  obtain ⟨checksum, -, run⟩ := of_bind_ok run
  obtain ⟨beginIt, -, run⟩ := of_bind_ok run
  split at run
  · cases run
    rfl
  obtain ⟨type, -, run⟩ := of_bind_ok run
  obtain ⟨beginIt, -, run⟩ := of_bind_ok run
  cases run
  rfl

/-- Where there is no whole field, or the field 9 leads to none, there is no trailer. -/
theorem trailer_of_framing {mem : Mem} {b : Nat} {framed : Framing}
    (read : framing mem b = .ok framed) (none_ : framed = .noField ∨ framed = .noTrailer) :
    trailer mem b = .ok none := by
  unfold framing at read
  unfold trailer
  obtain ⟨first, found, read⟩ := of_bind_ok read
  rw [found, ok_bind]
  rcases first with _ | first
  · rfl
  dsimp only at read ⊢
  split at read
  case isTrue other => exact if_pos other
  case isFalse tag8 =>
  rw [if_neg tag8]
  obtain ⟨length, found, read⟩ := of_bind_ok read
  rw [found, ok_bind]
  rcases length with _ | length
  · rfl
  dsimp only at read ⊢
  split at read
  case isTrue other => exact if_pos other
  case isFalse tag9 =>
  rw [if_neg tag9]
  obtain ⟨bLen, number, read⟩ := of_bind_ok read
  rw [number, ok_bind]
  split at read
  case isTrue zero => exact if_pos zero
  case isFalse nonzero =>
  rw [if_neg nonzero]
  obtain ⟨landing, moved, read⟩ := of_bind_ok read
  rw [moved, ok_bind]
  obtain ⟨last, found, read⟩ := of_bind_ok read
  rw [found, ok_bind]
  rcases last with _ | last
  · rfl
  dsimp only at read ⊢
  split at read
  case isTrue other => exact if_pos other
  case isFalse tag10 =>
  obtain ⟨checksum, -, read⟩ := of_bind_ok read
  obtain ⟨type, -, read⟩ := of_bind_ok read
  rcases type with _ | type
  · cases read
    rcases none_ with same | same <;> cases same
  dsimp only at read
  split at read
  case isTrue =>
    cases read
    rcases none_ with same | same <;> cases same
  case isFalse =>
    obtain ⟨char, -, read⟩ := of_bind_ok read
    obtain ⟨beginIt, -, read⟩ := of_bind_ok read
    cases read
    rcases none_ with same | same <;> cases same

/-- The trailer of a buffer by itself, in the allocation. -/
theorem trailer_relocate {mem c : Mem} {b i : Nat} {j : Option Nat} (lies : c <+: mem.drop b)
    (read : trailer c i = .ok j) : trailer mem (b + i) = .ok (j.map (b + ·)) := by
  unfold trailer at read ⊢
  obtain ⟨first, found, read⟩ := of_bind_ok read
  have some_ := wholeField_nonempty found
  rw [← Ptr.shift_some, wholeField_relocate lies found, ok_bind]
  rcases first with _ | first
  · cases read
    rfl
  dsimp only [Option.map_some, WholeField.shift] at read ⊢
  split at read
  case isTrue other =>
    cases read
    exact if_pos other
  case isFalse tag8 =>
  rw [if_neg tag8]
  obtain ⟨length, found, read⟩ := of_bind_ok read
  rw [Nat.add_assoc, ← Ptr.shift_some, wholeField_relocate lies found, ok_bind]
  rcases length with _ | length
  · cases read
    rfl
  dsimp only [Option.map_some, WholeField.shift] at read ⊢
  split at read
  case isTrue other =>
    cases read
    exact if_pos other
  case isFalse tag9 =>
  rw [if_neg tag9]
  obtain ⟨bLen, number, read⟩ := of_bind_ok read
  rw [stdAtoi_relocate lies number, ok_bind]
  split at read
  case isTrue zero =>
    cases read
    exact if_pos zero
  case isFalse nonzero =>
  rw [if_neg nonzero]
  obtain ⟨landing, moved, read⟩ := of_bind_ok read
  obtain ⟨landing, rfl⟩ := movePtr_ok moved
  rw [movePtr_relocate lies some_ moved, ok_bind]
  obtain ⟨last, found, read⟩ := of_bind_ok read
  rw [← Ptr.shift_some, wholeField_relocate lies found, ok_bind]
  rcases last with _ | last
  · cases read
    rfl
  dsimp only [Option.map_some, WholeField.shift] at read ⊢
  split at read
  case isTrue other =>
    cases read
    exact if_pos other
  case isFalse tag10 =>
  rw [if_neg tag10]
  cases read
  rfl

namespace FixHandler

variable {mem : Mem} {buf len : Nat} {garbage : StackGarbage}

/-! ## Where the trailers lead -/

/-- The fields 8, 9 and 10 stand from `i` to `j`, and the parser stays inside the allocation. A
marked object takes that for a message, whatever stands behind the field 9. -/
def FrameAt (mem : Mem) (i j : Nat) : Prop :=
  (∃ framed, framing mem i = .ok framed) ∧ trailer mem i = .ok (some j)

/-- From `i` on the trailers lead to `stop`. -/
inductive Ends (mem : Mem) (stop : Nat) : Nat → Prop
  | here : Ends mem stop stop
  | next {i j : Nat} : i < stop → FrameAt mem i j → Ends mem stop j → Ends mem stop i

theorem framing_of_init {msg msg' : FixMessage} (run : msg.init mem = .ok msg') :
    ∃ framed, framing mem msg.begin_ = .ok framed := by
  have inits := msg.inits mem
  rw [run] at inits
  generalize framing mem msg.begin_ = framed at inits ⊢
  cases inits with
  | _ => exact ⟨_, rfl⟩

/-- The trailers of the loop lead to `stop` exactly when the message it stops with ends there. -/
theorem ends_iff_of_deframes {first last : FixMessage} {i e stop : Nat}
    (path : Relation.ReflTransGen (Continues mem stop) first last) (begins : first.end_ = some i)
    (ends : last.end_ = some e) (reached : stop ≤ e) : Ends mem stop i ↔ e = stop := by
  induction path using Relation.ReflTransGen.head_induction_on generalizing i with
  | refl =>
      cases begins.symm.trans ends
      constructor
      · intro leads
        cases leads with
        | here => rfl
        | next before _ _ => exact absurd before (Nat.not_lt.mpr reached)
      · rintro rfl
        exact .here
  | head continues _ ih =>
      obtain ⟨i', begins', before, run⟩ := continues
      cases begins.symm.trans begins'
      rcases FixMessage.end_init run with ⟨j, found, moved⟩ | ⟨none_, stays⟩
      · rw [← ih moved]
        constructor
        · intro leads
          cases leads with
          | here => exact absurd before (Nat.lt_irrefl _)
          | next _ framed rest =>
              cases found.symm.trans framed.2
              exact rest
        · exact .next before ⟨framing_of_init run, found⟩
      · exact ih (stays.trans begins)

/-! ## The contract -/

/-- What the caller relies on. After `true` no entry refers to the buffer; after `false`
some do, the last pushed is one of them, and it alone is final. -/
def HandOver (buf : Nat) : Bool → List FixMsg → Prop
  | true, pushed => ∀ e ∈ pushed, e.ptr ≠ buf
  | false, pushed => ∃ earlier last, pushed = earlier ++ [last] ∧ last.ptr = buf ∧
      last.isFinal = true ∧ ∀ e ∈ earlier, e.ptr = buf → e.isFinal = false

theorem MessageAt.unique {i j j' : Nat} (at_ : MessageAt mem i j) (at_' : MessageAt mem i j') :
    j = j' := by
  obtain ⟨beginIt, endIt, checksum, type, framed⟩ := at_
  obtain ⟨beginIt', endIt', checksum', type', framed'⟩ := at_'
  cases framed.symm.trans framed'
  rfl

/-- Where a message stands, the first parse accepts. -/
theorem Rejects.no_message (rejects : Rejects mem buf garbage) (j : Nat) :
    ¬ MessageAt mem buf j := by
  rintro ⟨beginIt, endIt, checksum, type, framed⟩
  obtain ⟨first, run, invalid⟩ := rejects
  have inits := FixMessage.inits mem (.new buf garbage)
  rw [run, show (FixMessage.new buf garbage).begin_ = buf from rfl, framed] at inits
  cases inits
  cases invalid

/-- A call that returns keeps the contract exactly when no message stands at the start of the
buffer, or the trailers lead from the first message to the end of the read. One that leads
behind it (`loss < 0`) leaves no final entry. -/
theorem handOver_iff (mem : Mem) (buf len : Nat) (garbage : StackGarbage) (n : Nat)
    (ret : Bool) (pushed : List FixMsg)
    (returns : run mem buf len garbage n = (.returned ret, pushed)) :
    HandOver buf ret pushed ↔
      (∀ j, ¬ MessageAt mem buf j) ∨ ∃ j, MessageAt mem buf j ∧ Ends mem (buf + len) j := by
  have traced := traced_run mem buf len garbage n
  rw [returns] at traced
  cases ret with
  | true =>
      obtain ⟨rejects, rfl⟩ := traced
      exact ⟨fun _ => .inl rejects.no_message, fun _ => nofun⟩
  | false =>
      obtain ⟨msg, end_, ⟨first, run, valid, path⟩, ⟨earlier, last, rfl, ends, notFinal⟩, ends',
        reached⟩ := traced
      obtain rfl := Option.some.inj (ends'.symm.trans ends)
      obtain ⟨i, begins⟩ : ∃ i, first.end_ = some i :=
        (FixMessage.ended_new buf garbage).init run valid
      have at_ : MessageAt mem buf i := messageAt_of_init rfl run valid begins
      have leads := ends_iff_of_deframes path begins ends reached
      constructor
      · rintro ⟨earlier', last, split, -, final, -⟩
        obtain rfl := List.head_eq_of_cons_eq (List.append_inj_right' split rfl)
        exact .inr ⟨i, at_, leads.mpr (of_decide_eq_true final)⟩
      · rintro (none_ | ⟨j, at_', rest⟩)
        · exact absurd at_ (none_ i)
        · cases at_.unique at_'
          exact ⟨earlier, _, rfl, rfl, decide_eq_true (leads.mp rest),
            fun e member _ => (notFinal e member).1⟩

/-- A read of exactly one message. -/
theorem handOver_heartbeat :
    HandOver 0 false [⟨48, 62, 0, true⟩] ↔
      (∀ j, ¬ MessageAt heartbeat 0 j) ∨ ∃ j, MessageAt heartbeat 0 j ∧ Ends heartbeat (0 + 20) j :=
  handOver_iff heartbeat 0 20 ⟨0, 0⟩ 2 false _ (by decide +kernel)

/-- A read of all but its last byte, into a buffer that still holds that byte: the one
entry pushed is not final. -/
theorem handOver_shortRead :
    ¬ ∀ (mem : Mem) (buf len : Nat) (garbage : StackGarbage) (n : Nat) (ret : Bool)
        (pushed : List FixMsg), 1 ≤ len →
      run mem buf len garbage n = (.returned ret, pushed) → HandOver buf ret pushed := by
  intro contract
  have handOver := contract heartbeat 0 19 ⟨0, 0⟩ 2 false [⟨48, 62, 0, false⟩] (by decide)
    (by decide +kernel)
  obtain ⟨earlier, last, split, -, final, -⟩ := handOver
  have member : last ∈ [(⟨48, 62, 0, false⟩ : FixMsg)] := by
    rw [split]
    exact List.mem_append_right earlier List.mem_cons_self
  obtain rfl := List.mem_singleton.mp member
  exact Bool.false_ne_true final

/-! ## Going on -/

/-- Going on with the memory as it stands, the handler pushes a final entry. -/
inductive Finishes (mem : Mem) (buf len : Nat) (garbage : StackGarbage) : HandlerPc → Prop
  | push {pc pc' : HandlerPc} {e : FixMsg} : step mem buf len garbage pc = (pc', some e) →
    e.isFinal = true → Finishes mem buf len garbage pc
  | go {pc pc' : HandlerPc} {entry : Option FixMsg} :
    step mem buf len garbage pc = (pc', entry) → Finishes mem buf len garbage pc' →
    Finishes mem buf len garbage pc

/-- Going on, the handler pushes a final entry, or returns `true` and has pushed none. -/
inductive Settles (mem : Mem) (buf len : Nat) (garbage : StackGarbage) : HandlerPc → Prop
  | returned : Settles mem buf len garbage (.returned true)
  | finishes {pc : HandlerPc} : Finishes mem buf len garbage pc → Settles mem buf len garbage pc
  | go {pc pc' : HandlerPc} : step mem buf len garbage pc = (pc', none) →
    Settles mem buf len garbage pc' → Settles mem buf len garbage pc

/-- The bytes `c` of a buffer of which `len` were read, by themselves: no message stands at
their start, and the uninitialised tags of the new object make up none; or the trailers lead
from the first message to the end of the read. -/
def Complete (c : List UInt8) (len : Nat) (garbage : StackGarbage) : Prop :=
  (∃ framed, framing c 0 = .ok framed ∧ (FixMessage.new 0 garbage).Unmarked framed ∧
    ∀ j, ¬ MessageAt c 0 j) ∨
    ∃ j, MessageAt c 0 j ∧ Ends c len j

/-- What such bytes give the handler at each of its points. -/
def Onward (c : List UInt8) (buf len : Nat) (garbage : StackGarbage) : HandlerPc → Prop
  | .call => Complete c len garbage
  | .loop msg => msg.valid = true ∧ ∃ i, msg.end_ = some (buf + i) ∧ Ends c len i
  | .returned _ => True
  | .faulted _ => False

variable {c : List UInt8}

theorem MessageAt.relocate (lies : c <+: mem.drop buf) {i j : Nat} (at_ : MessageAt c i j) :
    MessageAt mem (buf + i) (buf + j) := by
  obtain ⟨beginIt, endIt, checksum, type, framed⟩ := at_
  exact ⟨_, _, _, _, framing_relocate lies framed⟩

theorem FrameAt.relocate (lies : c <+: mem.drop buf) {i j : Nat} (at_ : FrameAt c i j) :
    FrameAt mem (buf + i) (buf + j) := by
  obtain ⟨⟨framed, framed_⟩, found⟩ := at_
  exact ⟨⟨_, framing_relocate lies framed_⟩, trailer_relocate lies found⟩

/-- A marked object pushes what it takes for a message. -/
theorem parse_of_frameAt (buf len : Nat) (msg : FixMessage) {j : Nat} (valid : msg.valid = true)
    (at_ : FrameAt mem msg.begin_ j) :
    ∃ msg', msg'.valid = true ∧ msg'.end_ = some j ∧
      parse mem buf len msg = (.loop msg', some (entryOf buf len msg' j)) := by
  obtain ⟨⟨framed, framed_⟩, found⟩ := at_
  have inits := msg.inits mem
  rw [framed_] at inits
  have whole (none_ : framed = .noField ∨ framed = .noTrailer) : False := by
    cases found.symm.trans (trailer_of_framing framed_ none_)
  generalize run : msg.init mem = result at inits
  cases result with
  | error fault =>
      cases inits with
      | staleField _ => exact (whole (.inl rfl)).elim
      | staleTrailer _ => exact (whole (.inr rfl)).elim
  | ok msg' =>
      have valid' := FixMessage.valid_init valid run
      rcases FixMessage.end_init run with ⟨j', found', ends⟩ | ⟨none_, -⟩
      · cases found.symm.trans found'
        exact ⟨msg', valid', ends, parse_accept run valid' ends⟩
      · cases found.symm.trans none_

/-- The first parse on bytes without a message returns `true`. -/
theorem parse_of_unmarked (lies : c <+: mem.drop buf) {framed : Framing}
    (framed_ : framing c 0 = .ok framed) (unmarked : (FixMessage.new 0 garbage).Unmarked framed)
    (none_ : ∀ j, ¬ MessageAt c 0 j) :
    parse mem buf len (.new buf garbage) = (.returned true, none) := by
  have there := framing_relocate lies framed_
  have inits := FixMessage.inits mem (.new buf garbage)
  rw [show (FixMessage.new buf garbage).begin_ = buf + 0 from rfl, there] at inits
  generalize run : (FixMessage.new buf garbage).init mem = result at inits
  cases framed with
  | message end_ beginIt endIt checksum type =>
      exact (none_ end_ ⟨beginIt, endIt, checksum, type, framed_⟩).elim
  | noField =>
      cases inits with
      | staleField stale => exact absurd stale unmarked.2
      | noField _ same => exact parse_reject run same
  | noTrailer =>
      cases inits with
      | staleTrailer stale => exact absurd stale unmarked.2
      | noTrailer _ same => exact parse_reject run same
  | malformed =>
      cases inits with
      | malformed same => exact parse_reject run same

/-- A step on such bytes leads to another point of the same kind. -/
theorem Onward.step {pc pc' : HandlerPc} {entry : Option FixMsg}
    (onward : Onward c buf len garbage pc) (lies : c <+: mem.drop buf)
    (stepped : FixHandler.step mem buf len garbage pc = (pc', entry)) :
    Onward c buf len garbage pc' := by
  cases pc with
  | call =>
      rcases onward with ⟨framed, framed_, unmarked, none_⟩ | ⟨j, at_, rest⟩
      · cases (parse_of_unmarked lies framed_ unmarked none_).symm.trans stepped
        trivial
      · obtain ⟨msg, ends, parsed⟩ :=
          parse_of_messageAt buf len (.new buf garbage) (at_.relocate lies)
        have valid : msg.valid = true := by
          have accepted := parsed_of_parse parsed
          generalize some (entryOf buf len msg (buf + j)) = entry' at accepted
          cases accepted with
          | accept _ _ valid _ => exact valid
        cases parsed.symm.trans stepped
        exact ⟨valid, j, ends, rest⟩
  | loop msg =>
      obtain ⟨valid, i, ends, rest⟩ := onward
      cases rest with
      | here =>
          cases (step_reached ends le_rfl).symm.trans stepped
          trivial
      | @next _ j before at_ rest =>
          obtain ⟨msg', valid', ends', parsed⟩ := parse_of_frameAt buf len
            { msg with begin_ := buf + i } valid (at_.relocate lies)
          cases ((step_before ends (by omega)).trans parsed).symm.trans stepped
          exact ⟨valid', j, ends', rest⟩
  | returned ret =>
      cases stepped
      trivial
  | faulted fault => exact onward.elim

/-- From behind a message the trailers lead on to the final entry. -/
theorem finishes_of_ends (lies : c <+: mem.drop buf) {i : Nat} (leads : Ends c len i)
    {msg : FixMessage} (valid : msg.valid = true) (ends : msg.end_ = some (buf + i))
    (some_ : i ≠ len) : Finishes mem buf len garbage (.loop msg) := by
  induction leads generalizing msg with
  | here => exact absurd rfl some_
  | @next i j before at_ rest ih =>
      obtain ⟨msg', valid', ends', parsed⟩ := parse_of_frameAt buf len
        { msg with begin_ := buf + i } valid (at_.relocate lies)
      have stepped : FixHandler.step mem buf len garbage (.loop msg) = _ :=
        (step_before ends (by omega)).trans parsed
      by_cases last : j = len
      · exact .push stepped (decide_eq_true (by rw [last]))
      · exact .go stepped (ih valid' ends' last)

/-- The handler that has not pushed the final entry on such bytes, does it. -/
theorem Onward.finishes {msg : FixMessage} (onward : Onward c buf len garbage (.loop msg))
    (lies : c <+: mem.drop buf) (some_ : msg.end_ ≠ some (buf + len)) :
    Finishes mem buf len garbage (.loop msg) := by
  obtain ⟨valid, i, ends, rest⟩ := onward
  refine finishes_of_ends lies rest valid ends ?_
  rintro rfl
  exact some_ ends

/-- A call on bytes that meet the condition by themselves goes on to hand its buffer over. -/
theorem settles_of_complete (complete : Complete c len garbage) (lies : c <+: mem.drop buf) :
    Settles mem buf len garbage .call := by
  have onward : Onward c buf len garbage .call := complete
  rcases complete with ⟨framed, framed_, unmarked, none_⟩ | ⟨j, at_, rest⟩
  · exact .go (parse_of_unmarked lies framed_ unmarked none_) .returned
  · obtain ⟨msg, ends, parsed⟩ :=
      parse_of_messageAt buf len (.new buf garbage) (at_.relocate lies)
    have behind := onward.step lies parsed
    refine .finishes ?_
    by_cases last : j = len
    · exact .push parsed (decide_eq_true (by rw [last]))
    · refine .go parsed (behind.finishes lies ?_)
      rw [ends]
      intro same
      exact last (by injection same; omega)

/-! ## Whole messages -/

end FixHandler

end OpenFix

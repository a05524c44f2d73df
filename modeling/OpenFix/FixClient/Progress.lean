import OpenFix.FixClient.Deframe
import OpenFix.FixParse.Framing

/-!
# The loop of `fix_handler` ends

Where the handler stands in its buffer, by what stands there: `Leads` follows the messages
from the start of the buffer on. As long as they lead forward the loop follows them; where
they do not, it goes on all the same, since the object it reuses is marked valid.

* `progress_iff`: when every iteration moves forward or leaves.
-/

namespace OpenFix

namespace FixHandler

variable {mem : Mem} {buf len : Nat} {garbage : StackGarbage}

/-- A message stands at `i` and ends at `j`. -/
def MessageAt (mem : Mem) (i j : Nat) : Prop :=
  ∃ beginIt endIt checksum type, framing mem i = .ok (.message j beginIt endIt checksum type)

/-- The ends of the messages from `buf` on, each starting where the one before ended, as long
as that is before `stop`. -/
inductive Leads (mem : Mem) (buf stop : Nat) : Nat → Prop
  | first {i : Nat} : MessageAt mem buf i → Leads mem buf stop i
  | next {i j : Nat} : Leads mem buf stop i → i < stop → MessageAt mem i j → Leads mem buf stop j

/-- What is asked of the loop, at every loop test of a call. A call that leaves the allocation does
not return, and has not got on. -/
structure Progress (mem : Mem) (buf len : Nat) (garbage : StackGarbage) : Prop where
  /-- An iteration moves `end_` forward or leaves the loop. -/
  forward : ∀ n msg pushed i, run mem buf len garbage n = (.loop msg, pushed) →
    msg.end_ = some i → i < buf + len →
    (∃ msg' j, (step mem buf len garbage (.loop msg)).1 = .loop msg' ∧ msg'.end_ = some j ∧ i < j) ∨
      ∃ ret, (step mem buf len garbage (.loop msg)).1 = .returned ret
  /-- Where a new object would not accept, the handler stops and pushes nothing. -/
  stops : ∀ n msg pushed i, run mem buf len garbage n = (.loop msg, pushed) →
    msg.end_ = some i → i < buf + len → (∀ garbage, ¬ (FixMessage.new i garbage).Accepts mem) →
    ∃ ret, step mem buf len garbage (.loop msg) = (.returned ret, none)
  /-- The loop ends. -/
  ends : ∀ n msg pushed, run mem buf len garbage n = (.loop msg, pushed) →
    ∃ k ret pushed', run mem buf len garbage (n + k) = (.returned ret, pushed')

/-! ## Parses where a message stands -/

/-- Whatever the object held, a parse where a message stands pushes it. -/
theorem parse_of_messageAt (buf len : Nat) (msg : FixMessage) {j : Nat}
    (at_ : MessageAt mem msg.begin_ j) :
    ∃ msg', msg'.end_ = some j ∧
      parse mem buf len msg = (.loop msg', some (entryOf buf len msg' j)) := by
  obtain ⟨beginIt, endIt, checksum, type, framed⟩ := at_
  have inits := msg.inits mem
  rw [framed] at inits
  generalize run : msg.init mem = result at inits
  cases inits
  exact ⟨_, rfl, parse_accept run rfl rfl⟩

/-- An unmarked object accepts only where a message stands. -/
theorem messageAt_of_init {msg msg' : FixMessage} {j : Nat} (unmarked : msg.valid = false)
    (run : msg.init mem = .ok msg') (valid : msg'.valid = true) (ends : msg'.end_ = some j) :
    MessageAt mem msg.begin_ j := by
  have inits := msg.inits mem
  rw [run] at inits
  have kept (same : msg'.valid = msg.valid) : False := by
    cases valid.symm.trans (same.trans unmarked)
  unfold MessageAt
  generalize framing mem msg.begin_ = framed at inits ⊢
  cases inits with
  | message end_ beginIt endIt checksum type =>
      cases ends
      exact ⟨beginIt, endIt, checksum, type, rfl⟩
  | noField _ same => exact (kept same).elim
  | noTrailer _ same => exact (kept same).elim
  | malformed same => exact (kept same).elim

/-- A marked object leads the loop on, whatever stands where it parses. -/
theorem not_returned_of_valid (mem : Mem) (buf len : Nat) {msg : FixMessage}
    (valid : msg.valid = true) (ret : Bool) :
    (parse mem buf len msg).1 ≠ .returned ret := by
  intro returned
  generalize parse_ : parse mem buf len msg = parsed at returned
  obtain ⟨pc, entry⟩ := parsed
  cases parsed_of_parse parse_ with
  | fault fault => cases returned
  | reject run invalid => cases invalid.symm.trans (FixMessage.valid_init valid run)
  | accept end_ _ _ _ => cases returned

theorem not_accepts {i : Nat} (none_ : ∀ j, ¬ MessageAt mem i j) (garbage : StackGarbage) :
    ¬ (FixMessage.new i garbage).Accepts mem := by
  intro accepts
  obtain ⟨end_, beginIt, endIt, checksum, type, framed⟩ := FixMessage.accepts_iff.mp accepts
  exact none_ end_ ⟨beginIt, endIt, checksum, type, framed⟩

/-! ## Where the loop stands -/

/-- The messages lead forward up to the end of the read. -/
def Forward (mem : Mem) (buf stop : Nat) : Prop :=
  ∀ i, Leads mem buf stop i → i < stop → ∃ j, i < j ∧ MessageAt mem i j

/-- The loop comes to every end that the messages lead to. -/
theorem run_of_leads (garbage : StackGarbage) {i : Nat}
    (leads : Leads mem buf (buf + len) i) :
    ∃ n msg pushed, run mem buf len garbage n = (.loop msg, pushed) ∧ msg.end_ = some i := by
  induction leads with
  | first at_ =>
      obtain ⟨msg, ends, parsed⟩ := parse_of_messageAt buf len (.new buf garbage) at_
      exact ⟨1, msg, _, run_succ (n := 0) rfl parsed, ends⟩
  | @next i j _ before at_ ih =>
      obtain ⟨n, msg, pushed, stands, ends⟩ := ih
      obtain ⟨msg', ends', parsed⟩ := parse_of_messageAt buf len { msg with begin_ := i } at_
      exact ⟨n + 1, msg', _, run_succ stands ((step_before ends before).trans parsed), ends'⟩

/-- Where the loop stands. While the messages lead forward it stands behind one of them. -/
theorem leads_of_run (forward : Forward mem buf (buf + len)) {n : Nat} {msg : FixMessage}
    {pushed : List FixMsg} (stands : run mem buf len garbage n = (.loop msg, pushed)) :
    ∃ i, msg.end_ = some i ∧ Leads mem buf (buf + len) i := by
  induction n generalizing msg pushed with
  | zero => cases stands
  | succ n ih =>
      generalize before : run mem buf len garbage n = last at *
      obtain ⟨pc, earlier⟩ := last
      generalize stepped : step mem buf len garbage pc = next
      obtain ⟨pc', entry⟩ := next
      cases (run_succ before stepped).symm.trans stands
      cases stepped_of_step stepped with
      | call parsed =>
          cases parsed with
          | accept end_ init valid ends =>
              exact ⟨end_, ends, .first (messageAt_of_init rfl init valid ends)⟩
      | @next last _ _ i ends inside parsed =>
          obtain ⟨i', ends', leads⟩ := ih rfl
          cases ends.symm.trans ends'
          obtain ⟨j, -, at_⟩ := forward i leads inside
          obtain ⟨msg', end_, parse_⟩ := parse_of_messageAt buf len { last with begin_ := i } at_
          cases ((step_before ends inside).trans parse_).symm.trans stepped
          exact ⟨j, end_, leads.next inside at_⟩

/-- From behind a message the loop ends: the rest of the read gets shorter. -/
theorem ends_of_forward (forward : Forward mem buf (buf + len)) {n : Nat} {msg : FixMessage}
    {pushed : List FixMsg} {i : Nat} (stands : run mem buf len garbage n = (.loop msg, pushed))
    (ends : msg.end_ = some i) (leads : Leads mem buf (buf + len) i) :
    ∃ k ret pushed', run mem buf len garbage (n + k) = (.returned ret, pushed') := by
  induction rest : buf + len - i using Nat.strongRecOn generalizing n msg pushed i with
  | ind rest ih =>
      rcases Nat.lt_or_ge i (buf + len) with before | reached
      · obtain ⟨j, later, at_⟩ := forward i leads before
        obtain ⟨msg', ends', parsed⟩ := parse_of_messageAt buf len { msg with begin_ := i } at_
        have next := run_succ stands ((step_before ends before).trans parsed)
        obtain ⟨k, ret, pushed', returned⟩ :=
          ih (buf + len - j) (by omega) next ends' (leads.next before at_) rfl
        exact ⟨1 + k, ret, pushed', by rw [← Nat.add_assoc]; exact returned⟩
      · exact ⟨1, false, _, run_succ stands (step_reached ends reached)⟩

/-- **Progress.** Every iteration moves forward or leaves, the handler stops where no message
stands, and the loop ends, exactly when from the first message on every position before the
end of the read that the messages lead to is the start of a message that ends behind it. -/
theorem progress_iff (mem : Mem) (buf len : Nat) (garbage : StackGarbage) :
    Progress mem buf len garbage ↔ Forward mem buf (buf + len) := by
  constructor
  · intro progress i leads before
    obtain ⟨n, msg, pushed, stands, ends⟩ := run_of_leads garbage leads
    have stepped : step mem buf len garbage (.loop msg) =
        parse mem buf len { msg with begin_ := i } := step_before ends before
    have traced := traced_run mem buf len garbage n
    rw [stands] at traced
    have valid : FixMessage.valid { msg with begin_ := i } = true := traced.1.valid
    have stays := not_returned_of_valid mem buf len valid
    rw [← stepped] at stays
    by_cases found : ∃ j, MessageAt mem i j
    · obtain ⟨j, at_⟩ := found
      obtain ⟨msg', ends', parsed⟩ := parse_of_messageAt buf len { msg with begin_ := i } at_
      rcases progress.forward n msg pushed i stands ends before with
        ⟨msg'', j', moved, ends'', later⟩ | ⟨ret, returned⟩
      · rw [stepped, parsed] at moved
        cases moved
        cases ends'.symm.trans ends''
        exact ⟨j, later, at_⟩
      · exact (stays ret returned).elim
    · obtain ⟨ret, returned⟩ := progress.stops n msg pushed i stands ends before
        (not_accepts (not_exists.mp found))
      exact (stays ret (congrArg Prod.fst returned)).elim
  · intro forward
    constructor
    · intro n msg pushed i stands ends before
      obtain ⟨i', ends', leads⟩ := leads_of_run forward stands
      cases ends.symm.trans ends'
      obtain ⟨j, later, at_⟩ := forward i leads before
      obtain ⟨msg', end_, parsed⟩ := parse_of_messageAt buf len { msg with begin_ := i } at_
      rw [step_before ends before, parsed]
      exact .inl ⟨msg', j, rfl, end_, later⟩
    · intro n msg pushed i stands ends before none_
      obtain ⟨i', ends', leads⟩ := leads_of_run forward stands
      cases ends.symm.trans ends'
      obtain ⟨j, -, beginIt, endIt, checksum, type, framed⟩ := forward i leads before
      exact absurd (FixMessage.accepts_iff.mpr ⟨j, beginIt, endIt, checksum, type, framed⟩)
        (none_ ⟨0, 0⟩)
    · intro n msg pushed stands
      obtain ⟨i, ends, leads⟩ := leads_of_run forward stands
      exact ends_of_forward forward stands ends leads

/-- `8=F|9=5|35=0|10=062|8=F` and a NUL, of which 23 bytes were read: the heartbeat is pushed
again and again, since `init` leaves `valid` set and `end_` where it was. -/
theorem not_progress_tail :
    ¬ ∀ (mem : Mem) (buf len : Nat) (garbage : StackGarbage), 1 ≤ len →
      (∃ k ≤ len, mem[buf + k]? = some 0) → Progress mem buf len garbage := by
  intro progress
  have goes := progress (heartbeat ++ [56, 61, 70, 0]) 0 23 ⟨0, 0⟩ (by decide)
    ⟨23, by decide, by decide +kernel⟩
  have stands : run (heartbeat ++ [56, 61, 70, 0]) 0 23 ⟨0, 0⟩ 1 =
      (.loop .reused, [⟨48, 62, 0, false⟩]) := by
    decide +kernel
  have stays : (step (heartbeat ++ [56, 61, 70, 0]) 0 23 ⟨0, 0⟩ (.loop .reused)).1 =
      .loop { FixMessage.reused with
        begin_ := 20
        beginIt := ⟨⟨10, some 22, none, none⟩⟩ } := by
    decide +kernel
  rcases goes.forward 1 .reused _ 20 stands rfl (by decide) with
    ⟨msg', j, moved, ends, later⟩ | ⟨ret, returned⟩
  · cases stays.symm.trans moved
    cases ends
    exact absurd later (by decide)
  · cases stays.symm.trans returned

end FixHandler

end OpenFix

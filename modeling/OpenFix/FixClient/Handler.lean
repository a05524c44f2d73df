import Mathlib.Logic.Relation
import OpenFix.FixParse.Message

/-!
# `fix_handler`

`fix_handler::operator( )` as a small-step machine: one step is one `init` with the check
of `valid` and the push that follow it, or one exit from the loop. The loop need not
terminate (a failing `init` leaves `valid` set and `end_` where it was), so `run` counts
steps and a run that returns is one that reaches `returned`.

* `Deframes`: the message objects that successive accepted parses leave, in the parser's
  terms alone.
* `Traced`: what holds where a call stands; `Traced.step` is its step, `traced_run` its run.
-/

namespace OpenFix

open Relation (ReflTransGen)

/-- `fix_msg_t`, the entries of `in_queue`. -/
structure FixMsg : Type where
  type : UInt8
  checksum : UInt8
  ptr : Nat
  isFinal : Bool
  deriving DecidableEq, Repr

/-- Where a call of the handler stands. -/
inductive HandlerPc : Type
  /-- At the first `init`. -/
  | call
  /-- Behind a push, at the test of the loop. -/
  | loop (msg : FixMessage)
  | returned (ret : Bool)
  | faulted (fault : Fault)
  deriving DecidableEq, Repr

/-- Where the handler parses next, on the bytes from `b` up to `stop`. -/
def HandlerPc.position (b stop : Nat) : HandlerPc → Option Nat
  | .call => some b
  | .loop msg => msg.end_.filter (· < stop)
  | .returned _ => none
  | .faulted _ => none

theorem HandlerPc.position_loop {b stop i : Nat} {msg : FixMessage} (ends : msg.end_ = some i)
    (before : i < stop) : (loop msg).position b stop = some i := by
  simp only [position, ends, Option.filter_some, before, decide_true, if_true]

namespace FixHandler

/-- `msg.init( )`, the check of `msg.valid`, the computation of `loss`, and the push. -/
def parse (mem : Mem) (buf len : Nat) (msg : FixMessage) : HandlerPc × Option FixMsg :=
  match msg.init mem with
  | .error fault => (.faulted fault, none)
  | .ok msg =>
      if msg.valid = false then (.returned true, none)
      else
        match msg.end_ with
        | none => (.faulted .nullPointer, none)
        | some end_ =>
            let loss : Int := (buf + len : Nat) - end_
            (.loop msg, some ⟨msg.type, msg.checksum, buf, loss = 0⟩)

/-- One step of `operator( )( session, buf, len )`. The test `loss > 0` before the loop is
the loop's own test `i < buf + len`. -/
def step (mem : Mem) (buf len : Nat) (garbage : StackGarbage) :
    HandlerPc → HandlerPc × Option FixMsg
  | .call => parse mem buf len (.new buf garbage)
  | .loop msg =>
      match msg.end_ with
      | none => (.faulted .nullPointer, none)
      | some i =>
          if i < buf + len then parse mem buf len { msg with begin_ := i }
          else (.returned false, none)
  | pc => (pc, none)

/-- The first `n` steps, with the entries pushed by them. -/
def run (mem : Mem) (buf len : Nat) (garbage : StackGarbage) : Nat → HandlerPc × List FixMsg
  | 0 => (.call, [])
  | n + 1 =>
      let (pc, pushed) := run mem buf len garbage n
      let (pc', entry) := step mem buf len garbage pc
      (pc', pushed ++ entry.toList)

variable {mem : Mem} {buf len : Nat} {garbage : StackGarbage}

/-! ## Inversion of one parse -/

/-- The entry pushed for an accepted message that ends at `end_`. -/
def entryOf (buf len : Nat) (msg : FixMessage) (end_ : Nat) : FixMsg :=
  ⟨msg.type, msg.checksum, buf, end_ = buf + len⟩

theorem parse_accept {msg msg' : FixMessage} {end_ : Nat} (parsed : msg.init mem = .ok msg')
    (valid : msg'.valid = true) (ends : msg'.end_ = some end_) :
    parse mem buf len msg = (.loop msg', some (entryOf buf len msg' end_)) := by
  have loss : (((buf + len : Nat) : Int) - end_ = 0) = (end_ = buf + len) := by
    apply propext
    omega
  simp only [parse, parsed, valid, ends, entryOf, loss, Bool.true_eq_false, if_false]

theorem parse_reject {msg msg' : FixMessage} (parsed : msg.init mem = .ok msg')
    (invalid : msg'.valid = false) : parse mem buf len msg = (.returned true, none) := by
  simp only [parse, parsed, invalid, if_true]

/-- What a parse comes to: where it leads, and what it pushes. -/
inductive Parsed (mem : Mem) (buf len : Nat) (msg : FixMessage) :
    HandlerPc → Option FixMsg → Prop
  | fault (fault : Fault) : Parsed mem buf len msg (.faulted fault) none
  | reject {msg' : FixMessage} : msg.init mem = .ok msg' → msg'.valid = false →
    Parsed mem buf len msg (.returned true) none
  | accept {msg' : FixMessage} (end_ : Nat) : msg.init mem = .ok msg' → msg'.valid = true →
    msg'.end_ = some end_ →
    Parsed mem buf len msg (.loop msg') (some (entryOf buf len msg' end_))

theorem parsed_of_parse {msg : FixMessage} {pc : HandlerPc} {entry : Option FixMsg}
    (parse_ : parse mem buf len msg = (pc, entry)) : Parsed mem buf len msg pc entry := by
  cases init : msg.init mem with
  | error fault =>
      simp only [parse, init] at parse_
      cases parse_
      exact .fault fault
  | ok msg' =>
      cases valid : msg'.valid with
      | false =>
          cases (parse_reject init valid).symm.trans parse_
          exact .reject init valid
      | true =>
          cases ends : msg'.end_ with
          | none =>
              simp only [parse, init, valid, ends, Bool.true_eq_false, if_false] at parse_
              cases parse_
              exact .fault .nullPointer
          | some end_ =>
              cases (parse_accept init valid ends).symm.trans parse_
              exact .accept end_ init valid ends

/-- The loop test computes with a null `end_`. -/
theorem step_null {msg : FixMessage} (ends : msg.end_ = none) :
    step mem buf len garbage (.loop msg) = (.faulted .nullPointer, none) := by
  cases msg
  cases ends
  rfl

/-- The loop test holds. -/
theorem step_before {msg : FixMessage} {i : Nat} (ends : msg.end_ = some i)
    (before : i < buf + len) :
    step mem buf len garbage (.loop msg) = parse mem buf len { msg with begin_ := i } := by
  cases msg
  cases ends
  exact if_pos before

/-- The loop test fails. -/
theorem step_reached {msg : FixMessage} {i : Nat} (ends : msg.end_ = some i)
    (reached : buf + len ≤ i) :
    step mem buf len garbage (.loop msg) = (.returned false, none) := by
  cases msg
  cases ends
  exact if_neg (by omega)

/-- What a step comes to. -/
inductive Stepped (mem : Mem) (buf len : Nat) (garbage : StackGarbage) :
    HandlerPc → HandlerPc → Option FixMsg → Prop
  | call {pc' : HandlerPc} {entry : Option FixMsg} :
    Parsed mem buf len (.new buf garbage) pc' entry → Stepped mem buf len garbage .call pc' entry
  | null {msg : FixMessage} : msg.end_ = none →
    Stepped mem buf len garbage (.loop msg) (.faulted .nullPointer) none
  | next {msg : FixMessage} {pc' : HandlerPc} {entry : Option FixMsg} (i : Nat) :
    msg.end_ = some i → i < buf + len → Parsed mem buf len { msg with begin_ := i } pc' entry →
    Stepped mem buf len garbage (.loop msg) pc' entry
  | leave {msg : FixMessage} (i : Nat) : msg.end_ = some i → buf + len ≤ i →
    Stepped mem buf len garbage (.loop msg) (.returned false) none
  | returned (ret : Bool) : Stepped mem buf len garbage (.returned ret) (.returned ret) none
  | faulted (fault : Fault) : Stepped mem buf len garbage (.faulted fault) (.faulted fault) none

theorem stepped_of_step {pc pc' : HandlerPc} {entry : Option FixMsg}
    (step_ : step mem buf len garbage pc = (pc', entry)) :
    Stepped mem buf len garbage pc pc' entry := by
  cases pc with
  | call => exact .call (parsed_of_parse step_)
  | loop msg =>
      cases ends : msg.end_ with
      | none =>
          cases (step_null ends).symm.trans step_
          exact .null ends
      | some i =>
          rcases Nat.lt_or_ge i (buf + len) with before | reached
          · exact .next i ends before (parsed_of_parse ((step_before ends before).symm.trans step_))
          · cases (step_reached ends reached).symm.trans step_
            exact .leave i ends reached
  | returned ret =>
      cases step_
      exact .returned ret
  | faulted fault =>
      cases step_
      exact .faulted fault

/-- A step that pushes parses. -/
theorem position_of_push {pc pc' : HandlerPc} {e : FixMsg}
    (step_ : step mem buf len garbage pc = (pc', some e)) :
    ∃ i, pc.position buf (buf + len) = some i := by
  cases stepped_of_step step_ with
  | call _ => exact ⟨buf, rfl⟩
  | next i ends before _ => exact ⟨i, HandlerPc.position_loop ends before⟩

/-! ## The messages the loop goes through -/

/-- The loop reuses the object for the message behind the one it holds. -/
def Continues (mem : Mem) (stop : Nat) (msg msg' : FixMessage) : Prop :=
  ∃ i, msg.end_ = some i ∧ i < stop ∧ { msg with begin_ := i }.init mem = .ok msg'

/-- The message objects left by successive accepted parses from `buf` on, each starting
where the one before ended, as long as that is before `stop`. -/
def Deframes (mem : Mem) (buf stop : Nat) (garbage : StackGarbage) (msg : FixMessage) : Prop :=
  ∃ first, (FixMessage.new buf garbage).init mem = .ok first ∧ first.valid = true ∧
    ReflTransGen (Continues mem stop) first msg

/-- The first parse accepts nothing. -/
def Rejects (mem : Mem) (buf : Nat) (garbage : StackGarbage) : Prop :=
  ∃ first, (FixMessage.new buf garbage).init mem = .ok first ∧ first.valid = false

theorem Continues.valid {stop : Nat} {msg msg' : FixMessage}
    (continues : Continues mem stop msg msg') (valid : msg.valid = true) :
    msg'.valid = true := by
  obtain ⟨i, -, -, parsed⟩ := continues
  have moved : FixMessage.valid { msg with begin_ := i } = true := valid
  exact FixMessage.valid_init moved parsed

theorem Deframes.next {stop : Nat} {msg msg' : FixMessage}
    (deframes : Deframes mem buf stop garbage msg) (continues : Continues mem stop msg msg') :
    Deframes mem buf stop garbage msg' := by
  obtain ⟨first, parsed, valid, path⟩ := deframes
  exact ⟨first, parsed, valid, path.tail continues⟩

theorem Deframes.valid {stop : Nat} {msg : FixMessage}
    (deframes : Deframes mem buf stop garbage msg) : msg.valid = true := by
  obtain ⟨first, -, valid, path⟩ := deframes
  induction path with
  | refl => exact valid
  | tail _ continues ih => exact continues.valid ih

/-! ## Runs -/

/-- The entries pushed up to and for `msg`: only the last can be final. -/
def PushedFor (buf len : Nat) (msg : FixMessage) (pushed : List FixMsg) : Prop :=
  ∃ earlier end_, pushed = earlier ++ [entryOf buf len msg end_] ∧ msg.end_ = some end_ ∧
    ∀ e ∈ earlier, e.isFinal = false ∧ e.ptr = buf

/-- What holds where a call stands, with the entries it has pushed. -/
def Traced (mem : Mem) (buf len : Nat) (garbage : StackGarbage) :
    HandlerPc → List FixMsg → Prop
  | .call, pushed => pushed = []
  | .loop msg, pushed =>
      Deframes mem buf (buf + len) garbage msg ∧ PushedFor buf len msg pushed
  | .returned true, pushed => Rejects mem buf garbage ∧ pushed = []
  | .returned false, pushed =>
      ∃ msg end_, Deframes mem buf (buf + len) garbage msg ∧ PushedFor buf len msg pushed ∧
        msg.end_ = some end_ ∧ buf + len ≤ end_
  | .faulted _, _ => True

theorem Traced.step {pc pc' : HandlerPc} {pushed : List FixMsg} {entry : Option FixMsg}
    (traced : Traced mem buf len garbage pc pushed)
    (stepped : Stepped mem buf len garbage pc pc' entry) :
    Traced mem buf len garbage pc' (pushed ++ entry.toList) := by
  cases stepped with
  | call parsed =>
      cases traced
      cases parsed with
      | fault fault => trivial
      | reject init invalid => exact ⟨⟨_, init, invalid⟩, rfl⟩
      | accept end_ init valid ends =>
          exact ⟨⟨_, init, valid, .refl⟩, [], end_, rfl, ends, nofun⟩
  | null ends => trivial
  | @next msg _ _ i ends before parsed =>
      obtain ⟨deframes, earlier, i', rfl, ends', notFinal⟩ := traced
      cases ends.symm.trans ends'
      have valid : FixMessage.valid { msg with begin_ := i } = true := deframes.valid
      cases parsed with
      | fault fault => trivial
      | reject init invalid =>
          rw [FixMessage.valid_init valid init] at invalid
          cases invalid
      | accept end_ init _ ends' =>
          refine ⟨deframes.next ⟨i, ends, before, init⟩, _, end_, rfl, ends', fun e member => ?_⟩
          rcases List.mem_append.mp member with member | member
          · exact notFinal e member
          · rw [List.mem_singleton.mp member]
            exact ⟨decide_eq_false (by omega), rfl⟩
  | leave i ends reached =>
      obtain ⟨deframes, earlier, i', rfl, ends', notFinal⟩ := traced
      cases ends.symm.trans ends'
      exact ⟨_, i, deframes, ⟨earlier, i, List.append_nil _, ends, notFinal⟩, ends, reached⟩
  | returned ret =>
      rw [Option.toList_none, List.append_nil]
      exact traced
  | faulted fault => trivial

/-- Runs. Every run stands where `Traced` says. -/
theorem traced_run (mem : Mem) (buf len : Nat) (garbage : StackGarbage) (n : Nat) :
    Traced mem buf len garbage (run mem buf len garbage n).1 (run mem buf len garbage n).2 := by
  induction n with
  | zero => rfl
  | succ n ih => exact ih.step (stepped_of_step rfl)

/-- `8=F|9=5|35=0|10=062|`. -/
def heartbeat : Mem :=
  [56, 61, 70, 1, 57, 61, 53, 1, 51, 53, 61, 48, 1, 49, 48, 61, 48, 54, 50, 1]

end FixHandler

end OpenFix

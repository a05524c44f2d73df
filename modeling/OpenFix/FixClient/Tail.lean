import OpenFix.FixClient.Handler
import OpenFix.FixParse.Extent

/-!
# Bytes behind the read

The handler passes only `buf` to the parser, and the buffers of the pool are never cleared,
so the bytes behind the `len` received ones take part in the parse. `run_tail_iff` says
when they make no difference to what a caller and a consumer see: exactly when no parse of
the received bytes alone runs off their end.
-/

namespace OpenFix

open Relation (ReflTransGen)

namespace FixHandler

variable {p : Mem} {buf len : Nat} {garbage : StackGarbage}

/-- What a caller sees of a call: nothing yet, a returned value, or a fault. -/
def outcome : HandlerPc → Option (Except Fault Bool)
  | .call => none
  | .loop _ => none
  | .returned ret => some (.ok ret)
  | .faulted fault => some (.error fault)

/-- What a caller and a consumer see of a run. -/
def seen (state : HandlerPc × List FixMsg) :
    Option (Except Fault Bool) × List (UInt8 × UInt8 × Bool) :=
  (outcome state.1, state.2.map fun e => (e.type, e.checksum, e.isFinal))

/-- No parse of a call on the bytes `p` alone, which end where the read ended, runs off
their end. -/
def ReadsInside (p : Mem) (buf len : Nat) (garbage : StackGarbage) : Prop :=
  Inside ((FixMessage.new buf garbage).init p) ∧
    ∀ msg i, Deframes p buf (buf + len) garbage msg → msg.end_ = some i → i < buf + len →
      Inside (FixMessage.init p { msg with begin_ := i })

theorem parse_append {msg : FixMessage} (inside : Inside (msg.init p)) (t : Mem) :
    parse (p ++ t) buf len msg = parse p buf len msg := by
  unfold parse
  rw [FixMessage.init_append inside t]

/-- A parse ends in an overrun exactly when its `init` does. -/
theorem parse_overrun_iff {mem : Mem} {msg : FixMessage} :
    outcome (parse mem buf len msg).1 = some (.error .overrun) ↔ ¬ Inside (msg.init mem) := by
  unfold parse Inside
  rw [not_not]
  cases parsed : msg.init mem with
  | error fault =>
      constructor
      · intro faulted
        cases faulted
        rfl
      · intro overrun
        cases overrun
        rfl
  | ok msg' =>
      refine ⟨fun faulted => ?_, nofun⟩
      dsimp only at faulted
      split at faulted
      case isTrue => cases faulted
      case isFalse =>
        split at faulted
        case h_1 => cases faulted
        case h_2 => cases faulted

/-! ## Runs that stay inside -/

theorem step_append (inside : ReadsInside p buf len garbage) {n : Nat} (t : Mem) :
    step (p ++ t) buf len garbage (run p buf len garbage n).1 =
      step p buf len garbage (run p buf len garbage n).1 := by
  have traced := traced_run p buf len garbage n
  generalize run p buf len garbage n = state at traced
  rcases state with ⟨pc, pushed⟩
  cases pc with
  | call => exact parse_append inside.1 t
  | loop msg =>
      rcases traced with ⟨deframes, _, i, -, ends, -⟩
      rcases Nat.lt_or_ge i (buf + len) with before | reached
      · rw [step_before ends before, step_before ends before]
        exact parse_append (inside.2 msg i deframes ends before) t
      · rw [step_reached ends reached, step_reached ends reached]
  | returned ret => rfl
  | faulted fault => rfl

theorem run_append (inside : ReadsInside p buf len garbage) (t : Mem) (n : Nat) :
    run (p ++ t) buf len garbage n = run p buf len garbage n := by
  induction n with
  | zero => rfl
  | succ n ih =>
      unfold run
      rw [ih]
      dsimp only
      rw [step_append inside t]

/-! ## Runs that leave -/

/-- A message of the chain on `p` alone is reached with every tail, at the same step. -/
theorem exists_run_of_deframes {msg : FixMessage}
    (deframes : Deframes p buf (buf + len) garbage msg) :
    ∃ n, ∀ t, (run (p ++ t) buf len garbage n).1 = .loop msg := by
  have reach (msg : FixMessage) (n : Nat) (t : Mem) (msg' : FixMessage) (ended : msg.Ended)
      (stepped : step (p ++ t) buf len garbage (run (p ++ t) buf len garbage n).1 =
        parse (p ++ t) buf len msg) (parsed : msg.init p = .ok msg')
      (valid : msg'.valid = true) : (run (p ++ t) buf len garbage (n + 1)).1 = .loop msg' := by
    have inside : Inside (msg.init p) := by
      rw [parsed]
      exact nofun
    rcases ended.init parsed valid with ⟨end_, ends⟩
    unfold run
    dsimp only
    rw [stepped, parse_append inside t, parse_accept parsed valid ends]
  rcases deframes with ⟨first, parsed, valid, path⟩
  have ended := (FixMessage.ended_new buf garbage).init parsed
  have all : ∃ n, (∀ t, (run (p ++ t) buf len garbage n).1 = .loop msg) ∧
      msg.valid = true ∧ msg.Ended := by
    induction path with
    | refl =>
        exact ⟨1, fun t => reach _ 0 t first (FixMessage.ended_new buf garbage) rfl parsed valid,
          valid, ended⟩
    | @tail msg msg' _ continues ih =>
        rcases ih with ⟨n, at_, valid, ended⟩
        have valid' := continues.valid valid
        rcases continues with ⟨i, ends, before, parsed⟩
        have moved : FixMessage.Ended { msg with begin_ := i } := ended
        refine ⟨n + 1, fun t => reach _ n t msg' moved ?_ parsed valid', valid',
          moved.init parsed⟩
        rw [at_ t, step_before ends before]
  rcases all with ⟨n, at_, -, -⟩
  exact ⟨n, at_⟩

/-- A parse of a call that runs off the end of `p`: the tails of digits and of zeros show
different outcomes. -/
theorem seen_differ {msg : FixMessage} {n k : Nat} (long : 2 ^ 31 ≤ k)
    (begins : msg.begin_ ≤ p.length) (overrun : ¬ Inside (msg.init p))
    (stepped : ∀ t, step (p ++ t) buf len garbage (run (p ++ t) buf len garbage n).1 =
      parse (p ++ t) buf len msg) :
    seen (run (p ++ List.replicate k 48) buf len garbage (n + 1)) ≠
      seen (run (p ++ List.replicate k 0) buf len garbage (n + 1)) := by
  have last (t : Mem) : (seen (run (p ++ t) buf len garbage (n + 1))).1 =
      outcome (parse (p ++ t) buf len msg).1 := by
    unfold seen run
    dsimp only
    rw [stepped t]
  intro same
  have outcomes := congrArg Prod.fst same
  rw [last, last] at outcomes
  have digits : ¬ Inside (msg.init (p ++ List.replicate k 48)) := by
    rwa [FixMessage.init_digits]
  rw [parse_overrun_iff.mpr digits] at outcomes
  exact parse_overrun_iff.mp outcomes.symm (FixMessage.init_zeros msg long begins)

/-- **Bytes behind the read.** For received bytes ending at `p.length = buf + len`: all
equally long tails, from any length on, show the same return value and the same entries,
step by step, if and only if the call reads inside `p`. -/
theorem run_tail_iff (p : Mem) (buf len : Nat) (garbage : StackGarbage) (least : Nat)
    (read : p.length = buf + len) :
    (∀ t t' : Mem, least ≤ t.length → t.length = t'.length → ∀ n,
      seen (run (p ++ t) buf len garbage n) = seen (run (p ++ t') buf len garbage n)) ↔
      ReadsInside p buf len garbage := by
  constructor
  · intro same
    have alike (k n : Nat) (long : least ≤ k) :
        seen (run (p ++ List.replicate k 48) buf len garbage n) =
          seen (run (p ++ List.replicate k 0) buf len garbage n) := by
      apply same
      · rwa [List.length_replicate]
      · rw [List.length_replicate, List.length_replicate]
    have large : 2 ^ 31 ≤ least + 2 ^ 31 := Nat.le_add_left _ _
    constructor
    · by_contra overrun
      have begins : (FixMessage.new buf garbage).begin_ ≤ p.length := by
        rw [read]
        exact Nat.le_add_right buf len
      exact seen_differ (n := 0) large begins overrun (fun _ => rfl)
        (alike _ _ (Nat.le_add_right _ _))
    · intro msg i deframes ends before
      by_contra overrun
      rcases exists_run_of_deframes deframes with ⟨n, at_⟩
      have begins : FixMessage.begin_ { msg with begin_ := i } ≤ p.length := by
        rw [read]
        exact Nat.le_of_lt before
      refine seen_differ (n := n) large begins overrun (fun t => ?_)
        (alike _ _ (Nat.le_add_right _ _))
      rw [at_ t, step_before ends before]
  · intro inside t t' _ _ n
    rw [run_append inside t, run_append inside t']

/-- A read of two messages, the second one cut off. -/
theorem run_tail_heartbeat :
    (∀ t t' : Mem, 100 ≤ t.length → t.length = t'.length → ∀ n,
      seen (run ((heartbeat ++ [56, 61, 70]) ++ t) 0 23 ⟨0, 0⟩ n) =
        seen (run ((heartbeat ++ [56, 61, 70]) ++ t') 0 23 ⟨0, 0⟩ n)) ↔
      ReadsInside (heartbeat ++ [56, 61, 70]) 0 23 ⟨0, 0⟩ :=
  run_tail_iff (heartbeat ++ [56, 61, 70]) 0 23 ⟨0, 0⟩ 100 rfl

/-- A message cut off before its last byte is accepted when that byte is still in the
buffer, and rejected when a zero is. -/
theorem run_tail_stale :
    ¬ ∀ (p : Mem) (buf len : Nat) (garbage : StackGarbage) (t t' : Mem),
      p.length = buf + len → t.length = t'.length → ∀ n,
        seen (run (p ++ t) buf len garbage n) = seen (run (p ++ t') buf len garbage n) := by
  intro same
  have differ := same (heartbeat.take 19) 0 19 ⟨0, 0⟩ [1, 0] [0, 0] (by decide) (by decide) 2
  revert differ
  decide +kernel

end FixHandler

end OpenFix

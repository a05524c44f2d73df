import Mathlib.Data.Nat.ModEq
import Mathlib.Logic.Function.Basic
import Mathlib.Tactic.Common
import OpenFix.Lib.Transition

/-!
# Sequence locks

One writer saves a record member by member while any number of readers load it, and nobody
waits. The writer makes a counter odd, stores the members and makes the counter even again. A
reader loads the counter without its last bit, loads the members, and starts again unless the
counter is then what it loaded. Between their two accesses to the counter both may go through
the members in any order. The counter wraps.

* `Sound`: what holds in every state of a run.
* `fresh_of_accept`: what a reader returns is the record saved last, unless the counter has gone
  round since its first load.
* `remaining_alone`, `exists_own_step`: a reader that runs alone returns, after a number of
  steps that is known.
-/

namespace Seqlock

/-- The members, and the number of saves that bring the counter back to where it was. -/
structure Layout (κ : Type) : Type where
  fields : List κ
  half : Nat
  complete : ∀ k, k ∈ fields
  half_pos : 0 < half

/-- The counter runs through `[ 0, 2 * half )`. -/
def Layout.wrap {κ : Type} (L : Layout κ) (n : Nat) : Nat := n % (2 * L.half)

/-- A counter without its last bit. -/
def evenPart (n : Nat) : Nat := 2 * (n / 2)

variable {κ : Type} (Value : κ → Type)

/-- Where the writer stands, with the record it saves. -/
inductive Writer : Type
  | idle
  /-- Behind the load of the counter. -/
  | loaded (value : (k : κ) → Value k) (seq : Nat)
  /-- Between the two stores to the counter, with the members it has still to store. -/
  | storing (value : (k : κ) → Value k) (seq : Nat) (left : List κ)

/-- Where a reader stands. `since` remembers how many saves had ended at its first load. -/
inductive Reader : Type
  | idle
  | start
  /-- Between the two loads of the counter, with the members still to load and those loaded. -/
  | loading (before : Nat) (left : List κ) (got : (k : κ) → Option (Value k)) (since : Nat)
  | returned (value : (k : κ) → Value k)

/-- The counter and the members, and where each thread stands. `latest` remembers the record
saved last, and `saves` how many saves have ended. -/
structure State (ι : Type) : Type where
  seq : Nat
  cell : (k : κ) → Value k
  writer : Writer Value
  readers : ι → Reader Value
  latest : (k : κ) → Value k
  saves : Nat

inductive Act (ι : Type) : Type
  | begin (value : (k : κ) → Value k)
  | odd
  | store (k : κ)
  | even
  | call (i : ι)
  | first (i : ι)
  | load (i : ι) (k : κ)
  | accept (i : ι)
  | retry (i : ι)

variable {Value} {ι : Type}

/-- Before the first save. -/
def State.initial (cell : (k : κ) → Value k) : State Value ι where
  seq := 0
  cell := cell
  writer := .idle
  readers := fun _ => .idle
  latest := cell
  saves := 0

section Steps

variable [DecidableEq ι]

/-- Reader `i` moves. -/
def State.move (s : State Value ι) (i : ι) (reader : Reader Value) : State Value ι :=
  { s with readers := Function.update s.readers i reader }

@[simp] theorem State.move_self (s : State Value ι) (i : ι) (reader : Reader Value) :
    (s.move i reader).readers i = reader :=
  Function.update_self ..

theorem State.move_of_ne (s : State Value ι) {i j : ι} (reader : Reader Value) (other : j ≠ i) :
    (s.move i reader).readers j = s.readers j :=
  Function.update_of_ne other ..

variable [DecidableEq κ]

/-- One access of the writer or of a reader to what they share. -/
inductive Step (L : Layout κ) : State Value ι → Act Value ι → State Value ι → Prop
  | begin {s : State Value ι} (value : (k : κ) → Value k) : s.writer = .idle →
    Step L s (.begin value) { s with writer := .loaded value s.seq }
  | odd {s : State Value ι} {value : (k : κ) → Value k} {seq : Nat} :
    s.writer = .loaded value seq →
    Step L s .odd
      { s with seq := L.wrap (seq + 1), writer := .storing value (L.wrap (seq + 1)) L.fields }
  | store {s : State Value ι} {value : (k : κ) → Value k} {seq : Nat} {left : List κ} {k : κ} :
    s.writer = .storing value seq left → k ∈ left →
    Step L s (.store k)
      { s with
        cell := Function.update s.cell k (value k)
        writer := .storing value seq (left.erase k) }
  | even {s : State Value ι} {value : (k : κ) → Value k} {seq : Nat} :
    s.writer = .storing value seq [] →
    Step L s .even
      { s with
        seq := L.wrap (seq + 1)
        writer := .idle
        latest := value
        saves := s.saves + 1 }
  | call {s : State Value ι} {i : ι} :
    (s.readers i = .idle ∨ ∃ value, s.readers i = .returned value) →
    Step L s (.call i) (s.move i .start)
  | first {s : State Value ι} {i : ι} : s.readers i = .start →
    Step L s (.first i)
      (s.move i (.loading (evenPart s.seq) L.fields (fun _ => none) s.saves))
  | load {s : State Value ι} {i : ι} {before since : Nat} {left : List κ}
    {got : (k : κ) → Option (Value k)} {k : κ} :
    s.readers i = .loading before left got since → k ∈ left →
    Step L s (.load i k)
      (s.move i (.loading before (left.erase k) (Function.update got k (some (s.cell k))) since))
  | accept {s : State Value ι} {i : ι} {before since : Nat} {value : (k : κ) → Value k} :
    s.readers i = .loading before [] (fun k => some (value k)) since → s.seq = before →
    Step L s (.accept i) (s.move i (.returned value))
  | retry {s : State Value ι} {i : ι} {before since : Nat} {got : (k : κ) → Option (Value k)} :
    s.readers i = .loading before [] got since → s.seq ≠ before →
    Step L s (.retry i) (s.move i .start)

end Steps

/-! ## The counter -/

variable {L : Layout κ}

theorem wrap_double (L : Layout κ) (n : Nat) : L.wrap (2 * n) = 2 * (n % L.half) :=
  Nat.mul_mod_mul_left 2 n L.half

theorem wrap_double_succ (L : Layout κ) (n : Nat) : L.wrap (2 * n + 1) = 2 * (n % L.half) + 1 := by
  have below : n % L.half < L.half := Nat.mod_lt n L.half_pos
  have split : 2 * n + 1 = 2 * L.half * (n / L.half) + (2 * (n % L.half) + 1) := by
    conv_lhs => rw [← Nat.div_add_mod n L.half]
    rw [Nat.mul_add, Nat.mul_assoc, Nat.add_assoc]
  rw [Layout.wrap, split, Nat.mul_add_mod, Nat.mod_eq_of_lt (by omega)]

theorem wrap_wrap_succ (L : Layout κ) (n : Nat) : L.wrap (L.wrap n + 1) = L.wrap (n + 1) :=
  Nat.mod_add_mod n (2 * L.half) 1

theorem even_wrap (L : Layout κ) (n : Nat) :
    evenPart (L.wrap (2 * n)) = L.wrap (2 * n) ∧
      evenPart (L.wrap (2 * n + 1)) = L.wrap (2 * n) := by
  rw [wrap_double_succ, wrap_double]
  unfold evenPart
  omega

/-! ## What holds in a run -/

/-- The writer is not between its two stores to the counter. -/
def Writer.quiet : Writer Value → Bool
  | .storing _ _ _ => false
  | _ => true

/-- The counter and the members, by where the writer stands. -/
def Writer.Sound (L : Layout κ) (s : State Value ι) : Writer Value → Prop
  | .idle => s.seq = L.wrap (2 * s.saves) ∧ s.cell = s.latest
  | .loaded _ seq => s.seq = L.wrap (2 * s.saves) ∧ s.cell = s.latest ∧ seq = s.seq
  | .storing value seq left =>
      s.seq = L.wrap (2 * s.saves + 1) ∧ seq = s.seq ∧ ∀ k, k ∉ left → s.cell k = value k

/-- What a reader has loaded. As long as no save has begun to store since its first load, the
members are those of the record saved last. -/
def Reader.Sound (L : Layout κ) (s : State Value ι) : Reader Value → Prop
  | .loading before left got since =>
      left.length ≤ L.fields.length ∧ since ≤ s.saves ∧ before = L.wrap (2 * since) ∧
        (∀ k, k ∉ left → (got k).isSome) ∧
        (since = s.saves → s.writer.quiet = true → ∀ k, k ∉ left → got k = some (s.latest k))
  | _ => True

structure Sound (L : Layout κ) (s : State Value ι) : Prop where
  writer : s.writer.Sound L s
  readers : ∀ i, (s.readers i).Sound L s

variable {s s' : State Value ι} {a : Act Value ι} {i : ι}

theorem sound_initial (cell : (k : κ) → Value k) :
    Sound L (State.initial cell : State Value ι) :=
  ⟨⟨(Nat.zero_mod _).symm, rfl⟩, fun _ => trivial⟩

/-- Between two saves the counter is even and the members are those saved last. -/
theorem Sound.of_quiet (sound : Sound L s) (quiet : s.writer.quiet = true) :
    s.seq = L.wrap (2 * s.saves) ∧ s.cell = s.latest := by
  have writer := sound.writer
  cases at_ : s.writer with
  | idle =>
      rw [at_] at writer
      exact writer
  | loaded value seq =>
      rw [at_] at writer
      exact ⟨writer.1, writer.2.1⟩
  | storing value seq left =>
      rw [at_] at quiet
      cases quiet

/-- A first load sees the counter of the saves that have ended. -/
theorem Sound.even_seq (sound : Sound L s) : evenPart s.seq = L.wrap (2 * s.saves) := by
  have writer := sound.writer
  cases at_ : s.writer with
  | idle =>
      rw [at_] at writer
      rw [writer.1, (even_wrap L _).1]
  | loaded value seq =>
      rw [at_] at writer
      rw [writer.1, (even_wrap L _).1]
  | storing value seq left =>
      rw [at_] at writer
      rw [writer.1, (even_wrap L _).2]

theorem Sound.even_of_quiet (sound : Sound L s) (quiet : s.writer.quiet = true) :
    evenPart s.seq = s.seq := by
  rw [sound.even_seq, (sound.of_quiet quiet).1]

/-- The writer moves without ending a save: what the readers have loaded is as good as before,
unless the writer has begun to store. -/
theorem Reader.Sound.keep {reader : Reader Value} (sound : reader.Sound L s)
    (saves : s'.saves = s.saves) (latest : s'.latest = s.latest)
    (quiet : s'.writer.quiet = true → s.writer.quiet = true) : reader.Sound L s' := by
  cases reader with
  | loading before left got since =>
      obtain ⟨short, past, begun, loaded, fresh⟩ := sound
      refine ⟨short, saves ▸ past, begun, loaded, fun same calm k done => ?_⟩
      rw [latest]
      exact fresh (same.trans saves) (quiet calm) k done
  | _ => trivial

/-- What a reader returns. It is the record saved last, and no save is on its way through
the members; or the counter has gone round since the first load. -/
theorem fresh_of_accept {before since : Nat} {value : (k : κ) → Value k} (sound : Sound L s)
    (at_ : s.readers i = .loading before [] (fun k => some (value k)) since)
    (same : s.seq = before) :
    (value = s.latest ∧ s.writer.quiet = true ∧ s.saves = since) ∨ since + L.half ≤ s.saves := by
  have reader := sound.readers i
  rw [at_] at reader
  obtain ⟨-, past, begun, -, fresh⟩ := reader
  rw [begun, wrap_double] at same
  cases quiet : s.writer.quiet with
  | false =>
      -- the counter is odd, and the one loaded first is not
      have writer := sound.writer
      cases writing : s.writer with
      | storing stored seq left =>
          rw [writing] at writer
          have odd := writer.1
          rw [wrap_double_succ] at odd
          omega
      | _ =>
          rw [writing] at quiet
          cases quiet
  | true =>
      rw [(sound.of_quiet quiet).1, wrap_double] at same
      rcases Nat.eq_or_lt_of_le past with now | later
      · refine .inl ⟨funext fun k => ?_, rfl, now.symm⟩
        exact Option.some.inj (fresh now quiet k List.not_mem_nil)
      · refine .inr ?_
        have divides : L.half ∣ s.saves - since :=
          (Nat.modEq_iff_dvd' past).mp (Nat.eq_of_mul_eq_mul_left Nat.two_pos same.symm)
        have round := Nat.le_of_dvd (Nat.sub_pos_of_lt later) divides
        omega

variable [DecidableEq ι]

/-- A reader moves, and nothing else does. -/
theorem Sound.move (sound : Sound L s) {reader : Reader Value} (moved : reader.Sound L s) :
    Sound L (s.move i reader) := by
  refine ⟨?_, fun j => ?_⟩
  · have writer := sound.writer
    unfold State.move
    cases at_ : s.writer with
    | _ =>
        rw [at_] at writer
        exact writer
  · by_cases here : j = i
    · subst here
      rw [State.move_self]
      exact moved.keep rfl rfl id
    · rw [s.move_of_ne reader here]
      exact (sound.readers j).keep rfl rfl id

variable [DecidableEq κ]

/-- Behind an access to `k`: what held of the members out of `left` holds of `k` too. -/
theorem forall_update_erase {V : κ → Type} {p : (k : κ) → V k → Prop} {left : List κ}
    {f : (k : κ) → V k} {k : κ} {v : V k} (others : ∀ j, j ∉ left → p j (f j)) (one : p k v)
    (j : κ) (out : j ∉ left.erase k) : p j (Function.update f k v j) := by
  by_cases here : j = k
  · subst here
    rw [Function.update_self]
    exact one
  · rw [Function.update_of_ne here]
    exact others j fun within => out ((List.mem_erase_of_ne here).mpr within)

/-- A step. -/
theorem Step.sound (sound : Sound L s) (stepped : Step L s a s') : Sound L s' := by
  cases stepped with
  | begin value at_ =>
      have writer := sound.writer
      rw [at_] at writer
      refine ⟨⟨writer.1, writer.2, rfl⟩, fun i => (sound.readers i).keep rfl rfl fun _ => ?_⟩
      rw [at_]
      rfl
  | @odd value seq at_ =>
      have writer := sound.writer
      rw [at_] at writer
      obtain ⟨counter, members, same⟩ := writer
      have next : L.wrap (seq + 1) = L.wrap (2 * s.saves + 1) := by
        rw [same, counter, wrap_wrap_succ]
      refine ⟨⟨next, rfl, fun k out => absurd (L.complete k) out⟩, fun i => ?_⟩
      exact (sound.readers i).keep rfl rfl fun quiet => absurd quiet Bool.false_ne_true
  | @store value seq left k at_ member =>
      have writer := sound.writer
      rw [at_] at writer
      obtain ⟨counter, same, stored⟩ := writer
      refine ⟨⟨counter, same, ?_⟩, fun i => ?_⟩
      · exact forall_update_erase (p := fun j w => w = value j) stored rfl
      · exact (sound.readers i).keep rfl rfl fun quiet => absurd quiet Bool.false_ne_true
  | @even value seq at_ =>
      have writer := sound.writer
      rw [at_] at writer
      obtain ⟨counter, same, stored⟩ := writer
      have next : L.wrap (seq + 1) = L.wrap (2 * (s.saves + 1)) := by
        rw [same, counter, wrap_wrap_succ]
        rfl
      refine ⟨⟨next, funext fun k => stored k List.not_mem_nil⟩, fun i => ?_⟩
      have reader := sound.readers i
      show (s.readers i).Sound L _
      cases loading : s.readers i with
      | loading before left got since =>
          rw [loading] at reader
          obtain ⟨short, past, begun, loaded, -⟩ := reader
          refine ⟨short, Nat.le_succ_of_le past, begun, loaded, fun again => ?_⟩
          exact absurd (Nat.le_of_eq again.symm |>.trans past) (Nat.not_succ_le_self s.saves)
      | _ => trivial
  | call at_ => exact sound.move trivial
  | @first i at_ =>
      refine sound.move
        ⟨Nat.le_refl _, Nat.le_refl _, sound.even_seq, fun k out => ?_, fun _ _ k out => ?_⟩
      · exact absurd (L.complete k) out
      · exact absurd (L.complete k) out
  | @load i before since left got k at_ member =>
      have reader := sound.readers i
      rw [at_] at reader
      obtain ⟨short, past, begun, loaded, fresh⟩ := reader
      have shorter : (left.erase k).length ≤ L.fields.length := List.length_erase_le.trans short
      refine sound.move ⟨shorter, past, begun, ?_, fun same quiet => ?_⟩
      · exact forall_update_erase (p := fun _ w => Option.isSome w) loaded rfl
      · refine forall_update_erase (p := fun j w => w = some (s.latest j)) (fresh same quiet) ?_
        rw [(sound.of_quiet quiet).2]
  | accept at_ same => exact sound.move trivial
  | retry at_ other => exact sound.move trivial

open Transition (Reaches)

variable {cond : State Value ι → Act Value ι → Prop} {cell : (k : κ) → Value k}

theorem sound_of_reaches (reaches : Reaches (Step L) cond (State.initial cell) s) : Sound L s := by
  apply reaches.invariant (sound_initial cell)
  intro s a s' _ sound _ stepped
  exact stepped.sound sound

/-! ## A reader alone -/

/-- The steps of a call of reader `i`. -/
def Act.own (i : ι) : Act Value ι → Bool
  | .first j => j = i
  | .load j _ => j = i
  | .accept j => j = i
  | .retry j => j = i
  | _ => false

/-- How many steps a reader has still to take when the counter stays as it is. -/
def Reader.remaining (L : Layout κ) (seq : Nat) : Reader Value → Nat
  | .start => L.fields.length + 2
  | .loading before left _ _ =>
      left.length + 1 + if seq = before then 0 else L.fields.length + 2
  | _ => 0

def State.remaining (L : Layout κ) (s : State Value ι) (i : ι) : Nat :=
  (s.readers i).remaining L s.seq

omit [DecidableEq κ] in
theorem State.remaining_move (s : State Value ι) (i : ι) (reader : Reader Value) :
    (s.move i reader).remaining L i = reader.remaining L s.seq := by
  rw [State.remaining, State.move_self]
  rfl

/-- A step of the reader is one of those that remain, and leaves the rest as it was. -/
theorem Step.own (even_ : evenPart s.seq = s.seq) (stepped : Step L s a s')
    (own : a.own i = true) :
    s'.remaining L i + 1 = s.remaining L i ∧ s'.writer = s.writer ∧ s'.latest = s.latest ∧
      s'.saves = s.saves := by
  cases stepped with
  | @first j at_ =>
      obtain rfl : j = i := of_decide_eq_true own
      refine ⟨?_, rfl, rfl, rfl⟩
      rw [State.remaining_move, State.remaining, at_]
      simp only [Reader.remaining, even_, if_true]
  | @load j before since left got k at_ member =>
      obtain rfl : j = i := of_decide_eq_true own
      refine ⟨?_, rfl, rfl, rfl⟩
      have some_ := List.length_pos_of_mem member
      rw [State.remaining_move, State.remaining, at_]
      simp only [Reader.remaining, List.length_erase_of_mem member]
      omega
  | @accept j before since value at_ same =>
      obtain rfl : j = i := of_decide_eq_true own
      refine ⟨?_, rfl, rfl, rfl⟩
      rw [State.remaining_move, State.remaining, at_]
      simp only [Reader.remaining, same, if_true, List.length_nil]
  | @retry j before since got at_ other =>
      obtain rfl : j = i := of_decide_eq_true own
      refine ⟨?_, rfl, rfl, rfl⟩
      rw [State.remaining_move, State.remaining, at_]
      simp only [Reader.remaining, other, if_false, List.length_nil]
      omega
  | _ => cases own

/-- A reader in a call can always take a step. -/
theorem exists_own_step (sound : Sound L s) (some_ : s.remaining L i ≠ 0) :
    ∃ a s', Act.own i a = true ∧ Step L s a s' := by
  have reader := sound.readers i
  unfold State.remaining at some_
  cases at_ : s.readers i with
  | idle =>
      rw [at_] at some_
      exact absurd rfl some_
  | returned value =>
      rw [at_] at some_
      exact absurd rfl some_
  | start => exact ⟨.first i, _, decide_eq_true rfl, .first at_⟩
  | loading before left got since =>
      cases left with
      | cons k left => exact ⟨.load i k, _, decide_eq_true rfl, .load at_ List.mem_cons_self⟩
      | nil =>
          rw [at_] at reader
          obtain ⟨-, -, -, loaded, -⟩ := reader
          have full : got = fun k => some ((got k).get (loaded k List.not_mem_nil)) :=
            funext fun k => (Option.some_get _).symm
          by_cases same : s.seq = before
          · rw [full] at at_
            exact ⟨.accept i, _, decide_eq_true rfl, .accept at_ same⟩
          · exact ⟨.retry i, _, decide_eq_true rfl, .retry at_ same⟩

/-- A call that runs alone comes to its `accept`. -/
theorem exists_accept (sound : Sound L s) (quiet : s.writer.quiet = true)
    (some_ : s.remaining L i ≠ 0) :
    ∃ t t', Reaches (Step L) (fun _ a => a.own i = true) s t ∧ Step L t (.accept i) t' ∧
      t.latest = s.latest ∧ t.saves = s.saves := by
  induction steps : s.remaining L i generalizing s with
  | zero => exact absurd steps some_
  | succ n ih =>
      obtain ⟨a, s', own, stepped⟩ := exists_own_step sound some_
      obtain ⟨fewer, writer, latest, saves⟩ := stepped.own (sound.even_of_quiet quiet) own
      by_cases more : s'.remaining L i = 0
      · cases stepped with
        | @accept j before since value at_ same =>
            obtain rfl : j = i := of_decide_eq_true own
            exact ⟨s, _, .start, .accept at_ same, rfl, rfl⟩
        | @first j at_ =>
            obtain rfl : j = i := of_decide_eq_true own
            rw [State.remaining_move, Reader.remaining] at more
            omega
        | @load j before since left got k at_ member =>
            obtain rfl : j = i := of_decide_eq_true own
            rw [State.remaining_move, Reader.remaining] at more
            omega
        | @retry j before since got at_ other =>
            obtain rfl : j = i := of_decide_eq_true own
            rw [State.remaining_move] at more
            cases more
        | _ => cases own
      · obtain ⟨t, t', run, accepts, latest', saves'⟩ :=
          ih (stepped.sound sound) (writer ▸ quiet) more (by omega)
        have first : Reaches (Step L) (fun _ a => a.own i = true) s s' := .next .start own stepped
        exact ⟨t, t', first.trans run, accepts, latest'.trans latest, saves'.trans saves⟩

/-- The counter has gone round since the first load of reader `i`. -/
def Stale (L : Layout κ) (s : State Value ι) (i : ι) : Prop :=
  ∃ before left got since, s.readers i = .loading before left got since ∧ since + L.half ≤ s.saves

/-- Where the call of `i` stands that it was in at `s`. -/
structure Alone (L : Layout κ) (s : State Value ι) (i : ι) (t : State Value ι) : Prop where
  sound : Sound L t
  quiet : t.writer.quiet = true
  latest : t.latest = s.latest
  inCall : t.readers i ≠ .idle
  stale : Stale L t i → Stale L s i
  result : ∀ value, t.readers i = .returned value → value = s.latest ∨ Stale L s i

omit [DecidableEq κ] in
/-- The reader moves on in its call. -/
theorem Alone.move {t : State Value ι} {reader : Reader Value} (alone : Alone L s i t)
    (sound : Sound L (t.move i reader)) (inCall : reader ≠ .idle)
    (stale : ∀ before left got since, reader = .loading before left got since →
      since + L.half ≤ t.saves → Stale L s i)
    (result : ∀ value, reader = .returned value → value = s.latest ∨ Stale L s i) :
    Alone L s i (t.move i reader) := by
  refine ⟨sound, alone.quiet, alone.latest, ?_, ?_, ?_⟩
  · rw [State.move_self]
    exact inCall
  · rintro ⟨before, left, got, since, at_, round⟩
    rw [State.move_self] at at_
    exact stale before left got since at_ round
  · intro value returned
    rw [State.move_self] at returned
    exact result value returned

theorem Alone.step {t t' : State Value ι} (alone : Alone L s i t) (own : a.own i = true)
    (stepped : Step L t a t') : Alone L s i t' := by
  have sound := stepped.sound alone.sound
  cases stepped with
  | @first j at_ =>
      obtain rfl : j = i := of_decide_eq_true own
      refine alone.move sound (by intro idle; cases idle) ?_ (by intro value same; cases same)
      intro before left got since same round
      cases same
      exact absurd round (Nat.not_le.mpr (Nat.lt_add_of_pos_right L.half_pos))
  | @load j before since left got k at_ member =>
      obtain rfl : j = i := of_decide_eq_true own
      refine alone.move sound (by intro idle; cases idle) ?_ (by intro value same; cases same)
      intro before left got since same round
      cases same
      exact alone.stale ⟨_, _, _, _, at_, round⟩
  | @accept j before since value at_ counter =>
      obtain rfl : j = i := of_decide_eq_true own
      refine alone.move sound (by intro idle; cases idle)
        (by intro before left got since same; cases same) ?_
      intro value' same
      cases same
      rcases fresh_of_accept alone.sound at_ counter with ⟨fresh, -, -⟩ | round
      · exact .inl (fresh.trans alone.latest)
      · exact .inr (alone.stale ⟨_, _, _, _, at_, round⟩)
  | @retry j before since got at_ other =>
      obtain rfl : j = i := of_decide_eq_true own
      exact alone.move sound (by intro idle; cases idle)
        (by intro before left got since same; cases same) (by intro value same; cases same)
  | _ => cases own

end Seqlock

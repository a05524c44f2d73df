import Mathlib.Tactic.IntervalCases
import OpenFix.Lib.Seqlock

/-!
# `TSCNS`

The clock of `tscns.h`: nanoseconds from the time stamp counter by a base and a slope, which
`calibrate( )` replaces while other threads call `tsc2ns`. `double` is a parameter, with the four
expressions the class computes in it; `int64_t` does not overflow. The build is not that of MSVC.

* `syncTime_close`: what a calibration starts from.
* `tsc2ns_fresh`: between `saveParam` and `tsc2ns` no call mixes two bases or slopes.
* `tsc2ns_returns`: and none waits for a thread that stands still outside `saveParam`.
-/

namespace OpenFix

namespace Tscns

open Seqlock
open Transition (Reaches always counted)

/-- `double`: `(int64_t)( d * r )`, `(int64_t)( d / r )`, `(double)d / e`, and
`r * ( 1.0 - (double)d / e )`. -/
structure Double (F : Type) : Type where
  scale : Int → F → Int
  unscale : Int → F → Int
  quotient : Int → Int → F
  correct : F → Int → Int → F

/-! ## `syncTime` -/

/-- `N`. -/
def trials : Nat := 3

/-- The loop over the trials behind the first, from `i` on. -/
def bestFrom (tsc : Nat → Int) : Nat → Nat → Nat → Nat
  | 0, _, best => best
  | n + 1, i, best =>
      bestFrom tsc n (i + 1)
        (if tsc i - tsc (i - 1) < tsc best - tsc (best - 1) then i else best)

/-- `syncTime`, for what `rdtsc( )` and `rdsysns( )` return in its `N` trials. -/
def syncTime (tsc ns : Nat → Int) : Int × Int :=
  let best := bestFrom tsc (trials - 1) 2 1
  ((tsc best + tsc (best - 1)) >>> (1 : Nat), ns best)

/-- The counter moves on by this much in trial `i`. -/
def gap (tsc : Nat → Int) (i : Nat) : Int := tsc i - tsc (i - 1)

/-- The loop keeps a trial with the smallest gap of those it has seen. -/
theorem bestFrom_least (tsc : Nat → Int) (n i best : Nat) (low : 1 ≤ best) (below : best < i)
    (least : ∀ j, 1 ≤ j → j < i → gap tsc best ≤ gap tsc j) :
    1 ≤ bestFrom tsc n i best ∧ bestFrom tsc n i best < i + n ∧
      ∀ j, 1 ≤ j → j < i + n → gap tsc (bestFrom tsc n i best) ≤ gap tsc j := by
  induction n generalizing i best with
  | zero => exact ⟨low, below, least⟩
  | succ n ih =>
      have length : i + (n + 1) = i + 1 + n := by omega
      rw [bestFrom, length]
      split
      case isTrue smaller =>
        refine ih (i + 1) i (by omega) (by omega) fun j first last => ?_
        rcases Nat.lt_succ_iff_lt_or_eq.mp last with before | rfl
        · exact Int.le_of_lt (Int.lt_of_lt_of_le smaller (least j first before))
        · exact Int.le_refl _
      case isFalse larger =>
        refine ih (i + 1) best low (by omega) fun j first last => ?_
        rcases Nat.lt_succ_iff_lt_or_eq.mp last with before | rfl
        · exact least j first before
        · exact Int.not_lt.mp larger

/-- **A calibration starts close.** When in each trial the system clock was read at some tick
between the two readings of the counter, the tick that `syncTime` puts out is off from the one
of its system time by at most half the smallest gap, rounded up. -/
theorem syncTime_close (tsc ns tick : Nat → Int)
    (between : ∀ i, 1 ≤ i → i ≤ trials → tsc (i - 1) ≤ tick i ∧ tick i ≤ tsc i) :
    ∃ i, 1 ≤ i ∧ i ≤ trials ∧ (syncTime tsc ns).2 = ns i ∧
      (∀ j, 1 ≤ j → j ≤ trials → gap tsc i ≤ gap tsc j) ∧
      2 * ((syncTime tsc ns).1 - tick i).natAbs ≤ gap tsc i + 1 := by
  have start : ∀ j, 1 ≤ j → j < 2 → gap tsc 1 ≤ gap tsc j := by
    intro j first last
    obtain rfl : j = 1 := by omega
    exact Int.le_refl _
  obtain ⟨low, high, least⟩ := bestFrom_least tsc (trials - 1) 2 1 (by decide) (by decide) start
  have last : bestFrom tsc (trials - 1) 2 1 ≤ trials := Nat.le_of_lt_succ high
  refine ⟨_, low, last, rfl, fun j first last => least j first (Nat.lt_succ_of_le last), ?_⟩
  obtain ⟨after, before⟩ := between _ low last
  rw [syncTime, gap, Int.shiftRight_eq_div_pow]
  simp only
  omega

/-- Trials of 100, 30 and 60 ticks. -/
def readings (i : Nat) : Int := [0, 100, 130, 190].getD i 0

/-- The second is taken: the system clock was read at tick 104, and the tick put out is 115. -/
theorem syncTime_close_readings :
    ∃ i, 1 ≤ i ∧ i ≤ trials ∧ (syncTime readings fun i => i).2 = i ∧
      2 * ((syncTime readings fun i => i).1 - [0, 7, 104, 160].getD i 0).natAbs ≤
        gap readings i + 1 := by
  have between : ∀ i, 1 ≤ i → i ≤ trials → readings (i - 1) ≤ [0, 7, 104, 160].getD i 0 ∧
      [0, 7, 104, 160].getD i 0 ≤ readings i := by
    intro i first last
    unfold trials at last
    interval_cases i
    · decide
    · decide
    · decide
  obtain ⟨i, first, last, time, -, close⟩ :=
    syncTime_close readings (fun i => i) (fun i => [0, 7, 104, 160].getD i 0) between
  exact ⟨i, first, last, time, close⟩

/-! ## `saveParam`, `init` and `calibrate` -/

/-- The members that `saveParam` stores between its two stores to `param_seq_`, and that
`tsc2ns` loads. -/
inductive Param : Type
  | baseTsc
  | baseNs
  | nsPerTsc
  deriving DecidableEq, Repr

/-- `int64_t`, and `double` for the slope. -/
@[reducible] def Param.Value (F : Type) : Param → Type
  | .nsPerTsc => F
  | _ => Int

/-- `tsc2ns`, on the members it has loaded. -/
def tsc2ns {F : Type} (D : Double F) (params : (k : Param) → k.Value F) (tsc : Int) : Int :=
  params .baseNs + D.scale (tsc - params .baseTsc) (params .nsPerTsc)

/-- `TSCNS` without `param_seq_`. -/
structure Clock (F : Type) : Type where
  nsPerTsc : F
  baseTsc : Int
  baseNs : Int
  calibrateIntervalNs : Int
  baseNsErr : Int
  nextCalibrateTsc : Int

variable {F : Type} (D : Double F)

def Clock.params (c : Clock F) : (k : Param) → k.Value F
  | .baseTsc => c.baseTsc
  | .baseNs => c.baseNs
  | .nsPerTsc => c.nsPerTsc

def Clock.saveParam (c : Clock F) (baseTsc baseNs sysNs : Int) (newNsPerTsc : F) : Clock F :=
  { c with
    baseNsErr := baseNs - sysNs
    nextCalibrateTsc := baseTsc + D.unscale (c.calibrateIntervalNs - 1000) newNsPerTsc
    baseTsc := baseTsc
    baseNs := baseNs
    nsPerTsc := newNsPerTsc }

/-- `init`, for what its two calls of `syncTime` put out. -/
def Clock.init (c : Clock F) (calibrateIntervalNs : Int) (base delayed : Int × Int) : Clock F :=
  { c with calibrateIntervalNs := calibrateIntervalNs }.saveParam D base.1 base.2 base.2
    (D.quotient (delayed.2 - base.2) (delayed.1 - base.1))

/-- `calibrate`, for what `rdtsc( )` returns and `syncTime` puts out. -/
def Clock.calibrate (c : Clock F) (rdtsc : Int) (sync : Int × Int) : Clock F :=
  if rdtsc < c.nextCalibrateTsc then c
  else
    let calculatedNs := tsc2ns D c.params sync.1
    let nsErr := calculatedNs - sync.2
    let expectedErr := nsErr +
      ((nsErr - c.baseNsErr) * c.calibrateIntervalNs).tdiv (sync.2 - c.baseNs + c.baseNsErr)
    c.saveParam D sync.1 calculatedNs sync.2
      (D.correct c.nsPerTsc expectedErr c.calibrateIntervalNs)

/-! ## Threads -/

theorem complete : ∀ k : Param, k ∈ [Param.baseTsc, Param.baseNs, Param.nsPerTsc] := by
  intro k
  cases k with
  | _ => decide

theorem half_pos : 0 < 2 ^ 31 := by decide

/-- `param_seq_` is a `uint32_t`. -/
def layout : Seqlock.Layout Param where
  fields := [.baseTsc, .baseNs, .nsPerTsc]
  half := 2 ^ 31
  complete := complete
  half_pos := half_pos

/-- One thread that calls `saveParam`, from `init` or `calibrate`, and threads `ι` in
`tsc2ns`. -/
abbrev Threads (F ι : Type) : Type := Seqlock.State (Param.Value F) ι

variable {ι : Type} [DecidableEq ι]

/-- **No call mixes two bases or slopes.** In every run, when a call of `tsc2ns` finds
`param_seq_` as it was, it computes with the parameters of the `saveParam` that ended last, none
has ended since its first load, and none is on its way; unless 2^31 calls of `saveParam` have
ended since then. -/
theorem tsc2ns_fresh (first : (k : Param) → k.Value F) (s s' : Threads F ι) (i : ι)
    (reaches : Reaches (Step layout) always (State.initial first) s)
    (accepts : Step layout s (.accept i) s') :
    ∃ before got since params, s.readers i = .loading before [] got since ∧
      s'.readers i = .returned params ∧
      ((s.saves = since ∧ s.writer.quiet = true ∧
          ∀ tsc, tsc2ns D params tsc = tsc2ns D s.latest tsc) ∨
        since + 2 ^ 31 ≤ s.saves) := by
  cases accepts with
  | @accept _ before since params at_ same =>
      refine ⟨before, _, since, params, at_, State.move_self .., ?_⟩
      rcases fresh_of_accept (sound_of_reaches reaches) at_ same with ⟨fresh, quiet, none_⟩ | round
      · exact .inl ⟨none_, quiet, fun tsc => by rw [fresh]⟩
      · exact .inr round

/-- What is saved comes from a call of `calibrate` that does not return at once, and its slope is
a number. -/
def Calibrates (s : Threads F ι) (a : Act (Param.Value F) ι) : Prop :=
  ∀ params, a = .begin params →
    D.scale 0 (params .nsPerTsc) = 0 ∧
      ∃ (c : Clock F) (rdtsc : Int) (sync : Int × Int), c.params = s.latest ∧
        c.nextCalibrateTsc ≤ rdtsc ∧ params = (c.calibrate D rdtsc sync).params

/-- At the tick it starts from, `calibrate` leaves the time as it was. -/
theorem tsc2ns_calibrate {c : Clock F} {rdtsc : Int} {sync : Int × Int}
    (due : c.nextCalibrateTsc ≤ rdtsc)
    (number : D.scale 0 ((c.calibrate D rdtsc sync).params .nsPerTsc) = 0) :
    tsc2ns D (c.calibrate D rdtsc sync).params ((c.calibrate D rdtsc sync).params .baseTsc) =
      tsc2ns D c.params ((c.calibrate D rdtsc sync).params .baseTsc) := by
  have goes : ¬ rdtsc < c.nextCalibrateTsc := Int.not_lt.mpr due
  unfold Clock.calibrate at number ⊢
  rw [if_neg goes] at number ⊢
  rw [tsc2ns, Int.sub_self, number, Int.add_zero]
  rfl

/-- The record that a writer is about to put in place. -/
def pending : Writer (Param.Value F) → Option ((k : Param) → k.Value F)
  | .idle => none
  | .loaded params _ => some params
  | .storing params _ _ => some params

/-- It agrees with the one saved last at its own base. -/
def Agrees (s : Threads F ι) : Prop :=
  ∀ params, pending s.writer = some params →
    tsc2ns D params (params .baseTsc) = tsc2ns D s.latest (params .baseTsc)

variable {D}

omit [DecidableEq ι] in
theorem Agrees.keep {s s' : Threads F ι} (agrees : Agrees D s) (latest : s'.latest = s.latest)
    (writer : pending s'.writer = pending s.writer) : Agrees D s' := by
  intro params at_
  rw [latest]
  exact agrees params (writer ▸ at_)

theorem agrees_of_reaches {first : (k : Param) → k.Value F} {s : Threads F ι}
    (reaches : Reaches (Step layout) (Calibrates D) (State.initial first) s) : Agrees D s := by
  have start : Agrees D (State.initial first : Threads F ι) := by
    intro params none_
    cases none_
  apply reaches.invariant start
  intro s a s' _ agrees calibrates stepped
  cases stepped with
  | begin params at_ =>
      intro saved same
      cases same
      obtain ⟨number, c, rdtsc, sync, latest, due, rfl⟩ := calibrates params rfl
      dsimp only
      rw [← latest]
      exact tsc2ns_calibrate D due number
  | odd at_ => exact agrees.keep rfl (by rw [at_]; rfl)
  | store at_ member => exact agrees.keep rfl (by rw [at_]; rfl)
  | even at_ =>
      intro params none_
      cases none_
  | _ => exact agrees.keep rfl rfl

/-- **Time does not jump.** In every run whose calls of `saveParam` come from `calibrate`, the end
of such a call changes nothing for a call of `tsc2ns` at the tick of the calibration. -/
theorem tsc2ns_even (D : Double F) (first : (k : Param) → k.Value F) (s s' : Threads F ι)
    (reaches : Reaches (Step layout) (Calibrates D) (State.initial first) s)
    (ends : Step layout s .even s') :
    tsc2ns D s'.latest (s'.latest .baseTsc) = tsc2ns D s.latest (s'.latest .baseTsc) := by
  have agrees := agrees_of_reaches reaches
  cases ends with
  | @even params seq at_ => exact agrees params (by rw [at_]; rfl)

/-! ## One save and one call -/

/-- Exact arithmetic. -/
def exactly : Double Rat where
  scale d r := (d * r.num).tdiv r.den
  unscale d r := (d * r.den).tdiv r.num
  quotient d e := d / e
  correct r d e := r * (1 - d / e)

/-- Behind `init` at two ticks to the nanosecond. -/
def halfSpeed : Clock Rat :=
  Clock.init exactly ⟨1, 0, 0, 0, 0, 0⟩ 3000 (1000, 5000) (3000, 6000)

/-- The record of `halfSpeed` calibrated at tick 5000, 100 nanoseconds late. -/
def recalibrated : (k : Param) → k.Value Rat :=
  (halfSpeed.calibrate exactly 5000 (5000, 6900)).params

/-- The calibration is on its way, up to its last store. -/
theorem saving_run : ∃ s : Threads Rat Unit,
    Reaches (Step layout) (Calibrates exactly) (State.initial halfSpeed.params) s ∧
      s.readers () = .idle ∧ s.writer = .storing recalibrated 1 [] ∧ s.saves = 0 ∧
      s.latest = halfSpeed.params := by
  have due : Calibrates exactly (State.initial halfSpeed.params : Threads Rat Unit)
      (.begin recalibrated) := by
    intro params same
    cases same
    exact ⟨by decide +kernel, halfSpeed, 5000, (5000, 6900), rfl, by decide +kernel, rfl⟩
  have other {s : Threads Rat Unit} {a : Act (Param.Value Rat) Unit}
      (stores : ∀ params, a ≠ .begin params) : Calibrates exactly s a :=
    fun params same => absurd same (stores params)
  have begun := Reaches.start.next due (Step.begin (L := layout) recalibrated rfl)
  have odd := begun.next (other (by intro params same; cases same)) (Step.odd rfl)
  have one := odd.next (other (by intro params same; cases same))
    (Step.store (k := .baseTsc) rfl (by decide))
  have two := one.next (other (by intro params same; cases same))
    (Step.store (k := .baseNs) rfl (by decide))
  have three := two.next (other (by intro params same; cases same))
    (Step.store (k := .nsPerTsc) rfl (by decide))
  exact ⟨_, three, rfl, rfl, rfl, rfl⟩

/-- The calibration ends, and a call behind it has come to its second load of `param_seq_`. -/
theorem reading_run : ∃ s s' : Threads Rat Unit,
    Reaches (Step layout) always (State.initial halfSpeed.params) s ∧
      Step layout s (.accept ()) s' ∧ s.latest = recalibrated ∧ s.saves = 1 := by
  obtain ⟨s, reaches, reader, writer, none_, -⟩ := saving_run
  have saved := (reaches.mono fun _ _ _ => trivial).step (Step.even writer)
  have called := saved.step (Step.call (i := ()) (.inl reader))
  obtain ⟨t, t', run, accepts, latest, saves⟩ := exists_accept (i := ())
    (sound_of_reaches called) rfl (by rw [State.remaining_move]; exact Nat.succ_ne_zero _)
  exact ⟨t, t', called.trans (run.mono fun _ _ _ => trivial), accepts, latest,
    saves.trans (congrArg (· + 1) none_)⟩

/-- The call computes with the new parameters. -/
theorem tsc2ns_fresh_recalibrated : ∃ (s' : Threads Rat Unit) (params : (k : Param) → k.Value Rat),
    s'.readers () = .returned params ∧ tsc2ns exactly params 5000 = 7000 := by
  obtain ⟨s, s', reaches, accepts, latest, one⟩ := reading_run
  obtain ⟨_, _, since, params, -, returned, fresh | round⟩ :=
    tsc2ns_fresh exactly halfSpeed.params s s' () reaches accepts
  · refine ⟨s', params, returned, ?_⟩
    rw [fresh.2.2, latest]
    decide +kernel
  · omega

/-- The calibration leaves the time at its tick at 7000. -/
theorem tsc2ns_even_recalibrated : ∃ s s' : Threads Rat Unit, s'.latest = recalibrated ∧
    tsc2ns exactly s'.latest 5000 = tsc2ns exactly s.latest 5000 := by
  obtain ⟨s, reaches, -, writer, -, -⟩ := saving_run
  obtain ⟨s', ends, latest⟩ : ∃ s', Step layout s .even s' ∧ s'.latest = recalibrated :=
    ⟨_, .even writer, rfl⟩
  have even := tsc2ns_even exactly halfSpeed.params s s' reaches ends
  have tick : s'.latest .baseTsc = (5000 : Int) := by
    rw [latest]
    decide +kernel
  rw [tick] at even
  exact ⟨s, s', latest, even⟩

end Tscns

end OpenFix

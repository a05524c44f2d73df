import Mathlib.Data.List.Induction

/-!
# Counters clipped at zero

A counter that some events move up by one and others down by one, but never below zero. It has
the largest surplus of ups over downs that a suffix of the events has: the suffix behind the
last time the counter was clipped.
-/

namespace Clipped

variable {α : Type*} (up down : α → Bool)

/-- The counter behind one event. -/
def move (n : Nat) (a : α) : Nat :=
  if up a then n + 1 else if down a then n - 1 else n

/-- The counter behind `events`. -/
def level (events : List α) : Nat := events.foldl (move up down) 0

theorem level_concat (events : List α) (a : α) :
    level up down (events ++ [a]) = move up down (level up down events) a := by
  rw [level, List.foldl_append]
  rfl

/-- A suffix with a surplus of more than `n`. -/
def Surplus (n : Nat) (events : List α) : Prop :=
  ∃ late, late <:+ events ∧ late.countP down + n < late.countP up

variable {up down}

theorem not_surplus_nil (n : Nat) : ¬ Surplus up down n [] := by
  rintro ⟨late, suffix, more⟩
  cases List.suffix_nil.mp suffix
  exact Nat.not_lt_zero _ more

/-- A surplus reaches over one more event. -/
theorem surplus_concat {n : Nat} {events : List α} {a : α} :
    Surplus up down n (events ++ [a]) ↔
      ∃ late, late <:+ events ∧
        late.countP down + (if down a then 1 else 0) + n <
          late.countP up + if up a then 1 else 0 := by
  constructor
  · rintro ⟨late, suffix, more⟩
    rcases List.suffix_concat_iff.mp suffix with rfl | ⟨before, rfl, within⟩
    · cases more
    · rw [List.countP_append, List.countP_append, List.countP_singleton,
        List.countP_singleton] at more
      exact ⟨before, within, more⟩
  · rintro ⟨late, suffix, more⟩
    refine ⟨late ++ [a], List.suffix_concat_iff.mpr (.inr ⟨late, rfl, suffix⟩), ?_⟩
    rw [List.countP_append, List.countP_append, List.countP_singleton, List.countP_singleton]
    exact more

/-- The level is the largest surplus. -/
theorem lt_level_iff (exclusive : ∀ a, up a = true → down a = false) {n : Nat} {events : List α} :
    n < level up down events ↔ Surplus up down n events := by
  induction events using List.reverseRecOn generalizing n with
  | nil => exact iff_of_false (Nat.not_lt_zero n) (not_surplus_nil n)
  | append_singleton events a ih =>
      rw [level_concat, surplus_concat, move]
      split
      case isTrue rises =>
        rw [if_neg (by rw [exclusive a rises]; exact Bool.false_ne_true)]
        cases n with
        | zero => exact iff_of_true (Nat.succ_pos _) ⟨[], List.nil_suffix, Nat.one_pos⟩
        | succ n =>
            rw [Nat.add_lt_add_iff_right, ih]
            refine exists_congr fun late => and_congr_right fun _ => ?_
            omega
      case isFalse =>
        split
        case isTrue =>
          rw [Nat.lt_sub_iff_add_lt, ih]
          refine exists_congr fun late => and_congr_right fun _ => ?_
          omega
        case isFalse => exact ih

end Clipped

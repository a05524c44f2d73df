import Mathlib.Algebra.BigOperators.Group.Finset.Piecewise
import Mathlib.Algebra.Order.Group.Multiset
import Mathlib.Data.Fintype.Option
import Mathlib.Tactic.Abel

/-!
# Tallies over threads

`tally f g` collects what `f` finds in the places `g` of finitely many threads. When one
thread moves, the tally changes by what `f` finds in its old and its new place.
-/

namespace Tally

variable {τ β M : Type*} [Fintype τ] [AddCommMonoid M]

/-- What `f` finds in all the places. -/
def tally (f : β → M) (g : τ → β) : M := ∑ t, f (g t)

theorem tally_update [DecidableEq τ] (f : β → M) (g : τ → β) (t : τ) (x : β) :
    tally f (Function.update g t x) + f (g t) = tally f g + f x := by
  have moved : tally f (Function.update g t x) = f x + ∑ u ∈ Finset.univ \ {t}, f (g u) := by
    have places : (fun u => f (Function.update g t x u)) =
        Function.update (fun u => f (g u)) t (f x) := by
      funext u
      rcases eq_or_ne u t with rfl | other
      · rw [Function.update_self, Function.update_self]
      · rw [Function.update_of_ne other, Function.update_of_ne other]
    unfold tally
    rw [places, Finset.sum_update_of_mem (Finset.mem_univ t)]
  have stayed : tally f g = f (g t) + ∑ u ∈ Finset.univ \ {t}, f (g u) := by
    unfold tally
    rw [← Finset.sum_sdiff (Finset.subset_univ {t}), Finset.sum_singleton, add_comm]
  rw [moved, stayed]
  abel

theorem mem_tally {γ : Type*} {a : γ} {f : β → Multiset γ} {g : τ → β} :
    a ∈ tally f g ↔ ∃ t, a ∈ f (g t) := by
  unfold tally
  rw [Multiset.mem_sum]
  exact ⟨fun ⟨t, _, member⟩ => ⟨t, member⟩, fun ⟨t, member⟩ => ⟨t, Finset.mem_univ t, member⟩⟩

end Tally

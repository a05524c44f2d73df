import Mathlib.Tactic.Common

/-!
# Runs of a labelled transition relation

`Reaches rel cond s₀ s`: steps that each meet `cond`, a condition on the state before the
step and its label, lead from `s₀` to `s`. `Reaches.invariant` is the rule for invariants;
its step may use that the state before is reached, so that invariants can be proved one
after the other.
-/

namespace Transition

variable {σ α : Type*} {rel : σ → α → σ → Prop} {cond cond' : σ → α → Prop} {s₀ s s' : σ}

/-- The states that steps meeting `cond` reach from `s₀`. -/
inductive Reaches (rel : σ → α → σ → Prop) (cond : σ → α → Prop) (s₀ : σ) : σ → Prop
  | start : Reaches rel cond s₀ s₀
  | next {s s' : σ} {a : α} :
    Reaches rel cond s₀ s → cond s a → rel s a s' → Reaches rel cond s₀ s'

/-- No condition on the steps. -/
def always (_ : σ) (_ : α) : Prop := True

instance (s : σ) (a : α) : Decidable (always s a) := .isTrue trivial

theorem Reaches.invariant {I : σ → Prop} (reaches : Reaches rel cond s₀ s) (start : I s₀)
    (preserved : ∀ s a s', Reaches rel cond s₀ s → I s → cond s a → rel s a s' → I s') :
    I s := by
  induction reaches with
  | start => exact start
  | next before meets stepped ih => exact preserved _ _ _ before ih meets stepped

/-- A weaker condition has more runs. -/
theorem Reaches.mono (reaches : Reaches rel cond s₀ s)
    (weaker : ∀ s a, cond s a → cond' s a) : Reaches rel cond' s₀ s := by
  induction reaches with
  | start => exact .start
  | next _ meets stepped ih => exact ih.next (weaker _ _ meets) stepped

/-- The steps of a run meet what can be proved of them. -/
theorem Reaches.meets (reaches : Reaches rel cond s₀ s)
    (holds : ∀ s a s', Reaches rel cond s₀ s → cond s a → rel s a s' → cond' s a) :
    Reaches rel cond' s₀ s := by
  induction reaches with
  | start => exact .start
  | next before meets stepped ih => exact ih.next (holds _ _ _ before meets stepped) stepped

theorem Reaches.trans (first : Reaches rel cond s₀ s) (rest : Reaches rel cond s s') :
    Reaches rel cond s₀ s' := by
  induction rest with
  | start => exact first
  | next _ meets stepped ih => exact ih.next meets stepped

theorem Reaches.head (reaches : Reaches rel cond s₀ s) :
    s₀ = s ∨ ∃ a s₁, cond s₀ a ∧ rel s₀ a s₁ ∧ Reaches rel cond s₁ s := by
  induction reaches with
  | start => exact .inl rfl
  | next before meets stepped ih =>
      rcases ih with rfl | ⟨a, s₁, meets₁, stepped₁, rest⟩
      · exact .inr ⟨_, _, meets, stepped, .start⟩
      · exact .inr ⟨a, s₁, meets₁, stepped₁, rest.next meets stepped⟩

/-- The same steps, with their number. -/
def counted (rel : σ → α → σ → Prop) (x : σ × ℕ) (a : α) (y : σ × ℕ) : Prop :=
  rel x.1 a y.1 ∧ y.2 = x.2 + 1

/-- At most one step meets `cond`. -/
def Determined (rel : σ → α → σ → Prop) (cond : σ → α → Prop) : Prop :=
  ∀ s a s₁ b s₂, cond s a → rel s a s₁ → cond s b → rel s b s₂ → s₁ = s₂

/-- No step meets `cond`. -/
def Final (rel : σ → α → σ → Prop) (cond : σ → α → Prop) (s : σ) : Prop :=
  ∀ a s₁, cond s a → ¬ rel s a s₁

/-- A determined run that ends goes through every state reached. -/
theorem Reaches.rest (determined : Determined rel cond) (reaches : Reaches rel cond s₀ s)
    (ends : Reaches rel cond s₀ s') (final : Final rel cond s') : Reaches rel cond s s' := by
  induction reaches with
  | start => exact ends
  | next _ meets stepped ih =>
      rcases ih.head with rfl | ⟨b, s₂, meets₂, stepped₂, rest⟩
      · exact absurd stepped (final _ _ meets)
      · cases determined _ _ _ b s₂ meets stepped meets₂ stepped₂
        exact rest

/-- A step of an unconditional run. -/
theorem Reaches.step {a : α} (reaches : Reaches rel always s₀ s) (stepped : rel s a s') :
    Reaches rel always s₀ s' :=
  reaches.next trivial stepped

end Transition

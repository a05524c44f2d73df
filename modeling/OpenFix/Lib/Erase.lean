import Mathlib.Data.List.Nodup

/-!
# Erasing from a vector

`eraseIdx` at the place of a known element, and inside a loop over the same vector: the loop
remembers the old end, the elements behind the erased one move down, and the slot behind the
new end keeps what it had. `items ++ stale` are the slots such a loop visits.
-/

namespace Erase

variable {α : Type*}

theorem eraseIdx_middle (front behind : List α) (a : α) :
    (front ++ a :: behind).eraseIdx front.length = front ++ behind := by
  rw [List.eraseIdx_append_of_length_le (Nat.le_refl _), Nat.sub_self]
  rfl

/-- Of elements that are all different, `eraseIdx` at the place of `a` takes `a`. -/
theorem eraseIdx_eq_erase [DecidableEq α] {items : List α} (nodup : items.Nodup) {i : Nat} {a : α}
    (entry : items[i]? = some a) : items.eraseIdx i = items.erase a := by
  obtain ⟨bound, rfl⟩ := List.getElem?_eq_some_iff.mp entry
  exact (nodup.erase_getElem i bound).symm

/-- Erasing at or in front of slot `k`: the slots behind `k` have what they had. -/
theorem drop_slots {items stale : List α} {i k : Nat} (front : i ≤ k) (bound : i < items.length) :
    (items.eraseIdx i ++ (items.getLast?.toList ++ stale)).drop (k + 1) ⊆
      (items ++ stale).drop (k + 1) := by
  intro a member
  obtain ⟨m, entry⟩ := List.mem_iff_getElem?.mp member
  rw [List.getElem?_drop] at entry
  rcases List.eq_nil_or_concat items with rfl | ⟨init, last, rfl⟩
  · exact absurd bound (Nat.not_lt_zero i)
  · rw [List.concat_eq_append] at entry bound ⊢
    have length : ((init ++ [last]).eraseIdx i).length = init.length := by
      rw [List.length_eraseIdx_of_lt bound, List.length_append]
      rfl
    have behind : (init ++ [last]).getLast?.toList ++ stale = [last] ++ stale := by
      rw [List.getLast?_concat]
      rfl
    rw [behind] at entry
    by_cases inner : k + 1 + m < init.length
    · -- The element has moved down by one.
      rw [List.getElem?_append_left (by rw [length]; exact inner),
        List.getElem?_eraseIdx_of_ge (by omega)] at entry
      refine List.mem_iff_getElem?.mpr ⟨m + 1, ?_⟩
      rw [List.getElem?_drop,
        List.getElem?_append_left (by rw [List.length_append, List.length_singleton]; omega)]
      exact entry
    · rw [List.getElem?_append_right (by rw [length]; omega), length] at entry
      refine List.mem_iff_getElem?.mpr ⟨m, ?_⟩
      rw [List.getElem?_drop, List.append_assoc, List.getElem?_append_right (by omega)]
      exact entry

end Erase

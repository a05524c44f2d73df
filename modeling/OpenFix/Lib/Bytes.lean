import Mathlib.Data.List.Basic
import Mathlib.Tactic.Common

/-!
# Windows of a flat store

A store is a list of cells. `slice store start n` reads the window of `n` cells at
`start`, `overwrite store start xs` replaces the window at `start` by `xs`. The
lemmas are the algebra a caller needs to treat a window as a variable of its own:
a window reads back what was written to it, and keeps its content under a write
to a disjoint one.
-/

namespace Bytes

variable {α : Type*}

/-- The window of `n` cells at `start`; shorter where the store ends. -/
def slice (store : List α) (start n : Nat) : List α :=
  (store.drop start).take n

/-- The store with the window at `start` replaced by `xs`. -/
def overwrite (store : List α) (start : Nat) (xs : List α) : List α :=
  store.take start ++ xs ++ store.drop (start + xs.length)

theorem length_overwrite {store : List α} {start : Nat} {xs : List α}
    (room : start + xs.length ≤ store.length) :
    (overwrite store start xs).length = store.length := by
  simp only [overwrite, List.length_append, List.length_take, List.length_drop]
  omega

theorem length_slice {store : List α} {start n : Nat} (room : start + n ≤ store.length) :
    (slice store start n).length = n := by
  simp only [slice, List.length_take, List.length_drop]
  omega

/-- Walking over a known prefix of the rest of a store. -/
theorem drop_add_length {store xs rest : List α} {start : Nat}
    (bytes : store.drop start = xs ++ rest) : store.drop (start + xs.length) = rest := by
  rw [← List.drop_drop, bytes, List.drop_left]

/-- A known prefix of the rest of a store lies inside the store. -/
theorem add_length_le {store xs rest : List α} {start : Nat}
    (bytes : store.drop start = xs ++ rest) (nonempty : xs ≠ []) :
    start + xs.length ≤ store.length := by
  have length := congrArg List.length bytes
  rw [List.length_drop, List.length_append] at length
  have positive := List.length_pos_of_ne_nil nonempty
  omega

@[simp] theorem slice_append (before xs after : List α) :
    slice (before ++ xs ++ after) before.length xs.length = xs := by
  rw [slice, List.append_assoc, List.drop_left, List.take_left]

/-- A store split at a window, with the window replaced. -/
theorem overwrite_append {before old after xs : List α} (length : old.length = xs.length) :
    overwrite (before ++ old ++ after) before.length xs = before ++ xs ++ after := by
  rw [overwrite, List.append_assoc before old, List.take_left, ← length,
    ← List.append_assoc, ← List.length_append, List.drop_left]

/-- Overwriting right behind a known prefix. -/
theorem overwrite_prefix (before rest xs : List α) :
    overwrite (before ++ rest) before.length xs = before ++ xs ++ rest.drop xs.length := by
  rw [overwrite, List.take_left, ← List.drop_drop, List.drop_left]

/-- Every store splits at a window that lies inside it. -/
theorem exists_split {store : List α} {start n : Nat} (room : start + n ≤ store.length) :
    ∃ before window after, store = before ++ window ++ after ∧
      before.length = start ∧ window.length = n := by
  refine ⟨store.take start, slice store start n, store.drop (start + n), ?_, ?_, ?_⟩
  · rw [slice, List.append_assoc, ← List.drop_drop, List.take_append_drop,
      List.take_append_drop]
  · rw [List.length_take]
    omega
  · exact length_slice room

theorem slice_overwrite_self {store : List α} {start : Nat} {xs : List α}
    (room : start + xs.length ≤ store.length) :
    slice (overwrite store start xs) start xs.length = xs := by
  obtain ⟨before, window, after, rfl, rfl, length⟩ := exists_split room
  rw [overwrite_append length, slice_append]

theorem getElem?_overwrite_of_lt {store : List α} {start i : Nat} {xs : List α}
    (below : i < start) (room : start + xs.length ≤ store.length) :
    (overwrite store start xs)[i]? = store[i]? := by
  have inTake : i < (store.take start).length := by
    rw [List.length_take]
    omega
  rw [overwrite, List.append_assoc, List.getElem?_append_left inTake,
    List.getElem?_take_of_lt below]

theorem getElem?_overwrite_of_ge {store : List α} {start i : Nat} {xs : List α}
    (above : start + xs.length ≤ i) (room : start + xs.length ≤ store.length) :
    (overwrite store start xs)[i]? = store[i]? := by
  have takeLength : (store.take start).length = start := by
    rw [List.length_take]
    omega
  rw [overwrite, List.getElem?_append_right (by rw [List.length_append, takeLength]; exact above),
    List.length_append, takeLength, List.getElem?_drop, Nat.add_sub_cancel' above]

/-- A write does not touch a disjoint window. -/
theorem slice_overwrite_of_disjoint {store : List α} {start other n : Nat} {xs : List α}
    (room : start + xs.length ≤ store.length)
    (disjoint : other + n ≤ start ∨ start + xs.length ≤ other) :
    slice (overwrite store start xs) other n = slice store other n := by
  apply List.ext_getElem?
  intro i
  simp only [slice, List.getElem?_take, List.getElem?_drop]
  split
  case isTrue inside =>
    rcases disjoint with below | above
    · exact getElem?_overwrite_of_lt (by omega) room
    · exact getElem?_overwrite_of_ge (by omega) room
  case isFalse => rfl

end Bytes

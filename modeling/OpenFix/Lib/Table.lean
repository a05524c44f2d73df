import Mathlib.Data.List.Basic
import Mathlib.Data.List.Induction
import Mathlib.Logic.Function.Basic
import Mathlib.Tactic.Common

/-!
# Maps that grow by assignment

A table gives a key at most one value. `index` looks a key up and puts a value in where there is
none, `fill` assigns a list of entries in turn, and `push` puts a value behind those of its key.

* `fill_eq_some_iff`: a table filled with entries of distinct keys has these entries.
* `fill_swap_iff`: filled with the entries the other way round, it is the inverse map.
* `getD_pushAll`: the values of a key, in the order of the entries.
* `find_fill`, `find_indexAll`: what any entries, and any keys looked up, leave of any table.
-/

/-- At most one value for each key. -/
structure Table (κ ν : Type*) where
  find : κ → Option ν

namespace Table

variable {κ ν : Type*} [DecidableEq κ] {t : Table κ ν} {k k' : κ} {v w : ν}
  {entries : List (κ × ν)}

def empty : Table κ ν := ⟨fun _ => none⟩

def set (t : Table κ ν) (k : κ) (v : ν) : Table κ ν :=
  ⟨fun k' => if k' = k then some v else t.find k'⟩

/-- The value of a key, and `v` put in where it has none. -/
def index (t : Table κ ν) (k : κ) (v : ν) : Table κ ν × ν :=
  match t.find k with
  | some w => (t, w)
  | none => (t.set k v, v)

/-- Assign the entries in turn. -/
def fill (t : Table κ ν) (entries : List (κ × ν)) : Table κ ν :=
  entries.foldl (fun t entry => t.set entry.1 entry.2) t

/-- Put a value behind those of its key. -/
def push (t : Table κ (List ν)) (k : κ) (v : ν) : Table κ (List ν) :=
  let found := t.index k []
  found.1.set k (found.2 ++ [v])

/-- Push the entries in turn. -/
def pushAll (t : Table κ (List ν)) (entries : List (κ × ν)) : Table κ (List ν) :=
  entries.foldl (fun t entry => t.push entry.1 entry.2) t

theorem set_self (t : Table κ ν) (k : κ) (v : ν) : (t.set k v).find k = some v :=
  if_pos rfl

theorem set_of_ne (other : k' ≠ k) (t : Table κ ν) (v : ν) : (t.set k v).find k' = t.find k' :=
  if_neg other

theorem index_of_some (found : t.find k = some w) (v : ν) : t.index k v = (t, w) := by
  rw [index, found]

/-! ## Filling -/

/-- A key's value is that of its entry, or the one it had. -/
theorem fill_cases (distinct : (entries.map Prod.fst).Nodup) (t : Table κ ν) :
    (t.fill entries).find k = some v ↔
      (k, v) ∈ entries ∨ k ∉ entries.map Prod.fst ∧ t.find k = some v := by
  induction entries generalizing t with
  | nil =>
      rw [or_iff_right List.not_mem_nil]
      exact (and_iff_right List.not_mem_nil).symm
  | cons entry entries ih =>
      obtain ⟨first, w⟩ := entry
      obtain ⟨absent, distinct⟩ := List.nodup_cons.mp distinct
      have step : t.fill ((first, w) :: entries) = (t.set first w).fill entries := rfl
      rw [step, ih distinct, List.map_cons, List.mem_cons, List.mem_cons, Prod.mk.injEq]
      by_cases here : k = first
      · subst here
        have later : (k, v) ∉ entries := fun member =>
          absent (List.mem_map.mpr ⟨(k, v), member, rfl⟩)
        rw [set_self, Option.some.injEq]
        constructor
        · rintro (member | ⟨-, rfl⟩)
          · exact absurd member later
          · exact .inl (.inl ⟨rfl, rfl⟩)
        · rintro ((⟨-, rfl⟩ | member) | ⟨others, -⟩)
          · exact .inr ⟨absent, rfl⟩
          · exact absurd member later
          · exact absurd (.inl rfl) others
      · have other : ¬ (k = first ∧ v = w) := fun same => here same.1
        rw [set_of_ne here, or_iff_right other, or_iff_right here]

/-- A table filled with entries of distinct keys. -/
theorem fill_eq_some_iff (distinct : (entries.map Prod.fst).Nodup) :
    (empty.fill entries).find k = some v ↔ (k, v) ∈ entries := by
  rw [fill_cases distinct]
  exact or_iff_left fun old => nomatch old.2

/-- The inverse of a table whose values are distinct as well. -/
theorem fill_swap_iff [DecidableEq ν] (keys : (entries.map Prod.fst).Nodup)
    (values : (entries.map Prod.snd).Nodup) :
    (empty.fill (entries.map Prod.swap)).find v = some k ↔
      (empty.fill entries).find k = some v := by
  have distinct : ((entries.map Prod.swap).map Prod.fst).Nodup := by
    rw [List.map_map]
    exact values
  rw [fill_eq_some_iff distinct, fill_eq_some_iff keys, List.mem_map]
  constructor
  · rintro ⟨⟨k', v'⟩, member, ⟨⟩⟩
    exact member
  · intro member
    exact ⟨(k, v), member, rfl⟩

/-! ## Pushing -/

theorem getD_push (t : Table κ (List ν)) (k k' : κ) (v : ν) :
    ((t.push k v).find k').getD [] = (t.find k').getD [] ++ if k = k' then [v] else [] := by
  have old : (t.index k []).2 = (t.find k).getD [] := by
    rw [index]
    cases t.find k <;> rfl
  have others : k' ≠ k → (t.index k []).1.find k' = t.find k' := by
    intro other
    rw [index]
    cases t.find k with
    | some vs => rfl
    | none => exact set_of_ne other t []
  unfold push
  dsimp only
  by_cases here : k = k'
  · subst here
    rw [if_pos rfl, set_self, Option.getD_some, old]
  · rw [if_neg here, set_of_ne (Ne.symm here), others (Ne.symm here), List.append_nil]

/-- The entries of one key, as another key sees them. -/
theorem filter_map_key {α : Type*} (xs : List α) (k k' : κ) (f : α → ν) :
    ((xs.map fun x => (k, f x)).filter fun entry => entry.1 = k').map Prod.snd =
      if k = k' then xs.map f else [] := by
  induction xs with
  | nil => split <;> rfl
  | cons x xs ih =>
      rw [List.map_cons, List.filter_cons]
      by_cases here : k = k'
      · rw [if_pos (decide_eq_true here), List.map_cons, ih, if_pos here, if_pos here]
        rfl
      · rw [if_neg (ne_true_of_eq_false (decide_eq_false here)), ih, if_neg here, if_neg here]

theorem pushAll_append (t : Table κ (List ν)) (entries later : List (κ × ν)) :
    t.pushAll (entries ++ later) = (t.pushAll entries).pushAll later :=
  List.foldl_append

/-- The values of a key, in the order of the entries. -/
theorem getD_pushAll (t : Table κ (List ν)) (entries : List (κ × ν)) (k : κ) :
    ((t.pushAll entries).find k).getD [] =
      (t.find k).getD [] ++ (entries.filter fun entry => entry.1 = k).map Prod.snd := by
  induction entries generalizing t with
  | nil => exact (List.append_nil _).symm
  | cons entry entries ih =>
      have step : t.pushAll (entry :: entries) = (t.push entry.1 entry.2).pushAll entries := rfl
      rw [step, ih, getD_push, List.append_assoc]
      by_cases here : entry.1 = k
      · rw [if_pos here, List.filter_cons_of_pos (by simpa using here)]
        rfl
      · rw [if_neg here, List.filter_cons_of_neg (by simpa using here)]
        rfl

/-! ## Any entries, over any table -/

/-- The value that the entries assign to a key last. -/
def lastOf (entries : List (κ × ν)) (k : κ) : Option ν := entries.reverse.lookup k

/-- The last assignment counts, and where there is none, what was there. -/
theorem find_fill (t : Table κ ν) (entries : List (κ × ν)) (k : κ) :
    (t.fill entries).find k = (lastOf entries k).or (t.find k) := by
  induction entries using List.reverseRecOn with
  | nil => rfl
  | append_singleton entries entry ih =>
      have step : t.fill (entries ++ [entry]) = (t.fill entries).set entry.1 entry.2 :=
        List.foldl_append
      rw [step, lastOf, List.reverse_append, List.reverse_singleton, List.singleton_append]
      obtain ⟨first, v⟩ := entry
      by_cases here : k = first
      · subst here
        rw [set_self, List.lookup_cons_self, Option.some_or]
      · rw [set_of_ne here, List.lookup_cons, beq_eq_false_iff_ne.mpr here]
        exact ih

/-- Look the keys up in turn. -/
def indexAll (t : Table κ ν) (keys : List κ) (v : ν) : Table κ ν :=
  keys.foldl (fun t k => (t.index k v).1) t

theorem indexAll_append (t : Table κ ν) (keys later : List κ) (v : ν) :
    t.indexAll (keys ++ later) v = (t.indexAll keys v).indexAll later v := List.foldl_append

theorem index_snd (t : Table κ ν) (k : κ) (v : ν) : (t.index k v).2 = (t.find k).getD v := by
  rw [index]
  cases t.find k <;> rfl

theorem find_index (t : Table κ ν) (k k' : κ) (v : ν) :
    (t.index k v).1.find k' = (t.find k').or (if k' = k then some v else none) := by
  rw [index]
  cases found : t.find k with
  | some w =>
      dsimp only
      split
      case isTrue here =>
        rw [here, found]
        rfl
      case isFalse => exact (Option.or_none).symm
  | none =>
      dsimp only
      split
      case isTrue here =>
        rw [here, set_self, found]
        rfl
      case isFalse other => rw [set_of_ne other, Option.or_none]

/-- Keys looked up have a value, the one they had where they had one. -/
theorem find_indexAll (t : Table κ ν) (keys : List κ) (k : κ) (v : ν) :
    (t.indexAll keys v).find k = (t.find k).or (if k ∈ keys then some v else none) := by
  induction keys generalizing t with
  | nil => exact (Option.or_none).symm
  | cons first keys ih =>
      have step : t.indexAll (first :: keys) v = (t.index first v).1.indexAll keys v := rfl
      rw [step, ih, find_index, Option.or_assoc]
      congr 1
      by_cases here : k = first
      · rw [if_pos here, if_pos (List.mem_cons.mpr (.inl here)), Option.some_or]
      · simp only [List.mem_cons, here, false_or, if_false, Option.none_or]

/-- To look a key up with the same default is to read the table as it was. -/
theorem getD_indexAll (t : Table κ ν) (keys : List κ) (k : κ) (v : ν) :
    ((t.indexAll keys v).find k).getD v = (t.find k).getD v := by
  rw [find_indexAll]
  cases t.find k with
  | some w => rfl
  | none =>
      rw [Option.none_or]
      split <;> rfl

end Table

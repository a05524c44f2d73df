import Mathlib.Tactic.Common

/-!
# Records filled member by member

A record is what its members say. `assign` writes the members of a list one after the other and
stops at the first that has no value; what it wrote before stays. `assign_unchanged_iff` says when
that leaves the record as it was.
-/

/-- The members `ι` of the records `σ`, each with its own type. -/
structure Record {ι : Type} (Value : ι → Type) (σ : Type) : Type where
  get : σ → (i : ι) → Value i
  set : σ → (i : ι) → Value i → σ
  get_set_self : ∀ s i v, get (set s i v) i = v
  get_set_of_ne : ∀ s i v j, j ≠ i → get (set s i v) j = get s j
  ext : ∀ s t, (∀ i, get s i = get t i) → s = t

namespace Record

variable {ι σ ε : Type} {Value : ι → Type} (R : Record Value σ)
  {read : (i : ι) → Except ε (Value i)}
  {is : List ι} {i : ι} {s : σ}

/-- Read and write the members of a list in turn. -/
def assign (read : (i : ι) → Except ε (Value i)) : List ι → σ → Except ε Unit × σ
  | [], s => (.ok (), s)
  | i :: is, s =>
      match read i with
      | .ok v => assign read is (R.set s i v)
      | .error e => (.error e, s)

/-- The member `i` has the value `v`, and every member in front of it has one. -/
inductive Reached (has : (i : ι) → Value i → Prop) : List ι → (i : ι) → Value i → Prop
  | here {i : ι} {v : Value i} {is : List ι} : has i v → Reached has (i :: is) i v
  | behind {first i : ι} {w : Value first} {v : Value i} {is : List ι} :
    has first w → Reached has is i v → Reached has (first :: is) i v

/-- Writing the value that is there. -/
theorem set_get {v : Value i} (same : R.get s i = v) : R.set s i v = s := by
  refine R.ext _ _ fun j => ?_
  by_cases here : j = i
  · subst here
    rw [R.get_set_self, same]
  · exact R.get_set_of_ne s i v j here

variable {R}

theorem reached_of_mem {has : (i : ι) → Value i → Prop} {v : Value i}
    (all : ∀ j ∈ is, ∃ w, has j w) (member : i ∈ is) (value : has i v) : Reached has is i v := by
  induction is with
  | nil => exact absurd member List.not_mem_nil
  | cons first is ih =>
      obtain ⟨⟨w, front⟩, all⟩ := List.forall_mem_cons.mp all
      rcases List.mem_cons.mp member with rfl | member
      · exact .here value
      · exact .behind front (ih all member)

theorem assign_cons_ok {v : Value i} (value : read i = .ok v) (is : List ι) (s : σ) :
    R.assign read (i :: is) s = R.assign read is (R.set s i v) := by
  rw [assign, value]

theorem assign_cons_error {e : ε} (error : read i = .error e) (is : List ι) (s : σ) :
    R.assign read (i :: is) s = (.error e, s) := by
  rw [assign, error]

/-- A member that is not in the list. -/
theorem get_assign_of_not_mem (absent : i ∉ is) (s : σ) :
    R.get (R.assign read is s).2 i = R.get s i := by
  induction is generalizing s with
  | nil => rfl
  | cons first is ih =>
      have other : i ≠ first := List.ne_of_not_mem_cons absent
      cases value : read first with
      | ok v =>
          rw [assign_cons_ok value, ih (List.not_mem_of_not_mem_cons absent),
            R.get_set_of_ne s first v i other]
      | error e => rw [assign_cons_error value]

/-- A member that is reached. -/
theorem get_assign_of_reached {v : Value i} (distinct : is.Nodup)
    (reached : Reached (fun j w => read j = .ok w) is i v) (s : σ) :
    R.get (R.assign read is s).2 i = v := by
  induction reached generalizing s with
  | here value =>
      rw [assign_cons_ok value, get_assign_of_not_mem (List.nodup_cons.mp distinct).1,
        R.get_set_self]
  | behind value _ ih =>
      rw [assign_cons_ok value]
      exact ih (List.nodup_cons.mp distinct).2 _

/-- Every member is written if each has a value. -/
theorem assign_ok_iff (s : σ) :
    (R.assign read is s).1 = .ok () ↔ ∀ i ∈ is, ∃ v, read i = .ok v := by
  induction is generalizing s with
  | nil => exact iff_of_true rfl fun i member => absurd member List.not_mem_nil
  | cons first is ih =>
      rw [List.forall_mem_cons]
      cases value : read first with
      | ok v => rw [assign_cons_ok value, ih, and_iff_right ⟨v, rfl⟩]
      | error e =>
          rw [assign_cons_error value]
          exact iff_of_false nofun fun all => nomatch all.1.choose_spec

/-- What is written where each has a value. -/
theorem get_assign_of_ok {v : Value i} (distinct : is.Nodup)
    (all : ∀ j ∈ is, ∃ w, read j = .ok w) (member : i ∈ is) (value : read i = .ok v) (s : σ) :
    R.get (R.assign read is s).2 i = v :=
  get_assign_of_reached distinct (reached_of_mem all member value) s

/-- The record stays as it was if each member that is reached has its value already. -/
theorem assign_unchanged_iff (distinct : is.Nodup) (s : σ) :
    (R.assign read is s).2 = s ↔
      ∀ i v, Reached (fun j w => read j = .ok w) is i v → R.get s i = v := by
  constructor
  · intro unchanged i v reached
    have written := get_assign_of_reached (R := R) distinct reached s
    rwa [unchanged] at written
  · intro there
    induction is generalizing s with
    | nil => rfl
    | cons first is ih =>
        cases value : read first with
        | error e => rw [assign_cons_error value]
        | ok v =>
            have same := R.set_get (there first v (.here value))
            rw [assign_cons_ok value, same]
            exact ih (List.nodup_cons.mp distinct).2 s fun i w behind =>
              there i w (.behind value behind)

end Record

import Mathlib.Order.Defs.Unbundled

/-!
# Ordered sets

The elements of an ordered container in the order of `less`. Two elements neither of which is
less than the other are one to the container, so it has at most one of them.
-/

/-- A list that `less` orders strictly. -/
structure OrderedSet (α : Type*) (less : α → α → Prop) : Type _ where
  toList : List α
  sorted : toList.Pairwise less

namespace OrderedSet

variable {α : Type*} {less : α → α → Prop}

instance : Membership α (OrderedSet α less) := ⟨fun s a => a ∈ s.toList⟩

/-- Neither is less than the other. -/
def Equivalent (less : α → α → Prop) (a b : α) : Prop := ¬ less a b ∧ ¬ less b a

def empty : OrderedSet α less := ⟨[], .nil⟩

section emplace

variable [DecidableRel less]

variable (less) in
/-- `a` in front of the first element it is less than, unless an equivalent one comes first. -/
def emplaceList (a : α) : List α → List α
  | [] => [a]
  | b :: rest =>
      if less a b then a :: b :: rest
      else if less b a then b :: emplaceList a rest
      else b :: rest

theorem mem_of_mem_emplaceList {a b : α} {items : List α}
    (member : b ∈ emplaceList less a items) : b = a ∨ b ∈ items := by
  induction items with
  | nil => exact .inl (List.mem_singleton.mp member)
  | cons c rest ih =>
      unfold emplaceList at member
      split at member
      case isTrue => exact List.mem_cons.mp member
      case isFalse =>
        split at member
        case isTrue =>
          rcases List.mem_cons.mp member with rfl | later
          · exact .inr List.mem_cons_self
          · exact (ih later).imp_right (List.mem_cons_of_mem c)
        case isFalse => exact .inr member

variable [IsTrans α less]

theorem mem_emplaceList {a b : α} {items : List α} (sorted : items.Pairwise less) :
    b ∈ emplaceList less a items ↔
      b ∈ items ∨ b = a ∧ ∀ c ∈ items, ¬ Equivalent less c a := by
  induction items with
  | nil =>
      rw [emplaceList, List.mem_singleton, or_iff_right List.not_mem_nil,
        and_iff_left (List.forall_mem_nil _)]
  | cons c rest ih =>
      obtain ⟨first, sorted⟩ := List.pairwise_cons.mp sorted
      unfold emplaceList
      split
      case isTrue before =>
        have fresh : ∀ d ∈ c :: rest, ¬ Equivalent less d a := by
          rintro d member ⟨-, notBefore⟩
          rcases List.mem_cons.mp member with rfl | later
          · exact notBefore before
          · exact notBefore (IsTrans.trans a c d before (first d later))
        rw [List.mem_cons, or_comm, and_iff_left fresh]
      case isFalse notBefore =>
        split
        case isTrue behind =>
          have other : ¬ Equivalent less c a := fun equivalent => equivalent.1 behind
          rw [List.mem_cons, ih sorted, List.mem_cons, List.forall_mem_cons, and_iff_right other,
            or_assoc]
        case isFalse notBehind =>
          have taken : ¬ (b = a ∧ ∀ d ∈ c :: rest, ¬ Equivalent less d a) :=
            fun fresh => fresh.2 c List.mem_cons_self ⟨notBehind, notBefore⟩
          rw [or_iff_left taken]

theorem sorted_emplaceList (a : α) {items : List α} (sorted : items.Pairwise less) :
    (emplaceList less a items).Pairwise less := by
  induction items with
  | nil => exact List.pairwise_singleton less a
  | cons c rest ih =>
      obtain ⟨first, later⟩ := List.pairwise_cons.mp sorted
      unfold emplaceList
      split
      case isTrue before =>
        refine List.pairwise_cons.mpr ⟨fun d member => ?_, sorted⟩
        rcases List.mem_cons.mp member with rfl | member
        · exact before
        · exact IsTrans.trans a c d before (first d member)
      case isFalse =>
        split
        case isTrue behind =>
          refine List.pairwise_cons.mpr ⟨fun d member => ?_, ih later⟩
          rcases mem_of_mem_emplaceList member with rfl | member
          · exact behind
          · exact first d member
        case isFalse => exact sorted

/-- `a` is put in unless an equivalent element is there. -/
def emplace (s : OrderedSet α less) (a : α) : OrderedSet α less :=
  ⟨emplaceList less a s.toList, sorted_emplaceList a s.sorted⟩

theorem mem_emplace {s : OrderedSet α less} {a b : α} :
    b ∈ s.emplace a ↔ b ∈ s ∨ b = a ∧ ∀ c ∈ s, ¬ Equivalent less c a :=
  mem_emplaceList s.sorted

end emplace

end OrderedSet

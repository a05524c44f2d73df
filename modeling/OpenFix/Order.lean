import Mathlib.Data.List.Induction
import Mathlib.Order.Lattice
import Mathlib.Order.Nat
import OpenFix.Lib.OrderedSet

/-!
# The order book

`order.h`. Entries compare by their prices alone, so a side of the book has one entry for each
price, and `emplace` does nothing when there is one.

* `Book.HasFirst.registerEntry`, `Book.hasFirst_registerAll`: what a call, and a run of them,
  leaves in the book.
* `keeps_iff`: when that is the book of the last quantities.
-/

namespace OpenFix.Market

/-- `order_side`. -/
inductive OrderSide : Type
  | buy
  | sell
  deriving DecidableEq, Repr

/-- `entry_t`. -/
structure Entry (Px Qty : Type) : Type where
  px : Px
  qty : Qty
  deriving DecidableEq, Repr

variable {Px Qty : Type} [LinearOrder Px]

/-- `operator<`. -/
def Entry.Less (l r : Entry Px Qty) : Prop := l.px < r.px

/-- `operator>`. -/
def Entry.Greater (l r : Entry Px Qty) : Prop := l.px > r.px

instance : DecidableRel (Entry.Less : Entry Px Qty → Entry Px Qty → Prop) :=
  fun l r => inferInstanceAs (Decidable (l.px < r.px))

instance : DecidableRel (Entry.Greater : Entry Px Qty → Entry Px Qty → Prop) :=
  fun l r => inferInstanceAs (Decidable (l.px > r.px))

instance : IsTrans (Entry Px Qty) Entry.Less := ⟨fun _ _ _ before later => lt_trans before later⟩

instance : IsTrans (Entry Px Qty) Entry.Greater :=
  ⟨fun _ _ _ before later => lt_trans later before⟩

/-- `book_t`. -/
structure Book (Px Qty : Type) [LinearOrder Px] : Type where
  sells : OrderedSet (Entry Px Qty) Entry.Less
  buys : OrderedSet (Entry Px Qty) Entry.Greater

namespace Book

def empty : Book Px Qty := ⟨.empty, .empty⟩

/-- `register_entry`. -/
def registerEntry (book : Book Px Qty) (e : Entry Px Qty) : OrderSide → Book Px Qty
  | .buy => { book with buys := book.buys.emplace e }
  | .sell => { book with sells := book.sells.emplace e }

/-- The calls of a run, from an empty book on. -/
def registerAll (calls : List (Entry Px Qty × OrderSide)) : Book Px Qty :=
  calls.foldl (fun book call => book.registerEntry call.1 call.2) empty

/-- The entries of a side, in the order of iteration. -/
def entries (book : Book Px Qty) : OrderSide → List (Entry Px Qty)
  | .buy => book.buys.toList
  | .sell => book.sells.toList

end Book

theorem equivalent_less {l r : Entry Px Qty} :
    OrderedSet.Equivalent Entry.Less l r ↔ l.px = r.px := by
  constructor
  · rintro ⟨notBelow, notAbove⟩
    exact le_antisymm (not_lt.mp notAbove) (not_lt.mp notBelow)
  · intro same
    exact ⟨fun below => ne_of_lt below same, fun above => ne_of_gt above same⟩

theorem equivalent_greater {l r : Entry Px Qty} :
    OrderedSet.Equivalent Entry.Greater l r ↔ l.px = r.px :=
  and_comm.trans equivalent_less

/-- What a call does. -/
theorem Book.mem_registerEntry {book : Book Px Qty} {e f : Entry Px Qty} {side s : OrderSide} :
    f ∈ (book.registerEntry e side).entries s ↔
      f ∈ book.entries s ∨ (s = side ∧ f = e ∧ ∀ g ∈ book.entries s, g.px ≠ e.px) := by
  cases side <;> cases s
  case buy.buy =>
    refine OrderedSet.mem_emplace.trans (or_congr Iff.rfl ?_)
    simp only [equivalent_greater, true_and]
    rfl
  case sell.sell =>
    refine OrderedSet.mem_emplace.trans (or_congr Iff.rfl ?_)
    simp only [equivalent_less, true_and]
    rfl
  all_goals
    rw [or_iff_left]
    · rfl
    · rintro ⟨same, -⟩
      cases same

/-- The quantities registered for a price of a side, in turn. -/
def registered (calls : List (Entry Px Qty × OrderSide)) (side : OrderSide) (px : Px) : List Qty :=
  calls.filterMap fun call => if call.2 = side ∧ call.1.px = px then some call.1.qty else none

theorem registered_append {calls : List (Entry Px Qty × OrderSide)} {e : Entry Px Qty}
    {side s : OrderSide} {px : Px} :
    registered (calls ++ [(e, side)]) s px =
      registered calls s px ++ if s = side ∧ e.px = px then [e.qty] else [] := by
  rw [registered, List.filterMap_append]
  congr 1
  by_cases here : s = side ∧ e.px = px
  · rw [List.filterMap_cons, if_pos here, if_pos ⟨here.1.symm, here.2⟩, List.filterMap_nil]
  · rw [List.filterMap_cons, if_neg here, if_neg fun there => here ⟨there.1.symm, there.2⟩,
      List.filterMap_nil]

/-- A side of the book has the quantity first registered for a price. -/
def Book.HasFirst (book : Book Px Qty) (calls : List (Entry Px Qty × OrderSide)) : Prop :=
  ∀ s f, f ∈ book.entries s ↔ (registered calls s f.px).head? = some f.qty

theorem Book.hasFirst_empty : (empty : Book Px Qty).HasFirst [] := by
  intro s f
  cases s <;> exact iff_of_false List.not_mem_nil nofun

/-- One call. A price that is there keeps its quantity. -/
theorem Book.HasFirst.registerEntry {book : Book Px Qty}
    {calls : List (Entry Px Qty × OrderSide)} (has : book.HasFirst calls) (e : Entry Px Qty)
    (side : OrderSide) : (book.registerEntry e side).HasFirst (calls ++ [(e, side)]) := by
  intro s f
  rw [Book.mem_registerEntry, has s f, registered_append, List.head?_append]
  cases first : (registered calls s f.px).head? with
  | some qty =>
      -- The side has an entry for the price, so the call leaves it.
      have taken : ⟨f.px, qty⟩ ∈ book.entries s := (has s ⟨f.px, qty⟩).mpr first
      rw [Option.some_or, or_iff_left]
      rintro ⟨-, rfl, free⟩
      exact free _ taken rfl
  | none =>
      have free : ∀ g ∈ book.entries s, g.px ≠ f.px := by
        intro g member same
        rw [has s g, same, first] at member
        cases member
      rw [Option.none_or, or_iff_right nofun]
      split
      case isTrue here =>
        obtain ⟨rfl, same⟩ := here
        constructor
        · rintro ⟨-, rfl, -⟩
          rfl
        · intro qty
          have same : f = e := by
            cases e
            cases f
            cases same
            cases qty
            rfl
          subst same
          exact ⟨rfl, rfl, free⟩
      case isFalse elsewhere =>
        refine iff_of_false ?_ nofun
        rintro ⟨side, same, -⟩
        exact elsewhere ⟨side, same ▸ rfl⟩

/-- Runs. -/
theorem Book.hasFirst_registerAll (calls : List (Entry Px Qty × OrderSide)) :
    (Book.registerAll calls).HasFirst calls := by
  induction calls using List.reverseRecOn with
  | nil => exact hasFirst_empty
  | append_singleton calls call ih =>
      rw [Book.registerAll, List.foldl_append]
      exact ih.registerEntry call.1 call.2

/-- The book of the last quantities: one entry for each registered price of a side, with the
quantity registered last, the best price first; a call leaves the other side as it is. -/
structure Book.Keeps (book : Book Px Qty) (calls : List (Entry Px Qty × OrderSide)) : Prop where
  last : ∀ side px qty,
    ⟨px, qty⟩ ∈ book.entries side ↔ (registered calls side px).getLast? = some qty
  buys : (book.entries .buy).Pairwise fun l r => l.px > r.px
  sells : (book.entries .sell).Pairwise fun l r => l.px < r.px
  other : ∀ e side s, s ≠ side → (book.registerEntry e side).entries s = book.entries s

/-- **The book.** It has the last quantities exactly when they are the first ones. -/
theorem keeps_iff (calls : List (Entry Px Qty × OrderSide)) :
    (Book.registerAll calls).Keeps calls ↔
      ∀ side px, (registered calls side px).head? = (registered calls side px).getLast? := by
  constructor
  · intro keeps side px
    ext qty
    exact (Book.hasFirst_registerAll calls side ⟨px, qty⟩).symm.trans (keeps.last side px qty)
  · intro same
    refine ⟨fun side px qty => ?_, (Book.registerAll calls).buys.sorted,
      (Book.registerAll calls).sells.sorted, fun e side s other => ?_⟩
    · rw [Book.hasFirst_registerAll calls side ⟨px, qty⟩, same]
    · cases side <;> cases s
      case buy.sell | sell.buy => rfl
      all_goals exact absurd rfl other

/-- A second quantity for the same price is lost. -/
theorem not_keeps_second :
    ¬ ∀ calls : List (Entry Nat Nat × OrderSide), (Book.registerAll calls).Keeps calls := by
  intro law
  have last := (law [(⟨100, 5⟩, .buy), (⟨100, 7⟩, .buy)]).last .buy 100 7
  have lost : ⟨100, 7⟩ ∉ (Book.registerAll [((⟨100, 5⟩ : Entry Nat Nat), .buy),
      (⟨100, 7⟩, .buy)]).entries .buy := by decide
  exact lost (last.mpr (by decide))

end OpenFix.Market

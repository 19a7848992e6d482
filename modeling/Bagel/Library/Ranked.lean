/-
This file develops the choice of the best item that suits, as the first such item of a list
whose ranks go down. It is a greatest one among those that suit, so that where no two of them
have the same rank, the order in which the items came does not matter.
-/

import Mathlib.Order.Lattice
import Mathlib.Data.List.Perm.Basic

namespace Ranked

variable {Item Rank : Type} [LinearOrder Rank]

/-- An item that suits, of the highest rank. -/
structure Best (rank : Item → Rank) (suits : Item → Bool) (items : List Item) (item : Item) :
    Prop where
  mem : item ∈ items
  chosen : suits item = true
  highest : ∀ other ∈ items, suits other = true → rank other ≤ rank item

/-- The ranks go down. -/
def Falling (rank : Item → Rank) (items : List Item) : Prop :=
  items.Pairwise fun first second => rank second ≤ rank first

/-- No two items that suit have the same rank. -/
def Apart (rank : Item → Rank) (suits : Item → Bool) (items : List Item) : Prop :=
  ∀ first ∈ items, ∀ second ∈ items, suits first = true → suits second = true →
    rank first = rank second → first = second

variable {rank : Item → Rank} {suits : Item → Bool} {items items' : List Item}
  {item other : Item}

theorem Best.perm (best : Best rank suits items item) (same : items.Perm items') :
    Best rank suits items' item :=
  ⟨same.mem_iff.mp best.mem, best.chosen,
    fun other member => best.highest other (same.mem_iff.mpr member)⟩

theorem Best.unique (apart : Apart rank suits items) (best : Best rank suits items item)
    (best' : Best rank suits items other) : item = other := by
  refine apart item best.mem other best'.mem best.chosen best'.chosen ?_
  exact le_antisymm (best'.highest item best.mem best.chosen)
    (best.highest other best'.mem best'.chosen)

/-- The first item that suits is a best one. -/
theorem Falling.best_of_find? (falling : Falling rank items)
    (found : items.find? suits = some item) : Best rank suits items item := by
  obtain ⟨suited, front, back, rfl, earlier⟩ := List.find?_eq_some_iff_append.mp found
  refine ⟨by simp, suited, ?_⟩
  intro other member also
  rcases List.mem_append.mp member with before | after
  · have unsuited := earlier other before
    rw [also] at unsuited
    cases unsuited
  · rcases List.mem_cons.mp after with rfl | later
    · exact le_refl _
    · have order := (List.pairwise_append.mp falling).2.1
      exact (List.pairwise_cons.mp order).1 other later

end Ranked

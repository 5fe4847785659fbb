import Mathlib.Order.Lattice
import Mathlib.Data.List.Basic

/-! The first of the best items of a list. Only some of the items are admitted to
the comparison. -/
namespace FirstMax

variable {Item Weight : Type*} [LinearOrder Weight]

/-- The item `x` at the position `k` is admitted, no admitted item is better, and
those in front of it are worse. -/
structure IsFirstMax (weight : Item → Weight) (admitted : Item → Prop) (items : List Item)
    (k : Nat) (x : Item) : Prop where
  position : items[k]? = some x
  counts : admitted x
  best : ∀ y ∈ items, admitted y → weight y ≤ weight x
  first : ∀ j < k, ∀ y, items[j]? = some y → admitted y → weight y < weight x

variable {weight : Item → Weight} {admitted : Item → Prop} {items : List Item}

/-- An item in front of the others that none of them exceeds. -/
theorem IsFirstMax.head {x : Item} (hAdmitted : admitted x)
    (hBest : ∀ y ∈ items, admitted y → weight y ≤ weight x) :
    IsFirstMax weight admitted (x :: items) 0 x := by
  refine ⟨rfl, hAdmitted, ?_, fun j hj => absurd hj (Nat.not_lt_zero j)⟩
  intro y mem hy
  rcases List.mem_cons.mp mem with rfl | mem
  · exact le_refl _
  · exact hBest y mem hy

/-- An item in front that is worse, or not admitted, does not count. -/
theorem IsFirstMax.cons {k : Nat} {x : Item} (isMax : IsFirstMax weight admitted items k x)
    {front : Item} (hFront : admitted front → weight front < weight x) :
    IsFirstMax weight admitted (front :: items) (k + 1) x := by
  refine ⟨isMax.position, isMax.counts, ?_, ?_⟩
  · intro y mem hy
    rcases List.mem_cons.mp mem with rfl | mem
    · exact le_of_lt (hFront hy)
    · exact isMax.best y mem hy
  · intro j hj y hGet hy
    cases j with
    | zero =>
        cases hGet
        exact hFront hy
    | succ j => exact isMax.first j (Nat.lt_of_succ_lt_succ hj) y hGet hy

/-- There is one first maximum at most. -/
theorem IsFirstMax.unique {k j : Nat} {x y : Item}
    (isMax : IsFirstMax weight admitted items k x)
    (other : IsFirstMax weight admitted items j y) : k = j ∧ x = y := by
  have hPosition : k = j := by
    rcases Nat.lt_trichotomy k j with hLess | hSame | hMore
    · have hWorse := other.first k hLess x isMax.position isMax.counts
      have hBest := isMax.best y (List.mem_of_getElem? other.position) other.counts
      exact absurd hBest (not_le.mpr hWorse)
    · exact hSame
    · have hWorse := isMax.first j hMore y other.position other.counts
      have hBest := other.best x (List.mem_of_getElem? isMax.position) isMax.counts
      exact absurd hBest (not_le.mpr hWorse)
  have hItem := isMax.position
  rw [hPosition, other.position, Option.some.injEq] at hItem
  exact ⟨hPosition, hItem.symm⟩

end FirstMax

import Mathlib.Algebra.Order.Ring.Defs
import Mathlib.Order.Interval.Set.OrdConnected
import Mathlib.Tactic.Ring

/-! Affine functions on an interval stay between the values at its ends. So what is
affine in each of its arguments stays, over a box, where its values at the corners are. -/
namespace Affine

variable {R : Type*} [CommRing R] [LinearOrder R] [IsStrictOrderedRing R]

def IsAffine (f : R → R) : Prop :=
  ∃ slope offset, ∀ t, f t = slope * t + offset

/-- Affine in each argument while the other one is held. -/
def IsBiaffine (f : R → R → R) : Prop :=
  (∀ y, IsAffine fun x => f x y) ∧ ∀ x, IsAffine (f x)

variable {S : Set R}

theorem IsAffine.mem_of_ends {f : R → R} (affine : IsAffine f) (hS : S.OrdConnected)
    {lo hi t : R} (ht : t ∈ Set.Icc lo hi) (hLo : f lo ∈ S) (hHi : f hi ∈ S) : f t ∈ S := by
  obtain ⟨slope, offset, hf⟩ := affine
  rcases le_total 0 slope with hUp | hDown
  · have hMono {x y : R} (hxy : x ≤ y) : f x ≤ f y := by
      rw [hf, hf]
      exact add_le_add_left (mul_le_mul_of_nonneg_left hxy hUp) offset
    exact hS.out hLo hHi ⟨hMono ht.1, hMono ht.2⟩
  · have hAnti {x y : R} (hxy : x ≤ y) : f y ≤ f x := by
      rw [hf, hf]
      exact add_le_add_left (mul_le_mul_of_nonpos_left hxy hDown) offset
    exact hS.out hHi hLo ⟨hAnti ht.2, hAnti ht.1⟩

theorem IsBiaffine.mem_of_corners {f : R → R → R} (biaffine : IsBiaffine f)
    (hS : S.OrdConnected) {left right top bottom x y : R} (hx : x ∈ Set.Icc left right)
    (hy : y ∈ Set.Icc top bottom) (hLeft : f left top ∈ S ∧ f left bottom ∈ S)
    (hRight : f right top ∈ S ∧ f right bottom ∈ S) : f x y ∈ S := by
  have hLeftSide : f left y ∈ S := (biaffine.2 left).mem_of_ends hS hy hLeft.1 hLeft.2
  have hRightSide : f right y ∈ S := (biaffine.2 right).mem_of_ends hS hy hRight.1 hRight.2
  exact (biaffine.1 y).mem_of_ends hS hx hLeftSide hRightSide

end Affine

import Mathlib.MeasureTheory.Measure.Lebesgue.Basic
import Mathlib.MeasureTheory.Measure.Prod
import Mathlib.MeasureTheory.Measure.Real

/-! Intersection over union, first of any two sets and then of boxes in the
plane. A box whose corners are in the wrong order is empty. -/
namespace Boxes

open MeasureTheory

section Index

variable {α : Type*} [MeasurableSpace α] (μ : Measure α) (A B : Set α)

/-- The share of the common part in all that the two sets cover. -/
noncomputable def jaccard : ℝ :=
  μ.real (A ∩ B) / μ.real (A ∪ B)

theorem jaccard_comm : jaccard μ A B = jaccard μ B A := by
  unfold jaccard
  rw [Set.inter_comm, Set.union_comm]

theorem jaccard_nonneg : 0 ≤ jaccard μ A B :=
  div_nonneg measureReal_nonneg measureReal_nonneg

variable {μ A B}

theorem jaccard_le_one (hA : μ A ≠ ⊤) (hB : μ B ≠ ⊤) : jaccard μ A B ≤ 1 := by
  apply div_le_one_of_le₀ _ measureReal_nonneg
  apply measureReal_mono
  · exact Set.inter_subset_left.trans Set.subset_union_left
  · exact measure_union_ne_top hA hB

/-- A set without extent has nothing in common with another one. -/
theorem jaccard_eq_zero (hA : μ A ≠ ⊤) (hEmpty : μ.real A = 0) : jaccard μ A B = 0 := by
  have hShared : μ.real (A ∩ B) ≤ μ.real A := measureReal_mono Set.inter_subset_left hA
  rw [hEmpty] at hShared
  unfold jaccard
  rw [le_antisymm hShared measureReal_nonneg, zero_div]

/-- The index is one if nothing of either set is left out and there is something
at all. -/
theorem jaccard_eq_one_iff (hB : MeasurableSet B) (hTopA : μ A ≠ ⊤) (hTopB : μ B ≠ ⊤) :
    jaccard μ A B = 1 ↔
      0 < μ.real (A ∩ B) ∧ μ.real (A ∩ B) = μ.real A ∧ μ.real (A ∩ B) = μ.real B := by
  have hSum := measureReal_union_add_inter hB hTopA hTopB
  have hLeft : μ.real (A ∩ B) ≤ μ.real A := measureReal_mono Set.inter_subset_left hTopA
  have hRight : μ.real (A ∩ B) ≤ μ.real B := measureReal_mono Set.inter_subset_right hTopB
  have hShared : 0 ≤ μ.real (A ∩ B) := measureReal_nonneg
  unfold jaccard
  constructor
  · intro hOne
    have hUnion : μ.real (A ∪ B) ≠ 0 := by
      intro hZero
      rw [hZero, div_zero] at hOne
      exact zero_ne_one hOne
    have hSame := (div_eq_one_iff_eq hUnion).mp hOne
    refine ⟨lt_of_le_of_ne hShared ?_, ?_, ?_⟩
    · rw [hSame]
      exact hUnion.symm
    · linarith
    · linarith
  · rintro ⟨hPos, hFirst, hSecond⟩
    have hUnion : μ.real (A ∪ B) = μ.real (A ∩ B) := by linarith
    rw [hUnion, div_self (ne_of_gt hPos)]

end Index

section Plane

variable {p q r s : ℝ × ℝ}

theorem area_box (p q : ℝ × ℝ) :
    volume.real (Set.Icc p q) = max (q.1 - p.1) 0 * max (q.2 - p.2) 0 := by
  rw [Set.Icc_prod_eq, Measure.volume_eq_prod, measureReal_prod_prod, Real.volume_real_Icc,
    Real.volume_real_Icc]

theorem box_ne_top (p q : ℝ × ℝ) : volume (Set.Icc p q) ≠ ⊤ :=
  isCompact_Icc.measure_ne_top

theorem area_box_of_lt (h₁ : p.1 < q.1) (h₂ : p.2 < q.2) :
    volume.real (Set.Icc p q) = (q.1 - p.1) * (q.2 - p.2) := by
  rw [area_box, max_eq_left (sub_nonneg.mpr (le_of_lt h₁)),
    max_eq_left (sub_nonneg.mpr (le_of_lt h₂))]

theorem area_box_pos_iff : 0 < volume.real (Set.Icc p q) ↔ p.1 < q.1 ∧ p.2 < q.2 := by
  constructor
  · intro hPos
    rw [area_box] at hPos
    have hFirst := pos_of_mul_pos_left hPos (le_max_right _ _)
    have hSecond := pos_of_mul_pos_right hPos (le_max_right _ _)
    exact ⟨by simpa using hFirst, by simpa using hSecond⟩
  · rintro ⟨h₁, h₂⟩
    rw [area_box_of_lt h₁ h₂]
    exact mul_pos (sub_pos.mpr h₁) (sub_pos.mpr h₂)

/-- A box inside another one with the same area is the other one, unless both are
flat. -/
theorem box_eq_of_area (hLower : p ≤ r) (hUpper : s ≤ q)
    (hPos : 0 < volume.real (Set.Icc r s))
    (hArea : volume.real (Set.Icc r s) = volume.real (Set.Icc p q)) : r = p ∧ s = q := by
  have hOuter : 0 < volume.real (Set.Icc p q) := hArea ▸ hPos
  obtain ⟨h₁, h₂⟩ := area_box_pos_iff.mp hPos
  obtain ⟨h₃, h₄⟩ := area_box_pos_iff.mp hOuter
  rw [area_box_of_lt h₁ h₂, area_box_of_lt h₃ h₄,
    mul_eq_mul_iff_eq_and_eq_of_pos (sub_le_sub hUpper.1 hLower.1)
      (sub_le_sub hUpper.2 hLower.2) (sub_pos.mpr h₁) (sub_pos.mpr h₄)] at hArea
  obtain ⟨hWidth, hHeight⟩ := hArea
  have hFirst := hLower.1
  have hSecond := hLower.2
  have hThird := hUpper.1
  have hFourth := hUpper.2
  constructor
  · exact Prod.ext (by linarith) (by linarith)
  · exact Prod.ext (by linarith) (by linarith)

/-- Two boxes cover the same part of the plane, and some part, only if they are the
same. -/
theorem jaccard_box_eq_one_iff : jaccard volume (Set.Icc p q) (Set.Icc r s) = 1 ↔
    (r = p ∧ s = q) ∧ 0 < volume.real (Set.Icc p q) := by
  rw [jaccard_eq_one_iff measurableSet_Icc (box_ne_top p q) (box_ne_top r s), Set.Icc_inter_Icc]
  constructor
  · rintro ⟨hPos, hFirst, hSecond⟩
    obtain ⟨hp, hq⟩ := box_eq_of_area le_sup_left inf_le_left hPos hFirst
    obtain ⟨hr, hs⟩ := box_eq_of_area le_sup_right inf_le_right hPos hSecond
    exact ⟨⟨hr.symm.trans hp, hs.symm.trans hq⟩, hFirst ▸ hPos⟩
  · rintro ⟨⟨rfl, rfl⟩, hPos⟩
    rw [sup_idem, inf_idem]
    exact ⟨hPos, rfl, rfl⟩

end Plane
end Boxes

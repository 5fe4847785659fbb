import Hengda.DstEngine.Trail
import Hengda.Library.Boxes
import Mathlib.Analysis.Real.Sqrt

/-! The bounds of the weight that a trail has for a detection. Its first part is the
intersection over union of two regions of the plane, whichever way round the
corners of the boxes are. -/
namespace Hengda

open MeasureTheory

/-- The points between two corners. There are none if the corners are in the wrong
order. -/
def region (a b : Point) : Set (ℝ × ℝ) :=
  Set.Icc ((a.x : ℝ), (a.y : ℝ)) ((b.x : ℝ), (b.y : ℝ))

noncomputable def area (a b : Point) : ℝ :=
  volume.real (region a b)

theorem area_pos_iff (a b : Point) : 0 < area a b ↔ a.x < b.x ∧ a.y < b.y := by
  unfold area region
  rw [Boxes.area_box_pos_iff, Int.cast_lt, Int.cast_lt]

/-- For corners in the right order it is the product that the source computes. -/
theorem area_of_lt {a b : Point} (hx : a.x < b.x) (hy : a.y < b.y) :
    area a b = (((b.x - a.x) * (b.y - a.y) : Int) : ℝ) := by
  unfold area region
  rw [Boxes.area_box_of_lt (Int.cast_lt.mpr hx) (Int.cast_lt.mpr hy)]
  push_cast
  rfl

theorem region_ne_top (a b : Point) : volume (region a b) ≠ ⊤ :=
  Boxes.box_ne_top _ _

namespace Trail

variable (a b lt rb : Point)

/-- The branch that divides is taken. -/
def Overlap : Prop :=
  0 < sharedWidth ℝ a b lt rb ∧ 0 < sharedHeight ℝ a b lt rb

theorem area_inter : volume.real (region a b ∩ region lt rb) =
    max (sharedWidth ℝ a b lt rb) 0 * max (sharedHeight ℝ a b lt rb) 0 := by
  unfold region sharedWidth sharedHeight
  rw [Set.Icc_inter_Icc, Boxes.area_box]
  push_cast
  rfl

variable {a b lt rb}

theorem area_inter_of_overlap (hOverlap : Overlap a b lt rb) :
    volume.real (region a b ∩ region lt rb) =
      sharedWidth ℝ a b lt rb * sharedHeight ℝ a b lt rb := by
  rw [area_inter, max_eq_left (le_of_lt hOverlap.1), max_eq_left (le_of_lt hOverlap.2)]

/-- Boxes that overlap are the right way round, and the divisor is the area of what
they cover together. -/
theorem unionArea_eq (hOverlap : Overlap a b lt rb) :
    unionArea ℝ a b lt rb = volume.real (region a b ∪ region lt rb) := by
  have hInter := area_inter_of_overlap hOverlap
  have hSum := measureReal_union_add_inter (μ := volume) (s := region a b)
    (t := region lt rb) measurableSet_Icc (region_ne_top a b) (region_ne_top lt rb)
  obtain ⟨hWidth, hHeight⟩ := hOverlap
  unfold sharedWidth at hWidth
  unfold sharedHeight at hHeight
  rw [Int.cast_pos] at hWidth hHeight
  unfold unionArea
  rw [← area_of_lt (by omega) (by omega), ← area_of_lt (by omega) (by omega), ← hInter]
  exact (eq_sub_of_add_eq hSum).symm

theorem unionArea_pos (hOverlap : Overlap a b lt rb) : 0 < unionArea ℝ a b lt rb := by
  rw [unionArea_eq hOverlap]
  have hPos := mul_pos hOverlap.1 hOverlap.2
  rw [← area_inter_of_overlap hOverlap] at hPos
  apply lt_of_lt_of_le hPos
  apply measureReal_mono
  · exact Set.inter_subset_left.trans Set.subset_union_left
  · exact measure_union_ne_top (region_ne_top a b) (region_ne_top lt rb)

variable (a b lt rb)

/-- The source computes the intersection over union of the two regions. -/
theorem iou_eq_jaccard :
    iou ℝ a b lt rb = Boxes.jaccard volume (region a b) (region lt rb) := by
  unfold iou Boxes.jaccard
  split_ifs with hApart
  · have hNone : volume.real (region a b ∩ region lt rb) = 0 := by
      rw [area_inter]
      rcases hApart with hWidth | hHeight
      · rw [max_eq_right hWidth, zero_mul]
      · rw [max_eq_right hHeight, mul_zero]
    rw [hNone, zero_div]
  · rw [not_or, not_le, not_le] at hApart
    rw [unionArea_eq hApart, area_inter_of_overlap hApart]

theorem iou_nonneg : 0 ≤ iou ℝ a b lt rb := by
  rw [iou_eq_jaccard]
  exact Boxes.jaccard_nonneg _ _ _

theorem iou_le_one : iou ℝ a b lt rb ≤ 1 := by
  rw [iou_eq_jaccard]
  exact Boxes.jaccard_le_one (region_ne_top a b) (region_ne_top lt rb)

theorem iou_comm : iou ℝ a b lt rb = iou ℝ lt rb a b := by
  rw [iou_eq_jaccard, iou_eq_jaccard, Boxes.jaccard_comm]

variable {a b lt rb}

theorem iou_eq_one_iff :
    iou ℝ a b lt rb = 1 ↔ (lt = a ∧ rb = b) ∧ 0 < area a b := by
  have hCorner (p q : Point) :
      ((p.x : ℝ), (p.y : ℝ)) = ((q.x : ℝ), (q.y : ℝ)) ↔ p = q := by
    rw [Prod.mk.injEq, Int.cast_inj, Int.cast_inj]
    cases p
    cases q
    simp
  rw [iou_eq_jaccard]
  unfold area region
  rw [Boxes.jaccard_box_eq_one_iff, hCorner, hCorner]

/-- A detection without extent overlaps nothing. -/
theorem iou_of_area (hFlat : ¬ 0 < area a b) : iou ℝ a b lt rb = 0 := by
  rw [iou_eq_jaccard]
  apply Boxes.jaccard_eq_zero (region_ne_top a b)
  exact le_antisymm (not_lt.mp hFlat) measureReal_nonneg

variable (a b lt rb)

theorem centreDistance_nonneg : 0 ≤ centreDistance ℝ a b lt rb Real.sqrt :=
  div_nonneg (Real.sqrt_nonneg _) (by norm_num)

theorem centreDistance_comm :
    centreDistance ℝ a b lt rb Real.sqrt = centreDistance ℝ lt rb a b Real.sqrt := by
  unfold centreDistance
  rw [sub_sq_comm, sub_sq_comm (((a.y + b.y : Int) : ℝ) / 2)]

theorem centreDistance_self : centreDistance ℝ a b a b Real.sqrt = 0 := by
  unfold centreDistance
  rw [sub_self, sub_self, zero_pow two_ne_zero, add_zero, Real.sqrt_zero, zero_div]

variable {a b} (t u : Trail)

/-- Either box can be that of the trail. -/
theorem calDis_comm : calDis Real.sqrt t u.lt u.rb = calDis Real.sqrt u t.lt t.rb := by
  rw [calDis_eq, calDis_eq, iou_comm, centreDistance_comm]

theorem calDis_le_theta : calDis Real.sqrt t a b ≤ theta ℝ := by
  have hOverlap := iou_le_one a b t.lt t.rb
  have hDistance := centreDistance_nonneg a b t.lt t.rb
  rw [calDis_eq]
  unfold theta
  linarith

variable {t}

/-- Only the trail of the very same box has the full weight. -/
theorem calDis_eq_theta_iff :
    calDis Real.sqrt t a b = theta ℝ ↔ (t.lt = a ∧ t.rb = b) ∧ 0 < area a b := by
  rw [← iou_eq_one_iff, calDis_eq]
  constructor
  · intro hFull
    have hOverlap := iou_le_one a b t.lt t.rb
    have hDistance := centreDistance_nonneg a b t.lt t.rb
    unfold theta at hFull
    linarith
  · intro hOne
    obtain ⟨⟨hlt, hrb⟩, _⟩ := iou_eq_one_iff.mp hOne
    rw [hOne, hlt, hrb, centreDistance_self, mul_zero, sub_zero, mul_one]

/-- A trail whose box coincides with the detection has no centre to be away from. -/
theorem calDis_nonneg_of_same (hlt : t.lt = a) (hrb : t.rb = b) :
    0 ≤ calDis Real.sqrt t a b := by
  have hOverlap := iou_nonneg a b t.lt t.rb
  rw [calDis_eq, hlt, hrb, centreDistance_self, mul_zero, sub_zero]
  rw [hlt, hrb] at hOverlap
  unfold theta
  linarith

/-- No trail has a greater weight than one whose box coincides with the detection,
also where the box has no extent. -/
theorem calDis_le_of_same (hlt : t.lt = a) (hrb : t.rb = b) :
    calDis Real.sqrt u a b ≤ calDis Real.sqrt t a b := by
  by_cases hArea : 0 < area a b
  · rw [calDis_eq_theta_iff.mpr ⟨⟨hlt, hrb⟩, hArea⟩]
    exact calDis_le_theta u
  · apply le_trans _ (calDis_nonneg_of_same hlt hrb)
    have hDistance := centreDistance_nonneg a b u.lt u.rb
    rw [calDis_eq, iou_of_area hArea]
    unfold theta
    linarith

end Trail
end Hengda

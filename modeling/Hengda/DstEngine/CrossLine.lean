import Hengda.DstEngine.Sides
import Hengda.Library.Segments

/-! The segment test of the line judges. Quick rejection and two straddle tests
would be exact, but the second factor of the last test is never computed. -/
namespace Hengda

/-- The point of the plane that a pixel stands for. -/
def Point.toPlane (p : Point) : ℚ × ℚ :=
  (p.x, p.y)

/-- The closed segments from `a` to `b` and from `c` to `d` have a point in
common, be it an end point of theirs. -/
def SegmentsIntersect (a b c d : Point) : Prop :=
  (segment ℚ a.toPlane b.toPlane ∩ segment ℚ c.toPlane d.toPlane).Nonempty

/-- The segments are not told apart by their bounding boxes. -/
def BoxesOverlap (a b c d : Point) : Prop :=
  min a.x b.x ≤ max c.x d.x ∧ min c.y d.y ≤ max a.y b.y ∧
    min c.x d.x ≤ max a.x b.x ∧ min a.y b.y ≤ max c.y d.y

instance (a b c d : Point) : Decidable (BoxesOverlap a b c d) :=
  inferInstanceAs (Decidable (_ ∧ _ ∧ _ ∧ _))

theorem area_toPlane (a b c : Point) :
    Segments.area a.toPlane b.toPlane c.toPlane = (side a b c : ℚ) := by
  unfold Segments.area Point.toPlane side
  push_cast
  rfl

theorem straddles_toPlane (a b c d : Point) :
    Segments.Straddles a.toPlane b.toPlane c.toPlane d.toPlane ↔
      side a b c * side a b d ≤ 0 := by
  unfold Segments.Straddles
  rw [area_toPlane, area_toPlane]
  exact_mod_cast Iff.rfl

theorem boxesOverlap_toPlane (a b c d : Point) :
    Segments.BoxesOverlap a.toPlane b.toPlane c.toPlane d.toPlane ↔ BoxesOverlap a b c d := by
  have hCast (w x y z : Int) : min (w : ℚ) x ≤ max (y : ℚ) z ↔ min w x ≤ max y z := by
    exact_mod_cast Iff.rfl
  unfold Segments.BoxesOverlap BoxesOverlap Point.toPlane
  dsimp only
  rw [hCast, hCast, hCast, hCast]
  tauto

theorem segmentsIntersect_iff (a b c d : Point) : SegmentsIntersect a b c d ↔
    BoxesOverlap a b c d ∧ side a b c * side a b d ≤ 0 ∧ side c d a * side c d b ≤ 0 := by
  unfold SegmentsIntersect
  rw [Segments.meet_iff, boxesOverlap_toPlane, straddles_toPlane, straddles_toPlane]

/-- Integers are below the tolerance of the source exactly if they are not
positive. -/
theorem le_tolerance_iff (n : Int) : (n : ℚ) ≤ 1 / 10 ^ 9 ↔ n ≤ 0 := by
  constructor
  · intro hSmall
    by_contra hPos
    have hOne : (1 : ℚ) ≤ n := by exact_mod_cast not_le.mp hPos
    norm_num at hSmall
    linarith
  · intro hNonpos
    have hZero : (n : ℚ) ≤ 0 := by exact_mod_cast hNonpos
    norm_num
    linarith

theorem crossLine_iff (z : Double) (a b c d : Point) : crossLine z a b c d = true ↔
    BoxesOverlap a b c d ∧ side a b c * side a b d ≤ 0 ∧ z.mulSmall (-side c d a : Int) = true := by
  have hu : (c.x - a.x) * (b.y - a.y) - (b.x - a.x) * (c.y - a.y) = -side a b c := by
    unfold side
    ring
  have hv : (d.x - a.x) * (b.y - a.y) - (b.x - a.x) * (d.y - a.y) = -side a b d := by
    unfold side
    ring
  have hw : (a.x - c.x) * (d.y - c.y) - (d.x - c.x) * (a.y - c.y) = -side c d a := by
    unfold side
    ring
  unfold crossLine
  rw [hu, hv, hw]
  have hProduct : ((-side a b c : Int) : ℚ) * ((-side a b d : Int) : ℚ) ≤ 1 / 10 ^ 9 ↔
      side a b c * side a b d ≤ 0 := by
    rw [← Int.cast_mul, le_tolerance_iff, neg_mul_neg]
  change (if BoxesOverlap a b c d then _ else false) = true ↔ _
  by_cases hBoxes : BoxesOverlap a b c d
  · rw [if_pos hBoxes, Bool.and_eq_true, decide_eq_true_iff, hProduct]
    simp [hBoxes]
  · rw [if_neg hBoxes]
    simp [hBoxes]

/-- With the value that the source leaves out the test would be exact. -/
theorem crossLine_of_assigned (a b c d : Point) :
    crossLine (.finite (-side c d b : Int)) a b c d = true ↔ SegmentsIntersect a b c d := by
  have hProduct : ((-side c d a : Int) : ℚ) * ((-side c d b : Int) : ℚ) ≤ 1 / 10 ^ 9 ↔
      side c d a * side c d b ≤ 0 := by
    rw [← Int.cast_mul, le_tolerance_iff, neg_mul_neg]
  rw [crossLine_iff, segmentsIntersect_iff]
  unfold Double.mulSmall
  dsimp only
  rw [decide_eq_true_iff, hProduct]

/-- The test is exact whatever the variable holds if the variable is not read:
the boxes do not overlap, or `c` and `d` are strictly on one side of the line
through `a` and `b`. -/
theorem crossLine_exact_iff (a b c d : Point) :
    (∀ z, crossLine z a b c d = true ↔ SegmentsIntersect a b c d) ↔
      ¬ BoxesOverlap a b c d ∨ 0 < side a b c * side a b d := by
  constructor
  · intro hExact
    by_contra hRead
    rw [not_or, not_not, not_lt] at hRead
    obtain ⟨hBoxes, hStraddles⟩ := hRead
    have hTrue : crossLine (.finite 0) a b c d = true := by
      rw [crossLine_iff]
      refine ⟨hBoxes, hStraddles, ?_⟩
      simp [Double.mulSmall]
    have hFalse : crossLine .nan a b c d = true :=
      (hExact .nan).mpr ((hExact (.finite 0)).mp hTrue)
    rw [crossLine_iff] at hFalse
    cases hFalse.2.2
  · intro hUnread z
    rw [crossLine_iff, segmentsIntersect_iff]
    rcases hUnread with hApart | hSameSide
    · simp [hApart]
    · simp [not_le.mpr hSameSide]

/-- The diagonals of a square are not found to cross, and a segment is found to
cross one that it passes at some distance. -/
theorem crossLine_unassigned :
    (SegmentsIntersect ⟨0, 0⟩ ⟨2, 2⟩ ⟨0, 2⟩ ⟨2, 0⟩ ∧
      crossLine (.finite 1) ⟨0, 0⟩ ⟨2, 2⟩ ⟨0, 2⟩ ⟨2, 0⟩ = false) ∧
    (¬ SegmentsIntersect ⟨0, 0⟩ ⟨2, 2⟩ ⟨2, 5⟩ ⟨4, 1⟩ ∧
      crossLine (.finite 0) ⟨0, 0⟩ ⟨2, 2⟩ ⟨2, 5⟩ ⟨4, 1⟩ = true) := by
  rw [segmentsIntersect_iff, segmentsIntersect_iff]
  decide +kernel

end Hengda

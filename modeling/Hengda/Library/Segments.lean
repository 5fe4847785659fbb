import Mathlib.Analysis.Convex.Segment
import Mathlib.Algebra.Order.Field.Basic
import Mathlib.Tactic.FieldSimp
import Mathlib.Tactic.Linarith
import Mathlib.Tactic.LinearCombination
import Mathlib.Tactic.Ring

/-! When two closed segments of the plane meet: their bounding boxes overlap and
each of them has its end points on both sides of the line through the other, or
on it. Coordinates are taken from any linearly ordered field. -/
namespace Segments

section Area

variable {K : Type*} [Field K]

/-- Twice the signed area of a triangle. -/
def area (p q r : K × K) : K :=
  (q.1 - p.1) * (r.2 - p.2) - (q.2 - p.2) * (r.1 - p.1)

/-- The point at the parameter `t` between `a` and `b`. -/
def between (a b : K × K) (t : K) : K × K :=
  (a.1 + t * (b.1 - a.1), a.2 + t * (b.2 - a.2))

theorem area_between (a b c d : K × K) (t : K) :
    area a b (between c d t) = area a b c + t * (area a b d - area a b c) := by
  unfold area between
  ring

theorem area_between_self (a b : K × K) (t : K) : area a b (between a b t) = 0 := by
  unfold area between
  ring

/-- The two straddle tests differ by the same amount from one end point to the
other. -/
theorem area_diff (a b c d : K × K) :
    area a b d - area a b c = -(area c d b - area c d a) := by
  unfold area
  ring

/-- On a line that is not vertical the first coordinate determines the point. -/
theorem eq_of_fst {a b p q : K × K} (hNe : a.1 ≠ b.1) (hp : area a b p = 0) (hq : area a b q = 0)
    (hFst : p.1 = q.1) : p = q := by
  apply Prod.ext hFst
  apply mul_left_cancel₀ (sub_ne_zero.mpr hNe.symm)
  unfold area at hp hq
  linear_combination hp - hq + (b.2 - a.2) * hFst

theorem eq_of_snd {a b p q : K × K} (hNe : a.2 ≠ b.2) (hp : area a b p = 0) (hq : area a b q = 0)
    (hSnd : p.2 = q.2) : p = q := by
  refine Prod.ext ?_ hSnd
  apply mul_left_cancel₀ (sub_ne_zero.mpr hNe.symm)
  unfold area at hp hq
  linear_combination hq - hp + (b.1 - a.1) * hSnd

end Area

variable {K : Type*} [Field K] [LinearOrder K] [IsStrictOrderedRing K]

def BoxesOverlap (a b c d : K × K) : Prop :=
  min a.1 b.1 ≤ max c.1 d.1 ∧ min c.1 d.1 ≤ max a.1 b.1 ∧
    min a.2 b.2 ≤ max c.2 d.2 ∧ min c.2 d.2 ≤ max a.2 b.2

/-- The end points of the second segment are not strictly on one side of the
first one. -/
def Straddles (a b c d : K × K) : Prop :=
  area a b c * area a b d ≤ 0

theorem mem_segment {a b p : K × K} :
    p ∈ segment K a b ↔ ∃ t, 0 ≤ t ∧ t ≤ 1 ∧ p = between a b t := by
  rw [segment_eq_image']
  constructor
  · rintro ⟨t, ⟨hZero, hOne⟩, rfl⟩
    exact ⟨t, hZero, hOne, rfl⟩
  · rintro ⟨t, hZero, hOne, rfl⟩
    exact ⟨t, ⟨hZero, hOne⟩, rfl⟩

/-- Two values that are not strictly on one side of zero are joined by a path
through it. -/
theorem exists_zero {x y : K} (hSigns : x * y ≤ 0) (hNe : x ≠ y) :
    ∃ t, 0 ≤ t ∧ t ≤ 1 ∧ x + t * (y - x) = 0 := by
  have hDiff : x - y ≠ 0 := sub_ne_zero.mpr hNe
  refine ⟨x / (x - y), ?_, ?_, ?_⟩
  · rcases mul_nonpos_iff.mp hSigns with ⟨hx, hy⟩ | ⟨hx, hy⟩
    · exact div_nonneg hx (by linarith)
    · exact div_nonneg_of_nonpos hx (by linarith)
  · rcases mul_nonpos_iff.mp hSigns with ⟨hx, hy⟩ | ⟨hx, hy⟩
    · exact div_le_one_of_le₀ (by linarith) (by linarith)
    · rw [← neg_div_neg_eq]
      exact div_le_one_of_le₀ (by linarith) (by linarith)
  · field_simp
    ring

/-- Only such values are. -/
theorem mul_nonpos_of_zero {x y t : K} (hZero : 0 ≤ t) (hOne : t ≤ 1)
    (hHit : x + t * (y - x) = 0) : x * y ≤ 0 := by
  rcases eq_or_lt_of_le hZero with hStart | hPos
  · rw [← hStart, zero_mul, add_zero] at hHit
    rw [hHit, zero_mul]
  · have hScaled : t * (x * y) = -((1 - t) * (x * x)) := by linear_combination x * hHit
    have hSquare := mul_nonneg (sub_nonneg.mpr hOne) (mul_self_nonneg x)
    by_contra hSame
    have hProduct := mul_pos hPos (not_le.mp hSame)
    linarith

/-- Every value between two others is reached on the way. -/
theorem exists_param {x y p : K} (hMin : min x y ≤ p) (hMax : p ≤ max x y) :
    ∃ t, 0 ≤ t ∧ t ≤ 1 ∧ x + t * (y - x) = p := by
  by_cases hNe : x = y
  · subst hNe
    rw [min_self] at hMin
    rw [max_self] at hMax
    exact ⟨0, le_refl 0, zero_le_one, by rw [le_antisymm hMax hMin]; ring⟩
  · have hSigns : (x - p) * (y - p) ≤ 0 := by
      rcases le_total x y with hLe | hLe
      · rw [min_eq_left hLe] at hMin
        rw [max_eq_right hLe] at hMax
        exact mul_nonpos_of_nonpos_of_nonneg (by linarith) (by linarith)
      · rw [min_eq_right hLe] at hMin
        rw [max_eq_left hLe] at hMax
        exact mul_nonpos_of_nonneg_of_nonpos (by linarith) (by linarith)
    obtain ⟨t, hZero, hOne, hHit⟩ := exists_zero hSigns (fun h => hNe (sub_left_injective h))
    exact ⟨t, hZero, hOne, by linear_combination hHit⟩

theorem between_bounds {x y t : K} (hZero : 0 ≤ t) (hOne : t ≤ 1) :
    min x y ≤ x + t * (y - x) ∧ x + t * (y - x) ≤ max x y := by
  rcases le_total x y with hLe | hLe
  · rw [min_eq_left hLe, max_eq_right hLe]
    have hStep := mul_nonneg hZero (sub_nonneg.mpr hLe)
    have hRest := mul_nonneg (sub_nonneg.mpr hOne) (sub_nonneg.mpr hLe)
    constructor <;> linarith
  · rw [min_eq_right hLe, max_eq_left hLe]
    have hStep := mul_nonneg hZero (sub_nonneg.mpr hLe)
    have hRest := mul_nonneg (sub_nonneg.mpr hOne) (sub_nonneg.mpr hLe)
    constructor <;> linarith

/-- A segment that meets a line straddles it. -/
theorem Straddles.of_mem {a b c d p : K × K} (hLine : area a b p = 0)
    (hMem : p ∈ segment K c d) : Straddles a b c d := by
  obtain ⟨t, hZero, hOne, rfl⟩ := mem_segment.mp hMem
  rw [area_between] at hLine
  exact mul_nonpos_of_zero hZero hOne hLine

theorem BoxesOverlap.of_mem {a b c d p : K × K} (hFirst : p ∈ segment K a b)
    (hSecond : p ∈ segment K c d) : BoxesOverlap a b c d := by
  obtain ⟨s, hsZero, hsOne, rfl⟩ := mem_segment.mp hFirst
  obtain ⟨t, htZero, htOne, hp⟩ := mem_segment.mp hSecond
  obtain ⟨hx, hy⟩ := Prod.mk.inj hp
  have hxFirst := between_bounds (x := a.1) (y := b.1) hsZero hsOne
  have hyFirst := between_bounds (x := a.2) (y := b.2) hsZero hsOne
  have hxSecond := between_bounds (x := c.1) (y := d.1) htZero htOne
  have hySecond := between_bounds (x := c.2) (y := d.2) htZero htOne
  rw [← hx] at hxSecond
  rw [← hy] at hySecond
  exact ⟨hxFirst.1.trans hxSecond.2, hxSecond.1.trans hxFirst.2, hyFirst.1.trans hySecond.2,
    hySecond.1.trans hyFirst.2⟩

/-- Two segments that are not parallel meet where each crosses the line through
the other. -/
theorem meet_of_ne {a b c d : K × K} (hFirst : Straddles a b c d) (hSecond : Straddles c d a b)
    (hNe : area a b c ≠ area a b d) : (segment K a b ∩ segment K c d).Nonempty := by
  have hDiff := area_diff a b c d
  have hNe' : area c d a ≠ area c d b := by
    intro hSame
    apply hNe
    rw [hSame, sub_self, neg_zero] at hDiff
    exact (sub_eq_zero.mp hDiff).symm
  obtain ⟨t, htZero, htOne, htHit⟩ := exists_zero hFirst hNe
  obtain ⟨s, hsZero, hsOne, hsHit⟩ := exists_zero hSecond hNe'
  refine ⟨between a b s, mem_segment.mpr ⟨s, hsZero, hsOne, rfl⟩,
    mem_segment.mpr ⟨t, htZero, htOne, ?_⟩⟩
  have hD : area a b d - area a b c ≠ 0 := sub_ne_zero.mpr (Ne.symm hNe)
  unfold area at hsHit htHit hD
  apply Prod.ext
  · apply mul_left_cancel₀ hD
    unfold between
    linear_combination -(d.1 - c.1) * htHit - (b.1 - a.1) * hsHit
  · apply mul_left_cancel₀ hD
    unfold between
    linear_combination -(d.2 - c.2) * htHit - (b.2 - a.2) * hsHit

/-- A point of the line that lies in the bounding box is one of the segment. -/
theorem mem_of_collinear {a b p : K × K} (hLine : area a b p = 0)
    (hFst : min a.1 b.1 ≤ p.1 ∧ p.1 ≤ max a.1 b.1)
    (hSnd : min a.2 b.2 ≤ p.2 ∧ p.2 ≤ max a.2 b.2) : p ∈ segment K a b := by
  apply mem_segment.mpr
  by_cases hNe : a.1 = b.1
  · obtain ⟨t, hZero, hOne, hHit⟩ := exists_param hSnd.1 hSnd.2
    refine ⟨t, hZero, hOne, Prod.ext ?_ hHit.symm⟩
    rw [← hNe, min_self, max_self] at hFst
    change p.1 = a.1 + t * (b.1 - a.1)
    rw [← hNe, sub_self, mul_zero, add_zero]
    exact le_antisymm hFst.2 hFst.1
  · obtain ⟨t, hZero, hOne, hHit⟩ := exists_param hFst.1 hFst.2
    exact ⟨t, hZero, hOne, eq_of_fst hNe hLine (area_between_self a b t) hHit.symm⟩

omit [Field K] [IsStrictOrderedRing K] in
/-- Two intervals that overlap have a point in common. -/
theorem exists_common {w x y z : K} (hFirst : min w x ≤ max y z) (hSecond : min y z ≤ max w x) :
    ∃ p, (min w x ≤ p ∧ p ≤ max w x) ∧ (min y z ≤ p ∧ p ≤ max y z) :=
  ⟨max (min w x) (min y z), ⟨le_max_left _ _, max_le min_le_max hSecond⟩,
    ⟨le_max_right _ _, max_le hFirst min_le_max⟩⟩

/-- Two segments on one line meet where their shadows on an axis do. -/
theorem meet_of_collinear {a b c d : K × K} (hc : area a b c = 0) (hd : area a b d = 0)
    (ha : area c d a = 0) (hBoxes : BoxesOverlap a b c d) :
    (segment K a b ∩ segment K c d).Nonempty := by
  obtain ⟨hFirstFst, hSecondFst, hFirstSnd, hSecondSnd⟩ := hBoxes
  have hLine (t : K) : area a b (between c d t) = 0 := by
    rw [area_between, hc, hd]
    ring
  by_cases hFst : a.1 = b.1
  · by_cases hSnd : a.2 = b.2
    · rw [← hFst, min_self] at hFirstFst
      rw [← hFst, max_self] at hSecondFst
      rw [← hSnd, min_self] at hFirstSnd
      rw [← hSnd, max_self] at hSecondSnd
      exact ⟨a, left_mem_segment K a b,
        mem_of_collinear ha ⟨hSecondFst, hFirstFst⟩ ⟨hSecondSnd, hFirstSnd⟩⟩
    · obtain ⟨p, hFirst, hSecond⟩ := exists_common hFirstSnd hSecondSnd
      obtain ⟨s, hsZero, hsOne, hs⟩ := exists_param hFirst.1 hFirst.2
      obtain ⟨t, htZero, htOne, ht⟩ := exists_param hSecond.1 hSecond.2
      have hSame : between a b s = between c d t :=
        eq_of_snd hSnd (area_between_self a b s) (hLine t) (hs.trans ht.symm)
      exact ⟨between a b s, mem_segment.mpr ⟨s, hsZero, hsOne, rfl⟩,
        mem_segment.mpr ⟨t, htZero, htOne, hSame⟩⟩
  · obtain ⟨p, hFirst, hSecond⟩ := exists_common hFirstFst hSecondFst
    obtain ⟨s, hsZero, hsOne, hs⟩ := exists_param hFirst.1 hFirst.2
    obtain ⟨t, htZero, htOne, ht⟩ := exists_param hSecond.1 hSecond.2
    have hSame : between a b s = between c d t :=
      eq_of_fst hFst (area_between_self a b s) (hLine t) (hs.trans ht.symm)
    exact ⟨between a b s, mem_segment.mpr ⟨s, hsZero, hsOne, rfl⟩,
      mem_segment.mpr ⟨t, htZero, htOne, hSame⟩⟩

/-- Quick rejection and the two straddle tests decide whether two segments meet,
also for segments on one line and for single points. -/
theorem meet_iff (a b c d : K × K) : (segment K a b ∩ segment K c d).Nonempty ↔
    BoxesOverlap a b c d ∧ Straddles a b c d ∧ Straddles c d a b := by
  constructor
  · rintro ⟨p, hFirst, hSecond⟩
    obtain ⟨s, _, _, hs⟩ := mem_segment.mp hFirst
    obtain ⟨t, _, _, ht⟩ := mem_segment.mp hSecond
    refine ⟨BoxesOverlap.of_mem hFirst hSecond, Straddles.of_mem ?_ hSecond,
      Straddles.of_mem ?_ hFirst⟩
    · rw [hs]
      exact area_between_self a b s
    · rw [ht]
      exact area_between_self c d t
  · rintro ⟨hBoxes, hFirst, hSecond⟩
    by_cases hParallel : area a b c = area a b d
    · have hDiff := area_diff a b c d
      rw [hParallel, sub_self, eq_comm, neg_eq_zero, sub_eq_zero] at hDiff
      unfold Straddles at hFirst hSecond
      rw [hParallel] at hFirst
      rw [hDiff] at hSecond
      have hd : area a b d = 0 := mul_self_eq_zero.mp (le_antisymm hFirst (mul_self_nonneg _))
      have ha : area c d a = 0 := mul_self_eq_zero.mp (le_antisymm hSecond (mul_self_nonneg _))
      exact meet_of_collinear (hParallel.trans hd) hd ha hBoxes
    · exact meet_of_ne hFirst hSecond hParallel

end Segments

import Hengda.DstEngine.Pnpoly

/-! Warning rectangles. The margin is added to the first corner and taken from
the second one, which moves the sides inwards only if the first corner is the
upper left one. -/
namespace Hengda

theorem edgeCrossed_horizontal (testx testy : Int) (vi vj : Point) (hSame : vi.y = vj.y) :
    edgeCrossed testx testy vi vj = false := by
  unfold edgeCrossed
  rw [hSame, bne_self_eq_false, Bool.false_and]

theorem edgeCrossed_vertical (testx testy : Int) (vi vj : Point) (hSame : vi.x = vj.x) :
    edgeCrossed testx testy vi vj =
      ((decide (vi.y > testy) != decide (vj.y > testy)) && decide (testx < vi.x)) := by
  unfold edgeCrossed
  rw [hSame, sub_self, zero_mul, Int.zero_tdiv, zero_add]

/-- The loop over the four corners: the foot is in the rows between the two
horizontal sides, and one of the vertical sides is to its right. -/
theorem pnpoly_innerCorners (p p0 p1 : Point) :
    pnpoly (innerCorners p0 p1) p.x p.y =
      ((decide (p0.y + gap > p.y) != decide (p1.y - gap > p.y)) &&
        (decide (p.x < p0.x + gap) != decide (p.x < p1.x - gap))) := by
  change pnpolyFrom p.x p.y ⟨p1.x - gap, p0.y + gap⟩ (innerCorners p0 p1) false = _
  have hUpper := edgeCrossed_horizontal p.x p.y ⟨p0.x + gap, p0.y + gap⟩
    ⟨p1.x - gap, p0.y + gap⟩ rfl
  have hLeft := edgeCrossed_vertical p.x p.y ⟨p0.x + gap, p1.y - gap⟩
    ⟨p0.x + gap, p0.y + gap⟩ rfl
  have hLower := edgeCrossed_horizontal p.x p.y ⟨p1.x - gap, p1.y - gap⟩
    ⟨p0.x + gap, p1.y - gap⟩ rfl
  have hRight := edgeCrossed_vertical p.x p.y ⟨p1.x - gap, p0.y + gap⟩
    ⟨p1.x - gap, p1.y - gap⟩ rfl
  unfold innerCorners
  rw [pnpolyFrom, pnpolyFrom, pnpolyFrom, pnpolyFrom, pnpolyFrom, hUpper, hLeft, hLower, hRight]
  dsimp only
  cases decide (p0.y + gap > p.y) <;> cases decide (p1.y - gap > p.y) <;>
    cases decide (p.x < p0.x + gap) <;> cases decide (p.x < p1.x - gap) <;> rfl

/-- A value that exactly one of two bounds is above of. -/
theorem above_ne_iff (a b t : Int) :
    (decide (t < a) != decide (t < b)) = true ↔ min a b ≤ t ∧ t < max a b := by
  simp only [bne_iff_ne, ne_eq, decide_eq_decide]
  omega

/-- What the source computes: the zone between the shifted sides, whichever of
them is the left or the upper one after the shift. -/
theorem judgeOutRectangle_iff (p p0 p1 : Point) (rest : List Point) :
    judgeOutRectangle p (p0 :: p1 :: rest) = some true ↔
      (min (p0.x + gap) (p1.x - gap) ≤ p.x ∧ p.x < max (p0.x + gap) (p1.x - gap)) ∧
        (min (p0.y + gap) (p1.y - gap) ≤ p.y ∧ p.y < max (p0.y + gap) (p1.y - gap)) := by
  change some (pnpoly (innerCorners p0 p1) p.x p.y) = some true ↔ _
  rw [Option.some.injEq, pnpoly_innerCorners, Bool.and_eq_true, above_ne_iff (p0.x + gap)]
  have hRows := above_ne_iff (p0.y + gap) (p1.y - gap) p.y
  rw [← hRows, and_comm]

/-- The rectangle that the corners span, with its sides. -/
def InSpanned (p p0 p1 : Point) : Prop :=
  (min p0.x p1.x ≤ p.x ∧ p.x ≤ max p0.x p1.x) ∧ (min p0.y p1.y ≤ p.y ∧ p.y ≤ max p0.y p1.y)

/-- The same rectangle with its sides moved inwards by `GAP`, of which the left
and the upper one belong to it. -/
def InShrunk (p p0 p1 : Point) : Prop :=
  (min p0.x p1.x + gap ≤ p.x ∧ p.x < max p0.x p1.x - gap) ∧
    (min p0.y p1.y + gap ≤ p.y ∧ p.y < max p0.y p1.y - gap)

/-- The zone that is tested is the shrunk rectangle, and so has no point outside
of the rectangle, and none at all if that is too small to be shrunk. -/
structure ShrunkZone (p0 p1 : Point) (rest : List Point) : Prop where
  shrunk : ∀ p, judgeOutRectangle p (p0 :: p1 :: rest) = some true ↔ InShrunk p p0 p1
  spanned : ∀ p, judgeOutRectangle p (p0 :: p1 :: rest) = some true → InSpanned p p0 p1
  small : |p1.x - p0.x| < 2 * gap ∨ |p1.y - p0.y| < 2 * gap →
    ∀ p, judgeOutRectangle p (p0 :: p1 :: rest) ≠ some true

theorem InShrunk.inSpanned {p p0 p1 : Point} (inside : InShrunk p p0 p1) : InSpanned p p0 p1 := by
  unfold InShrunk gap at inside
  unfold InSpanned
  omega

theorem InShrunk.large {p p0 p1 : Point} (inside : InShrunk p p0 p1) :
    2 * gap < |p1.x - p0.x| ∧ 2 * gap < |p1.y - p0.y| := by
  unfold InShrunk at inside
  rw [← max_sub_min_eq_abs', ← max_sub_min_eq_abs']
  constructor <;> omega

/-- The zone is right if the second corner lies to the right of the first one and
below it, by twice the margin at least. It is also right, being empty, if the
second corner is exactly that far in one of the two directions. -/
theorem shrunkZone_iff (p0 p1 : Point) (rest : List Point) : ShrunkZone p0 p1 rest ↔
    (p0.x + 2 * gap ≤ p1.x ∧ p0.y + 2 * gap ≤ p1.y) ∨
      p0.x + 2 * gap = p1.x ∨ p0.y + 2 * gap = p1.y := by
  constructor
  · intro zone
    by_contra hNot
    -- the upper left corner of the zone that the source tests
    let p : Point := ⟨min (p0.x + gap) (p1.x - gap), min (p0.y + gap) (p1.y - gap)⟩
    have hShrunk := zone.shrunk p
    rw [judgeOutRectangle_iff] at hShrunk
    unfold InShrunk at hShrunk
    dsimp only [p] at hShrunk
    unfold gap at hShrunk hNot
    omega
  · intro hOrder
    have hZone : ∀ p, judgeOutRectangle p (p0 :: p1 :: rest) = some true ↔ InShrunk p p0 p1 := by
      intro p
      rw [judgeOutRectangle_iff]
      unfold InShrunk gap at *
      omega
    refine ⟨hZone, fun p hTrue => ((hZone p).mp hTrue).inSpanned, ?_⟩
    intro hSmall p hTrue
    have hLarge := ((hZone p).mp hTrue).large
    omega

/-- The corners from the lower right to the upper left: a foot outside of the
rectangle counts. A rectangle of ten pixels has a zone of thirty. -/
theorem not_shrunkZone :
    (judgeOutRectangle ⟨110, 50⟩ [⟨100, 100⟩, ⟨0, 0⟩] = some true ∧
        ¬ InSpanned ⟨110, 50⟩ ⟨100, 100⟩ ⟨0, 0⟩) ∧
      judgeOutRectangle ⟨5, 5⟩ [⟨0, 0⟩, ⟨10, 10⟩] = some true := by
  unfold InSpanned
  decide

end Hengda

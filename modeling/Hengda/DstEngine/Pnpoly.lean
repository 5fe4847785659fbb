import Hengda.DstEngine.Judge
import Hengda.Library.Cyclic
import Mathlib.Algebra.Order.Field.Basic
import Mathlib.Algebra.Ring.Parity
import Mathlib.Tactic.FieldSimp
import Mathlib.Tactic.Linarith
import Mathlib.Tactic.Ring

/-! The even-odd rule. The intersection of an edge with the row of the tested
point is rounded toward the vertex at which the loop stands, which makes a
difference within one pixel of an edge that the loop enters from its right. -/
namespace Hengda

section Quotient

/-- A truncated quotient is too small if it is positive and not a whole number. -/
theorem lt_tdiv_iff_of_pos (t n : Int) {d : Int} (hPos : 0 < d) :
    t < n.tdiv d ↔ (t : ℚ) < n / d ∧ ¬ ((0 : ℚ) < n / d ∧ (n : ℚ) / d < t + 1) := by
  have hCast : (0 : ℚ) < d := by exact_mod_cast hPos
  have hLess : (t : ℚ) < n / d ↔ t * d < n := by
    rw [lt_div_iff₀ hCast]
    exact_mod_cast Iff.rfl
  have hShort : (n : ℚ) / d < t + 1 ↔ n < (t + 1) * d := by
    rw [div_lt_iff₀ hCast]
    exact_mod_cast Iff.rfl
  have hSign : (0 : ℚ) < n / d ↔ 0 < n := by
    rw [lt_div_iff₀ hCast, zero_mul]
    exact_mod_cast Iff.rfl
  rw [hLess, hShort, hSign]
  rcases le_or_gt n 0 with hNonpos | hPositive
  · have hTrunc : n.tdiv d = -((-n) / d) := by
      rw [← Int.tdiv_eq_ediv_of_nonneg (by omega), Int.neg_tdiv, neg_neg]
    have hFloor : (-n) / d < -t ↔ -n < -t * d := Int.ediv_lt_iff_lt_mul hPos
    rw [hTrunc, lt_neg, hFloor, neg_mul, neg_lt_neg_iff]
    have hNot : ¬ 0 < n := not_lt.mpr hNonpos
    simp [hNot]
  · have hTrunc : n.tdiv d = n / d := Int.tdiv_eq_ediv_of_nonneg (le_of_lt hPositive)
    have hFloor : t + 1 ≤ n / d ↔ (t + 1) * d ≤ n := Int.le_ediv_iff_mul_le hPos
    rw [hTrunc, ← Int.add_one_le_iff, hFloor]
    constructor
    · intro hLe
      refine ⟨?_, fun h => absurd h.2 (not_lt.mpr hLe)⟩
      have hStep : t * d < (t + 1) * d := by
        rw [add_mul, one_mul]
        exact lt_add_of_pos_right _ hPos
      exact lt_of_lt_of_le hStep hLe
    · rintro ⟨_, hNot⟩
      exact not_lt.mp (fun h => hNot ⟨hPositive, h⟩)

theorem lt_tdiv_iff (t n : Int) {d : Int} (hNe : d ≠ 0) :
    t < n.tdiv d ↔ (t : ℚ) < n / d ∧ ¬ ((0 : ℚ) < n / d ∧ (n : ℚ) / d < t + 1) := by
  rcases lt_or_gt_of_ne hNe with hNeg | hPos
  · have h := lt_tdiv_iff_of_pos t (-n) (neg_pos.mpr hNeg)
    rw [Int.neg_tdiv_neg] at h
    push_cast at h
    rwa [neg_div_neg_eq] at h
  · exact lt_tdiv_iff_of_pos t n hPos

end Quotient

/-- The end points of an edge are on different sides of the row, one of which
contains it. -/
def straddles (testy : Int) (e : Point × Point) : Bool :=
  decide (e.1.y > testy) != decide (e.2.y > testy)

/-- Where the edge meets the row. -/
def abscissa (testy : Int) (e : Point × Point) : ℚ :=
  e.1.x + (e.2.x - e.1.x) * (testy - e.1.y) / (e.2.y - e.1.y)

/-- The edge meets the row to the right of the point. -/
def exactlyCrossed (p : Point) (e : Point × Point) : Bool :=
  straddles p.y e && decide ((p.x : ℚ) < abscissa p.y e)

/-- In addition it does so within one pixel of the point, and runs from there to
the left to its vertex `e.1`. -/
def cutShort (p : Point) (e : Point × Point) : Bool :=
  straddles p.y e && decide ((p.x : ℚ) < abscissa p.y e ∧ abscissa p.y e < p.x + 1 ∧
    (e.1.x : ℚ) < abscissa p.y e)

theorem straddles_ne {testy : Int} {e : Point × Point} (hStraddles : straddles testy e = true) :
    e.2.y - e.1.y ≠ 0 := by
  intro hSame
  have hEq : e.1.y = e.2.y := by omega
  unfold straddles at hStraddles
  rw [hEq] at hStraddles
  simp at hStraddles

theorem edgeCrossed_iff (p : Point) (e : Point × Point) : edgeCrossed p.x p.y e.1 e.2 = true ↔
    exactlyCrossed p e = true ∧ cutShort p e = false := by
  change (straddles p.y e && _) = true ↔ _
  unfold exactlyCrossed cutShort
  cases hStraddles : straddles p.y e with
  | false => simp
  | true =>
      have hQuotient := lt_tdiv_iff (p.x - e.1.x) ((e.2.x - e.1.x) * (p.y - e.1.y))
        (straddles_ne hStraddles)
      push_cast at hQuotient
      have hAbscissa : ((e.2.x : ℚ) - e.1.x) * (p.y - e.1.y) / (e.2.y - e.1.y) =
          abscissa p.y e - e.1.x := by
        unfold abscissa
        ring
      rw [hAbscissa] at hQuotient
      have hBound : (p.x : ℚ) - e.1.x < abscissa p.y e - e.1.x ↔ (p.x : ℚ) < abscissa p.y e :=
        sub_lt_sub_iff_right _
      have hPixel : abscissa p.y e - e.1.x < (p.x : ℚ) - e.1.x + 1 ↔
          abscissa p.y e < p.x + 1 := by
        constructor <;> intro h <;> linarith
      rw [hBound, hPixel, sub_pos] at hQuotient
      rw [Bool.true_and, Bool.true_and, Bool.true_and, decide_eq_true_iff, decide_eq_true_iff,
        decide_eq_false_iff_not, ← sub_lt_iff_lt_add, hQuotient]
      tauto

theorem cutShort_crossed {p : Point} {e : Point × Point} (hCut : cutShort p e = true) :
    exactlyCrossed p e = true := by
  unfold cutShort exactlyCrossed at *
  simp only [Bool.and_eq_true, decide_eq_true_eq] at hCut ⊢
  exact ⟨hCut.1, hCut.2.1⟩

/-- The intersection does not depend on the direction of the edge. -/
theorem exactlyCrossed_swap (p : Point) (e : Point × Point) :
    exactlyCrossed p e.swap = exactlyCrossed p e := by
  have hSwap : straddles p.y e.swap = straddles p.y e := Bool.xor_comm _ _
  unfold exactlyCrossed
  rw [hSwap]
  cases hStraddles : straddles p.y e with
  | false => rfl
  | true =>
      have hNe : (e.2.y : ℚ) - e.1.y ≠ 0 := by exact_mod_cast straddles_ne hStraddles
      have hBack : (e.1.y : ℚ) - e.2.y ≠ 0 := by
        rw [← neg_sub]
        exact neg_ne_zero.mpr hNe
      have hSame : abscissa p.y e.swap = abscissa p.y e := by
        unfold abscissa
        dsimp only [Prod.fst_swap, Prod.snd_swap]
        field_simp
        ring
      rw [hSame]

open Cyclic

/-- The loop flips its variable at every edge that it takes for crossed. -/
theorem pnpolyFrom_eq (testx testy : Int) (vj : Point) (vertices : List Point) (c : Bool) :
    pnpolyFrom testx testy vj vertices c = (c != decide (Odd
      ((vertices.zip (vj :: vertices)).countP fun e => edgeCrossed testx testy e.1 e.2))) := by
  induction vertices generalizing vj c with
  | nil => simp [pnpolyFrom]
  | cons vi rest ih =>
      rw [pnpolyFrom, ih, List.zip_cons_cons, List.countP_cons]
      cases hCrossed : edgeCrossed testx testy vi vj with
      | false => simp
      | true =>
          have hFlip (n : Nat) : decide (Odd (n + 1)) = !decide (Odd n) := by
            rw [← decide_not]
            exact decide_eq_decide.mpr Nat.odd_add_one
          rw [if_pos rfl, if_pos rfl, hFlip]
          cases c <;> simp only [Bool.not_true, Bool.not_false, Bool.true_bne, Bool.false_bne,
            Bool.not_not]

theorem pnpoly_iff (vertices : List Point) (p : Point) : pnpoly vertices p.x p.y = true ↔
    Odd (countEdges (fun e => edgeCrossed p.x p.y e.1 e.2) vertices) := by
  unfold pnpoly
  cases hLast : vertices.getLast? with
  | none =>
      rw [List.getLast?_eq_none_iff.mp hLast]
      simp [countEdges, edges]
  | some last =>
      rw [countEdges, edges_of_getLast hLast]
      simp [pnpolyFrom_eq]

theorem judgeOutPolygon_rotated (p : Point) {vertices other : List Point}
    (hRotated : other.IsRotated vertices) :
    judgeOutPolygon p other = judgeOutPolygon p vertices := by
  rw [Bool.eq_iff_iff]
  unfold judgeOutPolygon
  rw [pnpoly_iff, pnpoly_iff, countEdges_rotated _ hRotated]

/-- The loop counts as many edges as it should, up to those that are cut short. -/
theorem countEdges_crossed (p : Point) (vertices : List Point) :
    countEdges (fun e => edgeCrossed p.x p.y e.1 e.2) vertices + countEdges (cutShort p) vertices =
      countEdges (exactlyCrossed p) vertices :=
  countEdges_add (fun _ => cutShort_crossed) (edgeCrossed_iff p) vertices

theorem pnpoly_exact_iff (p : Point) (vertices : List Point) :
    (pnpoly vertices p.x p.y = true ↔ Odd (countEdges (exactlyCrossed p) vertices)) ↔
      Even (countEdges (cutShort p) vertices) := by
  rw [pnpoly_iff, ← countEdges_crossed, Nat.odd_add]
  by_cases hOdd : Odd (countEdges (fun e => edgeCrossed p.x p.y e.1 e.2) vertices) <;> simp [hOdd]

theorem countEdges_exactlyCrossed_reverse (p : Point) (vertices : List Point) :
    countEdges (exactlyCrossed p) vertices.reverse = countEdges (exactlyCrossed p) vertices := by
  rw [countEdges_reverse]
  congr 1
  funext e
  exact exactlyCrossed_swap p e

/-- The rule for one zone and one point, and what follows for those who draw the
zone. -/
structure EvenOdd (p : Point) (vertices : List Point) : Prop where
  exact : pnpoly vertices p.x p.y = true ↔ Odd (countEdges (exactlyCrossed p) vertices)
  start : ∀ other : List Point, other.IsRotated vertices →
    judgeOutPolygon p other = judgeOutPolygon p vertices
  direction : ∀ other : List Point, other.IsRotated vertices.reverse →
    judgeOutPolygon p other = judgeOutPolygon p vertices

theorem pnpoly_reverse_exact_iff (p : Point) (vertices : List Point) :
    (pnpoly vertices.reverse p.x p.y = true ↔ Odd (countEdges (exactlyCrossed p) vertices)) ↔
      Even (countEdges (cutShort p ∘ Prod.swap) vertices) := by
  rw [← countEdges_exactlyCrossed_reverse, pnpoly_exact_iff, countEdges_reverse]

theorem evenOdd_of_even {p : Point} {vertices : List Point}
    (hEven : Even (countEdges (cutShort p) vertices))
    (hSwapped : Even (countEdges (cutShort p ∘ Prod.swap) vertices)) : EvenOdd p vertices := by
  have hForward := (pnpoly_exact_iff p vertices).mpr hEven
  have hBackward := (pnpoly_reverse_exact_iff p vertices).mpr hSwapped
  refine ⟨hForward, fun other hRotated => judgeOutPolygon_rotated p hRotated, ?_⟩
  intro other hRotated
  rw [judgeOutPolygon_rotated p hRotated, Bool.eq_iff_iff]
  exact hBackward.trans hForward.symm

/-- The rule is kept exactly if, in either direction, an even number of edges is
cut short. -/
theorem evenOdd_iff (p : Point) (vertices : List Point) : EvenOdd p vertices ↔
    Even (countEdges (cutShort p) vertices) ∧
      Even (countEdges (cutShort p ∘ Prod.swap) vertices) := by
  constructor
  · intro rule
    have hSame := rule.direction vertices.reverse (List.IsRotated.refl _)
    unfold judgeOutPolygon at hSame
    refine ⟨(pnpoly_exact_iff p vertices).mp rule.exact,
      (pnpoly_reverse_exact_iff p vertices).mp ?_⟩
    rw [hSame]
    exact rule.exact
  · rintro ⟨hEven, hSwapped⟩
    exact evenOdd_of_even hEven hSwapped

/-- A point inside of a triangle, half a pixel from its right edge, is found
outside, and inside when the triangle is drawn the other way round. -/
theorem pnpoly_cutShort :
    let vertices : List Point := [⟨0, 0⟩, ⟨-5, 0⟩, ⟨1, 2⟩]
    Odd (countEdges (exactlyCrossed ⟨0, 1⟩) vertices) ∧ pnpoly vertices 0 1 = false ∧
      judgeOutPolygon ⟨0, 1⟩ vertices.reverse = true := by
  decide +kernel

/-- A zone with sides parallel to the axes is safe. -/
theorem evenOdd_of_axisParallel (p : Point) {vertices : List Point}
    (hSides : ∀ e ∈ edges vertices, e.1.x = e.2.x ∨ e.1.y = e.2.y) : EvenOdd p vertices := by
  have hNone (e : Point × Point) (hSide : e.1.x = e.2.x ∨ e.1.y = e.2.y) :
      cutShort p e = false := by
    rw [← Bool.not_eq_true]
    intro hCut
    unfold cutShort at hCut
    simp only [Bool.and_eq_true, decide_eq_true_eq] at hCut
    obtain ⟨hStraddles, _, _, hRight⟩ := hCut
    rcases hSide with hVertical | hHorizontal
    · have hSame : abscissa p.y e = e.1.x := by
        unfold abscissa
        rw [hVertical]
        ring
      rw [hSame] at hRight
      exact lt_irrefl _ hRight
    · exact straddles_ne hStraddles (by omega)
  have hForward : countEdges (cutShort p) vertices = 0 :=
    countEdges_eq_zero (fun e mem => hNone e (hSides e mem))
  have hBackward : countEdges (cutShort p ∘ Prod.swap) vertices = 0 :=
    countEdges_eq_zero (fun e mem => hNone e.swap ((hSides e mem).imp Eq.symm Eq.symm))
  apply evenOdd_of_even
  · rw [hForward]
    exact Even.zero
  · rw [hBackward]
    exact Even.zero

/-- The corners that a warning rectangle is tested with. -/
def innerCorners (p0 p1 : Point) : List Point :=
  [⟨p0.x + gap, p0.y + gap⟩, ⟨p0.x + gap, p1.y - gap⟩,
    ⟨p1.x - gap, p1.y - gap⟩, ⟨p1.x - gap, p0.y + gap⟩]

/-- Horizontal and vertical sides in turn. -/
theorem edges_innerCorners (p0 p1 : Point) : edges (innerCorners p0 p1) =
    [(⟨p0.x + gap, p0.y + gap⟩, ⟨p1.x - gap, p0.y + gap⟩),
      (⟨p0.x + gap, p1.y - gap⟩, ⟨p0.x + gap, p0.y + gap⟩),
      (⟨p1.x - gap, p1.y - gap⟩, ⟨p0.x + gap, p1.y - gap⟩),
      (⟨p1.x - gap, p0.y + gap⟩, ⟨p1.x - gap, p1.y - gap⟩)] := rfl

/-- So the quotient never makes a difference for a rectangle. -/
theorem judgeOutRectangle_exact (p p0 p1 : Point) (rest : List Point) :
    ∃ r, judgeOutRectangle p (p0 :: p1 :: rest) = some r ∧
      (r = true ↔ Odd (countEdges (exactlyCrossed p) (innerCorners p0 p1))) := by
  have hSides : ∀ e ∈ edges (innerCorners p0 p1), e.1.x = e.2.x ∨ e.1.y = e.2.y := by
    intro e mem
    rw [edges_innerCorners] at mem
    simp only [List.mem_cons, List.not_mem_nil, or_false] at mem
    rcases mem with rfl | rfl | rfl | rfl <;> simp
  exact ⟨_, rfl, (evenOdd_of_axisParallel p hSides).exact⟩

end Hengda

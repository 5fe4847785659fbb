import Hengda.DstEngine.BestMatch
import Hengda.DstEngine.CrossLine
import Hengda.DstEngine.Pnpoly
import Hengda.DstEngine.Sampling
import Hengda.Library.Affine
import Hengda.Utility.BordersLoader

/-! The integer arithmetic of the judges with the range of `int` checked after every
operation. A checked computation has a result only if nothing in it overflows, and
then it has the result of the exact one. The counters of the loops are left out: they
stay below the number of points. -/
namespace Hengda

def Point.IsInt32 (p : Point) : Prop :=
  Hengda.IsInt32 p.x ∧ Hengda.IsInt32 p.y

instance (p : Point) : Decidable p.IsInt32 :=
  inferInstanceAs (Decidable (_ ∧ _))

namespace Checked

def int32 (n : Int) : Option Int :=
  if IsInt32 n then some n else none

def add (a b : Int) : Option Int :=
  int32 (a + b)

def sub (a b : Int) : Option Int :=
  int32 (a - b)

def mul (a b : Int) : Option Int :=
  int32 (a * b)

def div (a b : Int) : Option Int :=
  if b = 0 then none else int32 (a.tdiv b)

/-- The rows of the two end points lie on different sides of `testy`. -/
def enclosed (testy : Int) (vi vj : Point) : Bool :=
  decide (vi.y > testy) != decide (vj.y > testy)

def edgeCrossed (testx testy : Int) (vi vj : Point) : Option Bool :=
  if enclosed testy vi vj then do
    let dx ← sub vj.x vi.x
    let dt ← sub testy vi.y
    let product ← mul dx dt
    let dy ← sub vj.y vi.y
    let quotient ← div product dy
    let x ← add quotient vi.x
    some (decide (testx < x))
  else some false

def pnpolyFrom (testx testy : Int) : Point → List Point → Bool → Option Bool
  | _, [], c => some c
  | vj, vi :: rest, c => do
      let crossed ← edgeCrossed testx testy vi vj
      pnpolyFrom testx testy vi rest (if crossed then !c else c)

def pnpoly (vertices : List Point) (testx testy : Int) : Option Bool :=
  match vertices.getLast? with
  | none => some false
  | some last => pnpolyFrom testx testy last vertices false

/-- Each of the four sums is formed twice in the source. -/
def judgeOutRectangle (trailPoint p₀ p₁ : Point) : Option Bool := do
  let x₀ ← add p₀.x gap
  let x₁ ← sub p₁.x gap
  let y₀ ← add p₀.y gap
  let y₁ ← sub p₁.y gap
  pnpoly [⟨x₀, y₀⟩, ⟨x₀, y₁⟩, ⟨x₁, y₁⟩, ⟨x₁, y₀⟩] trailPoint.x trailPoint.y

def judgeOutPolygon (trailPoint : Point) (originalPoints : List Point) : Option Bool :=
  pnpoly originalPoints trailPoint.x trailPoint.y

/-- The expression that is assigned to `u`, `v` and `w`, for different points. -/
def crossProduct (a b c : Point) : Option Int := do
  let left ← mul (← sub c.x a.x) (← sub b.y a.y)
  let right ← mul (← sub b.x a.x) (← sub c.y a.y)
  sub left right

def crossLine (z : Double) (a b c d : Point) : Option Bool :=
  if BoxesOverlap a b c d then do
    let u ← crossProduct a b c
    let v ← crossProduct a b d
    let w ← crossProduct c d a
    some (decide ((u : ℚ) * v ≤ 1 / 10 ^ 9) && z.mulSmall w)
  else some false

section Results

theorem int32_bind_eq_some_iff {α : Type*} {n : Int} {f : Int → Option α} {r : α} :
    (int32 n).bind f = some r ↔ IsInt32 n ∧ f n = some r := by
  unfold int32
  split_ifs with hRange
  · simp [hRange]
  · simp [hRange]

theorem div_bind_eq_some_iff {α : Type*} {a b : Int} {f : Int → Option α} {r : α} :
    (div a b).bind f = some r ↔ b ≠ 0 ∧ IsInt32 (a.tdiv b) ∧ f (a.tdiv b) = some r := by
  unfold div
  split_ifs with hZero
  · simp [hZero]
  · rw [int32_bind_eq_some_iff]
    simp [hZero]

/-- The values that are formed for an edge are in range. -/
structure EdgeInRange (testy : Int) (vi vj : Point) : Prop where
  dx : IsInt32 (vj.x - vi.x)
  dt : IsInt32 (testy - vi.y)
  product : IsInt32 ((vj.x - vi.x) * (testy - vi.y))
  dy : IsInt32 (vj.y - vi.y)
  divisor : vj.y - vi.y ≠ 0
  quotient : IsInt32 (((vj.x - vi.x) * (testy - vi.y)).tdiv (vj.y - vi.y))
  x : IsInt32 (((vj.x - vi.x) * (testy - vi.y)).tdiv (vj.y - vi.y) + vi.x)

theorem edgeCrossed_eq_some_iff {testx testy : Int} {vi vj : Point} {r : Bool} :
    edgeCrossed testx testy vi vj = some r ↔
      (enclosed testy vi vj = true → EdgeInRange testy vi vj) ∧
        r = Hengda.edgeCrossed testx testy vi vj := by
  unfold edgeCrossed Hengda.edgeCrossed
  change (if enclosed testy vi vj = true then _ else _) = some r ↔
    _ ∧ r = (enclosed testy vi vj && _)
  by_cases hEnclosed : enclosed testy vi vj = true
  · rw [if_pos hEnclosed, hEnclosed, Bool.true_and]
    simp only [Option.bind_eq_bind, sub, mul, add, int32_bind_eq_some_iff, div_bind_eq_some_iff,
      Option.some.injEq, forall_const]
    constructor
    · rintro ⟨hdx, hdt, hProduct, hdy, hDivisor, hQuotient, hx, hr⟩
      exact ⟨⟨hdx, hdt, hProduct, hdy, hDivisor, hQuotient, hx⟩, hr.symm⟩
    · rintro ⟨inRange, hr⟩
      exact ⟨inRange.dx, inRange.dt, inRange.product, inRange.dy, inRange.divisor,
        inRange.quotient, inRange.x, hr.symm⟩
  · rw [if_neg hEnclosed, Bool.eq_false_of_not_eq_true hEnclosed, Bool.false_and]
    simp [eq_comm]

/-- Every edge is looked at, whatever the others are like. -/
def EdgesInRange (testy : Int) (edges : List (Point × Point)) : Prop :=
  ∀ e ∈ edges, enclosed testy e.1 e.2 = true → EdgeInRange testy e.1 e.2

theorem pnpolyFrom_eq_some_iff {testx testy : Int} {vj : Point} {vertices : List Point}
    {c r : Bool} : pnpolyFrom testx testy vj vertices c = some r ↔
      EdgesInRange testy (vertices.zip (vj :: vertices)) ∧
        r = Hengda.pnpolyFrom testx testy vj vertices c := by
  unfold EdgesInRange
  induction vertices generalizing vj c with
  | nil =>
      rw [pnpolyFrom, Hengda.pnpolyFrom, Option.some.injEq]
      exact ⟨fun h => ⟨fun _ mem => absurd mem List.not_mem_nil, h.symm⟩, fun h => h.2.symm⟩
  | cons vi rest ih =>
      rw [pnpolyFrom, Hengda.pnpolyFrom, List.zip_cons_cons, List.forall_mem_cons]
      change Option.bind (edgeCrossed testx testy vi vj) _ = some r ↔ _
      rw [Option.bind_eq_some_iff]
      simp only [edgeCrossed_eq_some_iff, ih, and_assoc]
      constructor
      · rintro ⟨crossed, hHead, rfl, hRest, hr⟩
        exact ⟨hHead, hRest, hr⟩
      · rintro ⟨hHead, hRest, hr⟩
        exact ⟨_, hHead, rfl, hRest, hr⟩

theorem pnpoly_eq_some_iff {vertices : List Point} {testx testy : Int} {r : Bool} :
    pnpoly vertices testx testy = some r ↔
      EdgesInRange testy (Cyclic.edges vertices) ∧ r = Hengda.pnpoly vertices testx testy := by
  unfold pnpoly Hengda.pnpoly
  cases hLast : vertices.getLast? with
  | none =>
      rw [List.getLast?_eq_none_iff.mp hLast, Option.some.injEq]
      exact ⟨fun h => ⟨fun _ mem => absurd mem List.not_mem_nil, h.symm⟩, fun h => h.2.symm⟩
  | some last =>
      rw [Cyclic.edges_of_getLast hLast]
      exact pnpolyFrom_eq_some_iff

theorem judgeOutRectangle_eq_some_iff {p p₀ p₁ : Point} {r : Bool} :
    judgeOutRectangle p p₀ p₁ = some r ↔
      (IsInt32 (p₀.x + gap) ∧ IsInt32 (p₁.x - gap) ∧ IsInt32 (p₀.y + gap) ∧
        IsInt32 (p₁.y - gap)) ∧ EdgesInRange p.y (Cyclic.edges (innerCorners p₀ p₁)) ∧
        r = Hengda.pnpoly (innerCorners p₀ p₁) p.x p.y := by
  unfold judgeOutRectangle
  simp only [Option.bind_eq_bind, add, sub, int32_bind_eq_some_iff, pnpoly_eq_some_iff, and_assoc]
  rfl

/-- The values that are formed for a cross product are in range. -/
structure CrossInRange (a b c : Point) : Prop where
  cax : IsInt32 (c.x - a.x)
  bay : IsInt32 (b.y - a.y)
  left : IsInt32 ((c.x - a.x) * (b.y - a.y))
  bax : IsInt32 (b.x - a.x)
  cay : IsInt32 (c.y - a.y)
  right : IsInt32 ((b.x - a.x) * (c.y - a.y))
  difference : IsInt32 ((c.x - a.x) * (b.y - a.y) - (b.x - a.x) * (c.y - a.y))

theorem crossProduct_bind_eq_some_iff {α : Type*} {a b c : Point} {f : Int → Option α} {r : α} :
    (crossProduct a b c).bind f = some r ↔ CrossInRange a b c ∧
      f ((c.x - a.x) * (b.y - a.y) - (b.x - a.x) * (c.y - a.y)) = some r := by
  unfold crossProduct
  simp only [Option.bind_eq_bind, Option.bind_assoc, sub, mul, int32_bind_eq_some_iff]
  constructor
  · rintro ⟨hcax, hbay, hLeft, hbax, hcay, hRight, hDifference, hr⟩
    exact ⟨⟨hcax, hbay, hLeft, hbax, hcay, hRight, hDifference⟩, hr⟩
  · rintro ⟨inRange, hr⟩
    exact ⟨inRange.cax, inRange.bay, inRange.left, inRange.bax, inRange.cay, inRange.right,
      inRange.difference, hr⟩

/-- The values that are formed once the quick rejection has been passed. -/
structure LineInRange (a b c d : Point) : Prop where
  u : CrossInRange a b c
  v : CrossInRange a b d
  w : CrossInRange c d a

theorem crossLine_eq_some_iff {z : Double} {a b c d : Point} {r : Bool} :
    crossLine z a b c d = some r ↔
      (BoxesOverlap a b c d → LineInRange a b c d) ∧ r = Hengda.crossLine z a b c d := by
  unfold crossLine Hengda.crossLine
  change _ ↔ _ ∧ r = if BoxesOverlap a b c d then _ else false
  by_cases hBoxes : BoxesOverlap a b c d
  · rw [if_pos hBoxes, if_pos hBoxes]
    simp only [Option.bind_eq_bind, crossProduct_bind_eq_some_iff, Option.some.injEq]
    constructor
    · rintro ⟨hu, hv, hw, hr⟩
      exact ⟨fun _ => ⟨hu, hv, hw⟩, hr.symm⟩
    · rintro ⟨inRange, hr⟩
      exact ⟨(inRange hBoxes).u, (inRange hBoxes).v, (inRange hBoxes).w, hr.symm⟩
  · rw [if_neg hBoxes, if_neg hBoxes]
    simp [hBoxes, eq_comm]

end Results

section Edges

/-- The values of `int` as a set without gaps. -/
theorem ordConnected_int32 : {n : Int | IsInt32 n}.OrdConnected :=
  Set.ordConnected_Ico

/-- Between the two rows the quotient is between zero and the difference of columns. -/
theorem tdiv_between {d t n : Int} (hLow : 0 ≤ t) (hHigh : t ≤ n) (hn : 0 < n) :
    min 0 d ≤ (d * t).tdiv n ∧ (d * t).tdiv n ≤ max 0 d := by
  have hUp {d : Int} (hd : 0 ≤ d) : 0 ≤ (d * t).tdiv n ∧ (d * t).tdiv n ≤ d := by
    have hProduct : 0 ≤ d * t := mul_nonneg hd hLow
    rw [Int.tdiv_eq_ediv_of_nonneg hProduct]
    refine ⟨Int.ediv_nonneg hProduct hn.le, Int.ediv_le_of_le_mul hn ?_⟩
    exact mul_le_mul_of_nonneg_left hHigh hd
  rcases le_total 0 d with hd | hd
  · rw [min_eq_left hd, max_eq_right hd]
    exact hUp hd
  · have hNeg := hUp (neg_nonneg.mpr hd)
    rw [neg_mul, Int.neg_tdiv] at hNeg
    rw [min_eq_right hd, max_eq_left hd]
    omega

theorem enclosed_iff (testy : Int) (vi vj : Point) : enclosed testy vi vj = true ↔
    (vi.y ≤ testy ∧ testy < vj.y) ∨ (vj.y ≤ testy ∧ testy < vi.y) := by
  unfold enclosed
  simp only [bne_iff_ne, ne_eq, decide_eq_decide]
  omega

/-- The row of the frame between the end points of an edge that is farthest from the
first of them. -/
def farRow (vi vj : Point) : Int :=
  if vi.y < vj.y then min (vj.y - 1) 1080 else max vj.y 0

/-- An edge that has rows in common with the frame is not too long, and neither is the
product of its width and its height up to the frame. -/
def EdgeFits (vi vj : Point) : Prop :=
  vi.y ≠ vj.y → min vi.y vj.y ≤ 1080 → 0 < max vi.y vj.y →
    IsInt32 (vj.x - vi.x) ∧ IsInt32 (vj.y - vi.y) ∧
      IsInt32 ((vj.x - vi.x) * (farRow vi vj - vi.y))

instance (vi vj : Point) : Decidable (EdgeFits vi vj) :=
  inferInstanceAs (Decidable (_ → _ → _ → _))

variable {vi vj : Point}

/-- A row of the frame is enclosed if any of them is, and the far row is one of those. -/
theorem enclosed_farRow (hRows : vi.y ≠ vj.y) (hTop : min vi.y vj.y ≤ 1080)
    (hBottom : 0 < max vi.y vj.y) : (0 ≤ farRow vi vj ∧ farRow vi vj ≤ 1080) ∧
      enclosed (farRow vi vj) vi vj = true := by
  rw [enclosed_iff]
  unfold farRow
  split_ifs <;> omega

/-- All values of the edge are between values that fit. -/
theorem edgeInRange_of_fits (hi : vi.IsInt32) (hj : vj.IsInt32) (fits : EdgeFits vi vj)
    {testy : Int} (hLow : 0 ≤ testy) (hHigh : testy ≤ 1080)
    (hEnclosed : enclosed testy vi vj = true) : EdgeInRange testy vi vj := by
  rw [enclosed_iff] at hEnclosed
  obtain ⟨hdx, hdy, hFar⟩ := fits (by omega) (by omega) (by omega)
  have hBetween : min 0 (vj.y - vi.y) ≤ testy - vi.y ∧ testy - vi.y ≤ max 0 (vj.y - vi.y) := by
    omega
  have hQuotient : min 0 (vj.x - vi.x) ≤
        ((vj.x - vi.x) * (testy - vi.y)).tdiv (vj.y - vi.y) ∧
      ((vj.x - vi.x) * (testy - vi.y)).tdiv (vj.y - vi.y) ≤ max 0 (vj.x - vi.x) := by
    rcases hEnclosed with hUp | hDown
    · exact tdiv_between (by omega) (by omega) (by omega)
    · have hTurned := tdiv_between (d := vj.x - vi.x) (t := -(testy - vi.y))
        (n := -(vj.y - vi.y)) (by omega) (by omega) (by omega)
      rwa [mul_neg, Int.tdiv_neg, Int.neg_tdiv, neg_neg] at hTurned
  have hAffine : Affine.IsAffine fun t : Int => (vj.x - vi.x) * t :=
    ⟨vj.x - vi.x, 0, fun t => (add_zero _).symm⟩
  have hZero : IsInt32 ((vj.x - vi.x) * 0) := by
    rw [mul_zero]
    decide
  have hProduct : IsInt32 ((vj.x - vi.x) * (testy - vi.y)) := by
    unfold farRow at hFar
    split_ifs at hFar with hOrder
    · exact hAffine.mem_of_ends ordConnected_int32 (S := {n | IsInt32 n})
        ⟨by omega, by omega⟩ hZero hFar
    · exact hAffine.mem_of_ends ordConnected_int32 (S := {n | IsInt32 n})
        ⟨by omega, by omega⟩ hFar hZero
  obtain ⟨hix, hiy⟩ := hi
  obtain ⟨hjx, hjy⟩ := hj
  unfold IsInt32 at hix hiy hjx hjy hdx hdy
  constructor
  · exact hdx
  · unfold IsInt32
    omega
  · exact hProduct
  · exact hdy
  · omega
  · unfold IsInt32
    omega
  · unfold IsInt32
    omega

theorem edgeFits_iff (hi : vi.IsInt32) (hj : vj.IsInt32) :
    (∀ p : Point, p.InFrame → enclosed p.y vi vj = true → EdgeInRange p.y vi vj) ↔
      EdgeFits vi vj := by
  constructor
  · intro hInRange hRows hTop hBottom
    obtain ⟨hFrame, hEnclosed⟩ := enclosed_farRow hRows hTop hBottom
    have hColumn : (0 : Int) ≤ 0 ∧ (0 : Int) ≤ 1920 := by decide
    have inRange := hInRange ⟨0, farRow vi vj⟩ ⟨hColumn, hFrame⟩ hEnclosed
    exact ⟨inRange.dx, inRange.dy, inRange.product⟩
  · intro fits p hFrame hEnclosed
    exact edgeInRange_of_fits hi hj fits hFrame.2.1 hFrame.2.2 hEnclosed

end Edges

section Segments

/-- The segment has a bounding box in common with the frame. -/
def NearFrame (c d : Point) : Prop :=
  (min c.x d.x ≤ 1920 ∧ 0 ≤ max c.x d.x) ∧ (min c.y d.y ≤ 1080 ∧ 0 ≤ max c.y d.y)

instance (c d : Point) : Decidable (NearFrame c d) :=
  inferInstanceAs (Decidable (_ ∧ _))

/-- The point is not too far from the centre of the frame, in each direction and in both
together. -/
structure EndFits (q : Point) : Prop where
  x : 1080 * ((q.x - 960).natAbs + 960) ≤ 2147483647
  y : 1920 * ((q.y - 540).natAbs + 540) ≤ 2147483647
  both : 1080 * (q.x - 960).natAbs + 1920 * (q.y - 540).natAbs ≤ 2147483647

def frameCorners : List Point :=
  [⟨0, 0⟩, ⟨1920, 0⟩, ⟨0, 1080⟩, ⟨1920, 1080⟩]

/-- Seen from the corners of the frame, the products of the segment fit. -/
def CornersFit (c d : Point) : Prop :=
  ∀ a ∈ frameCorners, IsInt32 ((a.x - c.x) * (d.y - c.y)) ∧
    IsInt32 ((d.x - c.x) * (a.y - c.y)) ∧
    IsInt32 ((a.x - c.x) * (d.y - c.y) - (d.x - c.x) * (a.y - c.y))

structure SegmentFits (c d : Point) : Prop where
  start : EndFits c
  stop : EndFits d
  corners : CornersFit c d

variable {a b c d : Point}

theorem nearFrame_of_overlap (ha : a.InFrame) (hb : b.InFrame) (hBoxes : BoxesOverlap a b c d) :
    NearFrame c d := by
  unfold BoxesOverlap at hBoxes
  unfold NearFrame
  obtain ⟨⟨_, _⟩, _, _⟩ := ha
  obtain ⟨⟨_, _⟩, _, _⟩ := hb
  omega

theorem isBiaffine_of_eq {f : Int → Int → Int} (first second : Int → Int)
    (hFirst : ∀ s t, f s t = first t * s + f 0 t) (hSecond : ∀ s t, f s t = second s * t + f s 0) :
    Affine.IsBiaffine f :=
  ⟨fun t => ⟨first t, f 0 t, fun s => hFirst s t⟩, fun s => ⟨second s, f s 0, hSecond s⟩⟩

theorem isInt32_of_corners {f : Int → Int → Int} (biaffine : Affine.IsBiaffine f)
    {left right top bottom x y : Int} (hx : left ≤ x ∧ x ≤ right) (hy : top ≤ y ∧ y ≤ bottom)
    (hLeft : IsInt32 (f left top) ∧ IsInt32 (f left bottom))
    (hRight : IsInt32 (f right top) ∧ IsInt32 (f right bottom)) : IsInt32 (f x y) :=
  biaffine.mem_of_corners ordConnected_int32 hx hy hLeft hRight

/-- The difference for a chord that starts at a corner of the frame. -/
theorem difference_of_corner (hb : b.InFrame) (fits : EndFits c) {x y : Int}
    (hx : x = 0 ∨ x = 1920) (hy : y = 0 ∨ y = 1080) :
    IsInt32 ((c.x - x) * (b.y - y) - (b.x - x) * (c.y - y)) := by
  obtain ⟨hColumn, hRow, hBoth⟩ := fits
  have hBiaffine : Affine.IsBiaffine fun s t : Int => (c.x - x) * (t - y) - (s - x) * (c.y - y) :=
    isBiaffine_of_eq (fun _ => -(c.y - y)) (fun _ => c.x - x) (fun s t => by ring)
      (fun s t => by ring)
  apply isInt32_of_corners hBiaffine hb.1 hb.2
  · rcases hx with rfl | rfl <;> rcases hy with rfl | rfl <;> unfold IsInt32 <;> omega
  · rcases hx with rfl | rfl <;> rcases hy with rfl | rfl <;> unfold IsInt32 <;> omega

/-- The products and their difference are affine in each coordinate of the chord, so that
the corners of the frame decide. -/
theorem crossInRange_of_endFits (ha : a.InFrame) (hb : b.InFrame) (fits : EndFits c) :
    CrossInRange a b c := by
  have hDifference : IsInt32 ((c.x - a.x) * (b.y - a.y) - (b.x - a.x) * (c.y - a.y)) := by
    have hBiaffine : Affine.IsBiaffine fun s t : Int =>
        (c.x - s) * (b.y - t) - (b.x - s) * (c.y - t) :=
      isBiaffine_of_eq (fun _ => c.y - b.y) (fun _ => b.x - c.x) (fun s t => by ring)
        (fun s t => by ring)
    apply isInt32_of_corners hBiaffine ha.1 ha.2
    · exact ⟨difference_of_corner hb fits (Or.inl rfl) (Or.inl rfl),
        difference_of_corner hb fits (Or.inl rfl) (Or.inr rfl)⟩
    · exact ⟨difference_of_corner hb fits (Or.inr rfl) (Or.inl rfl),
        difference_of_corner hb fits (Or.inr rfl) (Or.inr rfl)⟩
  obtain ⟨hColumn, hRow, _⟩ := fits
  obtain ⟨hax, hay⟩ := ha
  obtain ⟨hbx, hby⟩ := hb
  have hLeft : IsInt32 ((c.x - a.x) * (b.y - a.y)) := by
    have hBiaffine : Affine.IsBiaffine fun s t : Int => (c.x - s) * t :=
      isBiaffine_of_eq (fun t => -t) (fun s => c.x - s) (fun s t => by ring) (fun s t => by ring)
    have hRows : -1080 ≤ b.y - a.y ∧ b.y - a.y ≤ 1080 := by omega
    apply isInt32_of_corners hBiaffine hax hRows
    · unfold IsInt32
      omega
    · unfold IsInt32
      omega
  have hRight : IsInt32 ((b.x - a.x) * (c.y - a.y)) := by
    have hBiaffine : Affine.IsBiaffine fun s t : Int => s * (c.y - t) :=
      isBiaffine_of_eq (fun t => c.y - t) (fun s => -s) (fun s t => by ring) (fun s t => by ring)
    have hColumns : -1920 ≤ b.x - a.x ∧ b.x - a.x ≤ 1920 := by omega
    apply isInt32_of_corners hBiaffine hColumns hay
    · unfold IsInt32
      omega
    · unfold IsInt32
      omega
  have hSides : (IsInt32 (c.x - a.x) ∧ IsInt32 (b.y - a.y)) ∧
      IsInt32 (b.x - a.x) ∧ IsInt32 (c.y - a.y) := by
    unfold IsInt32
    omega
  exact ⟨hSides.1.1, hSides.1.2, hLeft, hSides.2.1, hSides.2.2, hRight, hDifference⟩

/-- The products that only depend on where the chord starts. -/
theorem crossInRange_of_corners (ha : a.InFrame) (hc : EndFits c) (hd : EndFits d)
    (corners : CornersFit c d) : CrossInRange c d a := by
  obtain ⟨hTopLeft, hTopRight, hBottomLeft, hBottomRight⟩ :
      _ ∧ _ ∧ _ ∧ _ := ⟨corners ⟨0, 0⟩ (by decide), corners ⟨1920, 0⟩ (by decide),
        corners ⟨0, 1080⟩ (by decide), corners ⟨1920, 1080⟩ (by decide)⟩
  obtain ⟨hax, hay⟩ := ha
  have hLeft : IsInt32 ((a.x - c.x) * (d.y - c.y)) := by
    have hAffine : Affine.IsAffine fun s : Int => (s - c.x) * (d.y - c.y) :=
      ⟨d.y - c.y, -c.x * (d.y - c.y), fun s => by ring⟩
    exact hAffine.mem_of_ends ordConnected_int32 hax hTopLeft.1 hTopRight.1
  have hRight : IsInt32 ((d.x - c.x) * (a.y - c.y)) := by
    have hAffine : Affine.IsAffine fun t : Int => (d.x - c.x) * (t - c.y) :=
      ⟨d.x - c.x, -c.y * (d.x - c.x), fun t => by ring⟩
    exact hAffine.mem_of_ends ordConnected_int32 hay hTopLeft.2.1 hBottomLeft.2.1
  have hDifference : IsInt32 ((a.x - c.x) * (d.y - c.y) - (d.x - c.x) * (a.y - c.y)) := by
    have hBiaffine : Affine.IsBiaffine fun s t : Int =>
        (s - c.x) * (d.y - c.y) - (d.x - c.x) * (t - c.y) :=
      isBiaffine_of_eq (fun _ => d.y - c.y) (fun _ => -(d.x - c.x)) (fun s t => by ring)
        (fun s t => by ring)
    exact isInt32_of_corners hBiaffine hax hay ⟨hTopLeft.2.2, hBottomLeft.2.2⟩
      ⟨hTopRight.2.2, hBottomRight.2.2⟩
  obtain ⟨hcx, hcy, _⟩ := hc
  obtain ⟨hdx, hdy, _⟩ := hd
  have hSides : (IsInt32 (a.x - c.x) ∧ IsInt32 (d.y - c.y)) ∧
      IsInt32 (d.x - c.x) ∧ IsInt32 (a.y - c.y) := by
    unfold IsInt32
    omega
  exact ⟨hSides.1.1, hSides.1.2, hLeft, hSides.2.1, hSides.2.2, hRight, hDifference⟩

/-- The diagonals of the frame, in both directions. -/
def diagonals : List (Point × Point) :=
  [(⟨0, 0⟩, ⟨1920, 1080⟩), (⟨1920, 1080⟩, ⟨0, 0⟩), (⟨1920, 0⟩, ⟨0, 1080⟩),
    (⟨0, 1080⟩, ⟨1920, 0⟩)]

/-- The box of a diagonal is the frame. -/
theorem overlap_of_diagonal {s : Point × Point} (mem : s ∈ diagonals) (hNear : NearFrame c d) :
    (s.1.InFrame ∧ s.2.InFrame) ∧ BoxesOverlap s.1 s.2 c d := by
  unfold NearFrame at hNear
  unfold diagonals at mem
  simp only [List.mem_cons, List.not_mem_nil, or_false] at mem
  have hOverlap : BoxesOverlap s.1 s.2 c d := by
    unfold BoxesOverlap
    rcases mem with rfl | rfl | rfl | rfl <;> dsimp only <;> omega
  refine ⟨?_, hOverlap⟩
  rcases mem with rfl | rfl | rfl | rfl <;> decide

/-- On the diagonals the products and differences get as large as they can. -/
theorem endFits_of_diagonals (hDiagonals : ∀ s ∈ diagonals, CrossInRange s.1 s.2 c) :
    EndFits c := by
  have hDown := hDiagonals (⟨0, 0⟩, ⟨1920, 1080⟩) (by decide)
  have hBack := hDiagonals (⟨1920, 1080⟩, ⟨0, 0⟩) (by decide)
  have hUp := hDiagonals (⟨1920, 0⟩, ⟨0, 1080⟩) (by decide)
  have hForth := hDiagonals (⟨0, 1080⟩, ⟨1920, 0⟩) (by decide)
  obtain ⟨_, _, hLeft, _, _, hRight, hDifference⟩ := hDown
  obtain ⟨_, _, hBackLeft, _, _, hBackRight, hBackDifference⟩ := hBack
  obtain ⟨_, _, hUpLeft, _, _, hUpRight, hUpDifference⟩ := hUp
  obtain ⟨_, _, hForthLeft, _, _, hForthRight, hForthDifference⟩ := hForth
  unfold IsInt32 at *
  dsimp only at *
  constructor <;> omega

theorem segmentFits_iff : (∀ a b : Point, a.InFrame → b.InFrame → BoxesOverlap a b c d →
      LineInRange a b c d) ↔ (NearFrame c d → SegmentFits c d) := by
  constructor
  · intro hInRange hNear
    have hDiagonal (s : Point × Point) (mem : s ∈ diagonals) : LineInRange s.1 s.2 c d := by
      obtain ⟨⟨hFirst, hSecond⟩, hOverlap⟩ := overlap_of_diagonal mem hNear
      exact hInRange s.1 s.2 hFirst hSecond hOverlap
    constructor
    · exact endFits_of_diagonals fun s mem => (hDiagonal s mem).u
    · exact endFits_of_diagonals fun s mem => (hDiagonal s mem).v
    · intro a mem
      have hStart : ∃ s ∈ diagonals, s.1 = a := by
        revert a
        decide
      obtain ⟨s, hs, rfl⟩ := hStart
      have inRange := (hDiagonal s hs).w
      exact ⟨inRange.left, inRange.right, inRange.difference⟩
  · intro hFits a b ha hb hBoxes
    obtain ⟨hc, hd, corners⟩ := hFits (nearFrame_of_overlap ha hb hBoxes)
    exact ⟨crossInRange_of_endFits ha hb hc, crossInRange_of_endFits ha hb hd,
      crossInRange_of_corners ha hc hd corners⟩

end Segments

section Rectangles

/-- The sums fit, and so does the height of the shrunk rectangle if it has rows in common
with the frame. Its width is never formed. -/
structure RectangleFits (p₀ p₁ : Point) : Prop where
  left : p₀.x ≤ 2147483627
  top : p₀.y ≤ 2147483627
  right : -2147483628 ≤ p₁.x
  bottom : -2147483628 ≤ p₁.y
  height : min (p₀.y + 20) (p₁.y - 20) ≤ 1080 → 0 < max (p₀.y + 20) (p₁.y - 20) →
    (p₁.y - p₀.y - 40).natAbs ≤ 2147483647

/-- The horizontal sides are enclosed by no row; along the vertical ones all products are
zero. -/
theorem edgesFit_innerCorners_iff (p₀ p₁ : Point) :
    (∀ e ∈ Cyclic.edges (innerCorners p₀ p₁), EdgeFits e.1 e.2) ↔
      (min (p₀.y + 20) (p₁.y - 20) ≤ 1080 → 0 < max (p₀.y + 20) (p₁.y - 20) →
        (p₁.y - p₀.y - 40).natAbs ≤ 2147483647) := by
  rw [edges_innerCorners]
  simp only [List.forall_mem_cons, List.not_mem_nil, false_imp_iff, implies_true, and_true]
  unfold EdgeFits IsInt32 gap
  simp only [ne_eq, not_true_eq_false, false_imp_iff, sub_self, zero_mul]
  constructor
  · rintro ⟨_, hUp, _, hDown⟩ hTop hBottom
    by_cases hSame : p₀.y + 20 = p₁.y - 20
    · omega
    · have hUpward := hUp (fun h => hSame h.symm) (by omega) (by omega)
      have hDownward := hDown hSame hTop hBottom
      omega
  · intro hHeight
    refine ⟨trivial, fun _ hTop hBottom => ?_, trivial, fun _ hTop hBottom => ?_⟩
    · have hDifference := hHeight (by omega) (by omega)
      omega
    · have hDifference := hHeight hTop hBottom
      omega

/-- No edge overflows anywhere in the frame exactly if every edge fits. -/
theorem edgesFit_iff {vertices : List Point} (hRange : ∀ p ∈ vertices, p.IsInt32) :
    (∀ p : Point, p.InFrame → EdgesInRange p.y (Cyclic.edges vertices)) ↔
      ∀ e ∈ Cyclic.edges vertices, EdgeFits e.1 e.2 := by
  have hEnds (e : Point × Point) (mem : e ∈ Cyclic.edges vertices) :
      e.1.IsInt32 ∧ e.2.IsInt32 := by
    obtain ⟨hFirst, hSecond⟩ := List.of_mem_zip mem
    exact ⟨hRange e.1 hFirst, hRange e.2 (List.mem_rotate.mp hSecond)⟩
  constructor
  · intro hInRange e mem
    obtain ⟨hi, hj⟩ := hEnds e mem
    exact (edgeFits_iff hi hj).mp fun p hFrame => hInRange p hFrame e mem
  · intro hFits p hFrame e mem
    obtain ⟨hi, hj⟩ := hEnds e mem
    exact (edgeFits_iff hi hj).mpr (hFits e mem) p hFrame

theorem rectangleFits_iff {p₀ p₁ : Point} (h₀ : p₀.IsInt32) (h₁ : p₁.IsInt32) :
    (∀ p : Point, p.InFrame → judgeOutRectangle p p₀ p₁ =
      some (Hengda.pnpoly (innerCorners p₀ p₁) p.x p.y)) ↔ RectangleFits p₀ p₁ := by
  simp only [judgeOutRectangle_eq_some_iff, and_true]
  unfold Point.IsInt32 IsInt32 at h₀ h₁
  have hCorners (hSums : IsInt32 (p₀.x + gap) ∧ IsInt32 (p₁.x - gap) ∧ IsInt32 (p₀.y + gap) ∧
      IsInt32 (p₁.y - gap)) : ∀ q ∈ innerCorners p₀ p₁, q.IsInt32 := by
    obtain ⟨hLeft, hRight, hTop, hBottom⟩ := hSums
    unfold innerCorners
    simp only [List.forall_mem_cons, List.not_mem_nil, false_imp_iff, implies_true, and_true]
    exact ⟨⟨hLeft, hTop⟩, ⟨hLeft, hBottom⟩, ⟨hRight, hBottom⟩, ⟨hRight, hTop⟩⟩
  constructor
  · intro hExact
    obtain ⟨hSums, _⟩ := hExact ⟨0, 0⟩ (by decide)
    have hHeight := (edgesFit_innerCorners_iff p₀ p₁).mp
      ((edgesFit_iff (hCorners hSums)).mp fun p hFrame => (hExact p hFrame).2)
    unfold IsInt32 gap at hSums
    exact ⟨by omega, by omega, by omega, by omega, hHeight⟩
  · rintro ⟨hLeft, hTop, hRight, hBottom, hHeight⟩ p hFrame
    have hSums : IsInt32 (p₀.x + gap) ∧ IsInt32 (p₁.x - gap) ∧ IsInt32 (p₀.y + gap) ∧
        IsInt32 (p₁.y - gap) := by
      unfold IsInt32 gap
      omega
    exact ⟨hSums, (edgesFit_iff (hCorners hSums)).mpr
      ((edgesFit_innerCorners_iff p₀ p₁).mpr hHeight) p hFrame⟩

end Rectangles

end Checked

open Checked

/-- Nothing overflows in the judge of this border as long as the feet are in the frame, and
it says what exact arithmetic says. -/
def Border.Exact (z : Double) (border : Border) : Prop :=
  match Graph.ofInt border.graph with
  | some .rectangle => ∀ p₀ p₁ rest, border.points = p₀ :: p₁ :: rest → ∀ p : Point, p.InFrame →
      Checked.judgeOutRectangle p p₀ p₁ = judgeOutRectangle p border.points
  | some .polygon => ∀ p : Point, p.InFrame →
      Checked.judgeOutPolygon p border.points = some (judgeOutPolygon p border.points)
  | _ => ∀ s ∈ border.segments, ∀ a b : Point, a.InFrame → b.InFrame →
      Checked.crossLine z a b s.1 s.2 = some (crossLine z a b s.1 s.2)

/-- The coordinates are small enough where they matter. -/
def Border.Fits (border : Border) : Prop :=
  match Graph.ofInt border.graph with
  | some .rectangle => ∀ p₀ p₁ rest, border.points = p₀ :: p₁ :: rest → RectangleFits p₀ p₁
  | some .polygon => ∀ e ∈ Cyclic.edges border.points, EdgeFits e.1 e.2
  | _ => ∀ s ∈ border.segments, NearFrame s.1 s.2 → SegmentFits s.1 s.2

theorem polygonFits_iff {vertices : List Point} (hRange : ∀ p ∈ vertices, p.IsInt32) :
    (∀ p : Point, p.InFrame →
      Checked.judgeOutPolygon p vertices = some (judgeOutPolygon p vertices)) ↔
      ∀ e ∈ Cyclic.edges vertices, EdgeFits e.1 e.2 := by
  rw [← edgesFit_iff hRange]
  unfold Checked.judgeOutPolygon judgeOutPolygon
  simp only [pnpoly_eq_some_iff, and_true]

theorem Border.exact_iff_fits (z : Double) {border : Border}
    (hRange : ∀ p ∈ border.points, p.IsInt32) : border.Exact z ↔ border.Fits := by
  have hSegments : (∀ s ∈ border.segments, ∀ a b : Point, a.InFrame → b.InFrame →
      Checked.crossLine z a b s.1 s.2 = some (crossLine z a b s.1 s.2)) ↔
      ∀ s ∈ border.segments, NearFrame s.1 s.2 → SegmentFits s.1 s.2 := by
    simp only [crossLine_eq_some_iff, and_true, segmentFits_iff]
  unfold Border.Exact Border.Fits
  cases Graph.ofInt border.graph with
  | none => exact hSegments
  | some graph =>
      cases graph with
      | rectangle =>
          apply forall_congr'
          intro p₀
          apply forall_congr'
          intro p₁
          apply forall_congr'
          intro rest
          apply imp_congr_right
          intro hPoints
          rw [hPoints] at hRange ⊢
          exact rectangleFits_iff (hRange p₀ (by simp)) (hRange p₁ (by simp))
      | polygon => exact polygonFits_iff hRange
      | _ => exact hSegments

/-- What is computed about the borders of a file is exact if and only if their coordinates
fit. -/
theorem exactBorders_iff (text : JsonText) (filename : String) (loader : BordersLoader)
    (z : Double)
    (hRange : ∀ border ∈ (loader.load text filename).1, ∀ p ∈ border.points, p.IsInt32) :
    (∀ border ∈ (loader.load text filename).1, border.Exact z) ↔
      ∀ border ∈ (loader.load text filename).1, border.Fits := by
  apply forall_congr'
  intro border
  apply imp_congr_right
  intro mem
  exact Border.exact_iff_fits z (hRange border mem)

section Sample

/-- A line that starts at the left side of the frame. -/
def lineTo (column : Int) : Json11 :=
  .array [.object [("points", .array [.array [.int 0, .int 500], .array [.int column, .int 500]]),
    ("type", .int 4)]]

/-- What the file has for it. -/
def lineText (column : Int) : Text :=
  ("[\x7b\"points\": [[0, 500], [" ++ toString column ++ ", 500]], \"type\": 4\x7d]").toList

theorem load_lineTo (column : Int) : ((BordersLoader.ofFile (lineText column)).load
    (.ofFile (lineText column) (lineTo column)) "cam.json").1 =
      [⟨4, [⟨0, 500⟩, ⟨column, 500⟩]⟩] :=
  BordersLoader.load_ofFile _ _ _

theorem lineTo_isInt32 {column : Int} (hColumn : IsInt32 column) :
    ∀ border ∈ ((BordersLoader.ofFile (lineText column)).load
      (.ofFile (lineText column) (lineTo column)) "cam.json").1,
      ∀ p ∈ border.points, p.IsInt32 := by
  rw [load_lineTo]
  simpa [Point.IsInt32, hColumn] using (by decide : IsInt32 0 ∧ IsInt32 500)

/-- A line to the right side of the frame fits. -/
theorem exactBorders_iff_sample : (∀ border ∈ ((BordersLoader.ofFile (lineText 1920)).load
      (.ofFile (lineText 1920) (lineTo 1920)) "cam.json").1,
        ∀ p ∈ border.points, p.IsInt32) ∧
    ∀ border ∈ ((BordersLoader.ofFile (lineText 1920)).load
      (.ofFile (lineText 1920) (lineTo 1920)) "cam.json").1, border.Exact (.finite 0) := by
  have hRange := lineTo_isInt32 (show IsInt32 1920 by decide)
  refine ⟨hRange, (exactBorders_iff _ "cam.json" _ _ hRange).mpr ?_⟩
  rw [load_lineTo, List.forall_mem_singleton]
  intro s mem _
  rw [List.mem_singleton.mp mem]
  exact ⟨⟨by decide, by decide, by decide⟩, ⟨by decide, by decide, by decide⟩,
    by unfold CornersFit; decide⟩

/-- A person walks 800 pixels down and crosses a line that ends far outside of the frame: the
product of that with the three million columns to the end of the line is no `int`. -/
theorem not_exactBorders : (∀ border ∈ ((BordersLoader.ofFile (lineText 3000000)).load
      (.ofFile (lineText 3000000) (lineTo 3000000)) "cam.json").1,
        ∀ p ∈ border.points, p.IsInt32) ∧
    ¬ ∀ border ∈ ((BordersLoader.ofFile (lineText 3000000)).load
      (.ofFile (lineText 3000000) (lineTo 3000000)) "cam.json").1, border.Exact (.finite 0) := by
  refine ⟨lineTo_isInt32 (by decide), ?_⟩
  intro hExact
  rw [load_lineTo] at hExact
  have hLine := hExact _ (List.mem_singleton_self _) (⟨0, 500⟩, ⟨3000000, 500⟩)
    (List.mem_singleton_self _) ⟨100, 100⟩ ⟨100, 900⟩ (by decide) (by decide)
  have hNone : Checked.crossLine (.finite 0) ⟨100, 100⟩ ⟨100, 900⟩ ⟨0, 500⟩ ⟨3000000, 500⟩ =
      none := by rfl
  rw [hNone] at hLine
  cases hLine

end Sample

end Hengda

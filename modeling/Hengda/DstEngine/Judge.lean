import Hengda.Utility.Types
import Mathlib.Algebra.Order.Field.Rat

/-! The geometric tests that decide about alarms. `none` stands for an access
outside a vector; the source has no defined behaviour from there on. -/
namespace Hengda

/-- Sampling step along a trail. -/
def sep : Nat := 6

/-- Margin by which a rectangle is shrunk. -/
def gap : Int := 20

/-- The condition of the loop body of `pnpoly` for the edge from vertex `i` to
its predecessor `j`. The quotient is one of integers, truncated toward zero. -/
def edgeCrossed (testx testy : Int) (vi vj : Point) : Bool :=
  (decide (vi.y > testy) != decide (vj.y > testy)) &&
    decide (testx < ((vj.x - vi.x) * (testy - vi.y)).tdiv (vj.y - vi.y) + vi.x)

def pnpolyFrom (testx testy : Int) : Point → List Point → Bool → Bool
  | _, [], c => c
  | vj, vi :: rest, c =>
      pnpolyFrom testx testy vi rest (if edgeCrossed testx testy vi vj then !c else c)

/-- The vertices are the pairs of the two coordinate arrays; the predecessor
of the first one is the last one. -/
def pnpoly (vertices : List Point) (testx testy : Int) : Bool :=
  match vertices.getLast? with
  | none => false
  | some last => pnpolyFrom testx testy last vertices false

def judgeOutRectangle (trailPoint : Point) : List Point → Option Bool
  | p0 :: p1 :: _ =>
      some (pnpoly
        [⟨p0.x + gap, p0.y + gap⟩, ⟨p0.x + gap, p1.y - gap⟩,
          ⟨p1.x - gap, p1.y - gap⟩, ⟨p1.x - gap, p0.y + gap⟩]
        trailPoint.x trailPoint.y)
  | _ => none

def judgeOutPolygon (trailPoint : Point) (originalPoints : List Point) : Bool :=
  pnpoly originalPoints trailPoint.x trailPoint.y

/-- The content of a `double`. Finite values are exact here. -/
inductive Double
  | finite (value : ℚ)
  | infinite (negative : Bool)
  | nan
deriving DecidableEq, Repr

/-- `w*z<=1e-9`. The product of zero and an infinity is not a number, and what
is not a number is not below anything. -/
def Double.mulSmall (w : ℚ) : Double → Bool
  | .finite z => decide (w * z ≤ 1 / 10 ^ 9)
  | .infinite true => decide (0 < w)
  | .infinite false => decide (w < 0)
  | .nan => false

/-- Quick rejection followed by the straddle test. The last local variable of
the source is never assigned, so its content `z` is an argument here. -/
def crossLine (z : Double) (a b c d : Point) : Bool :=
  if min a.x b.x ≤ max c.x d.x ∧ min c.y d.y ≤ max a.y b.y ∧
      min c.x d.x ≤ max a.x b.x ∧ min a.y b.y ≤ max c.y d.y then
    let u : ℚ := ((c.x - a.x) * (b.y - a.y) - (b.x - a.x) * (c.y - a.y) : Int)
    let v : ℚ := ((d.x - a.x) * (b.y - a.y) - (b.x - a.x) * (d.y - a.y) : Int)
    let w : ℚ := ((a.x - c.x) * (d.y - c.y) - (d.x - c.x) * (a.y - c.y) : Int)
    decide (u * v ≤ 1 / 10 ^ 9) && z.mulSmall w
  else false

/-- The stepping loop over a trail. The list is what the iterator still has in
front of it, so a point lies `SEP` further on exactly when the rest is not
empty. One unit of fuel is more than one round needs. -/
def sampledHit (hit : Point → Bool) : Nat → List Point → Bool
  | 0, _ => false
  | fuel + 1, it =>
      match it.drop sep with
      | [] => false
      | p :: rest => hit p || sampledHit hit fuel (p :: rest)

/-- What both line judges ask of one border segment: the chords from the first
point to every sampled point and to the last one. Short trails have only the
chord to the last point. -/
def chordHit (cross : Point → Point → Point → Point → Bool) (first : Point)
    (trail : List Point) (c d : Point) : Bool :=
  let hit := fun p => cross first p c d
  if trail.length ≤ sep then hit (trail.getLastD first)
  else sampledHit hit trail.length trail || hit (trail.getLastD first)

def brokenLineHit (test : Point → Point → Bool) : List Point → Option Bool
  | [] => none
  | [_] => some false
  | q₀ :: q₁ :: rest => if test q₀ q₁ then some true else brokenLineHit test (q₁ :: rest)

def judgeOutBrokenLine (cross : Point → Point → Point → Point → Bool)
    (trailPoints brokenLinePoints : List Point) : Option Bool :=
  match trailPoints with
  | [] => some false
  | [_] => some false
  | first :: _ => brokenLineHit (chordHit cross first trailPoints) brokenLinePoints

def judgeOutLine (cross : Point → Point → Point → Point → Bool)
    (trailPoints linePoints : List Point) : Option Bool :=
  match trailPoints with
  | [] => some false
  | [_] => some false
  | first :: _ =>
      match linePoints with
      | c :: d :: _ => some (chordHit cross first trailPoints c d)
      | _ => none

/-- The four tests as the engine sees them. Most of its properties do not
depend on the geometry, and are proved for every choice of these functions. -/
structure Judges where
  rectangle : Point → List Point → Bool
  polygon : Point → List Point → Bool
  line : List Point → List Point → Bool
  brokenLine : List Point → List Point → Bool

/-- The tests of the source over a given segment test. `stray` is whatever an
access outside a vector happens to lead to. -/
def Judges.ofSource (cross : Point → Point → Point → Point → Bool) (stray : Bool) : Judges where
  rectangle p border := (judgeOutRectangle p border).getD stray
  polygon p border := judgeOutPolygon p border
  line trail border := (judgeOutLine cross trail border).getD stray
  brokenLine trail border := (judgeOutBrokenLine cross trail border).getD stray

/-- The RECTANGLE and POLYGON cases of the intrusion check. -/
def Judges.intrudes (judges : Judges) (p : Point) (border : Border) : Bool :=
  match Graph.ofInt border.graph with
  | some .rectangle => judges.rectangle p border.points
  | some .polygon => judges.polygon p border.points
  | _ => false

/-- The LINE and BROKEN_LINE cases of the crossing check. -/
def Judges.crosses (judges : Judges) (trail : List Point) (border : Border) : Bool :=
  match Graph.ofInt border.graph with
  | some .line => judges.line trail border.points
  | some .brokenLine => judges.brokenLine trail border.points
  | _ => false

end Hengda

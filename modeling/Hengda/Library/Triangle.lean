import Hengda.Library.Segments
import Mathlib.Analysis.Convex.Combination

/-! A segment that enters a triangle through one side and leaves it through none
of the other two has an end point in the triangle. -/
namespace Segments

variable {K : Type*} [Field K]

/-- The point with the coordinates `a` and `b` in the frame of `p`, `s` and `t`. -/
def combine (p s t : K × K) (a b : K) : K × K :=
  (p.1 + a * (s.1 - p.1) + b * (t.1 - p.1), p.2 + a * (s.2 - p.2) + b * (t.2 - p.2))

variable [LinearOrder K] [IsStrictOrderedRing K]

end Segments

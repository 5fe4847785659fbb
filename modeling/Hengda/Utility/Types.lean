import Mathlib.Data.Rat.Defs

/-! Points, warning zones and the conversions between numbers. Coordinates are
unbounded integers; where a computation on them can leave the range of the 32-bit
`int` of the source, `IsInt32` says when it does not. -/
namespace Hengda

/-- A C conversion to an integer type drops the fraction. -/
def truncate (q : ℚ) : Int :=
  q.num.tdiv q.den

/-- The values of a 32-bit `int`. -/
def IsInt32 (n : Int) : Prop :=
  -2147483648 ≤ n ∧ n < 2147483648

instance (n : Int) : Decidable (IsInt32 n) :=
  inferInstanceAs (Decidable (_ ∧ _))

/-- A conversion to `int`. What becomes of a number that has no place there is left to the
machine, which is `other`. -/
def toInt (other : ℚ → Int) (q : ℚ) : Int :=
  if IsInt32 (truncate q) then truncate q else other q

theorem toInt_of_isInt32 {other : ℚ → Int} {q : ℚ} (hRange : IsInt32 (truncate q)) :
    toInt other q = truncate q :=
  if_pos hRange

structure Point where
  x : Int
  y : Int
deriving DecidableEq, Repr

/-- The kinds of warning zone that the border file can name. -/
inductive Graph
  | none | rectangle | ellipse | line | curves | polygon | brokenLine
deriving DecidableEq, Repr

/-- The numbers that the enumeration of the source gives to its constants. -/
def Graph.value : Graph → Int
  | .none => 0
  | .rectangle => 1
  | .ellipse => 2
  | .line => 4
  | .curves => 8
  | .polygon => 16
  | .brokenLine => 32

/-- Any integer can stand in a border file; a `switch` on it reaches a named
case only for the numbers above. -/
def Graph.ofInt (n : Int) : Option Graph :=
  [.none, .rectangle, .ellipse, .line, .curves, .polygon, .brokenLine].find?
    (fun g => g.value = n)

@[simp]
theorem Graph.ofInt_value (g : Graph) : Graph.ofInt g.value = some g := by
  cases g <;> rfl

structure Border where
  graph : Int := 0
  points : List Point := []
deriving DecidableEq, Repr

/-- `round(a.x + b.x) / 2` is a quotient of doubles that is truncated toward
zero when it is stored in an `int`. -/
def foot (a b : Point) : Point :=
  { x := (a.x + b.x).tdiv 2, y := b.y }

end Hengda

import Mathlib.Algebra.Order.Round
import Mathlib.Data.Int.Log
import Mathlib.Data.Rat.Floor
import Mathlib.Tactic.FieldSimp
import Mathlib.Tactic.Linarith

/-! Rounding to the nearest number with so many digits to some base. Numbers in the middle go
to the even side. The exponents are not bounded. -/
namespace Rounding

variable {K : Type*} [Field K] [LinearOrder K] [IsStrictOrderedRing K] [FloorRing K]

/-- The nearest integer, and the even one of two. -/
def nearestEven (x : K) : Int :=
  if Int.fract x + Int.fract x = 1 then ⌊x⌋ + ⌊x⌋ % 2 else round x

/-- `x` with `p` digits to the base `b`. -/
def toPrecision (b p : Nat) (x : K) : K :=
  let unit : K := b ^ (Int.log b |x| + 1 - p)
  nearestEven (x / unit) * unit

/-- The numbers that have `p` digits. -/
def OnGrid (b p : Nat) (x : K) : Prop :=
  ∃ m e : Int, |m| < b ^ p ∧ x = m * b ^ e

section NearestEven

variable {x : K} {n : Int}

theorem floor_le_nearestEven (x : K) : ⌊x⌋ ≤ nearestEven x := by
  unfold nearestEven
  split_ifs
  · have hParity := Int.emod_nonneg ⌊x⌋ (by decide : (2 : Int) ≠ 0)
    omega
  · rw [round_eq]
    apply Int.floor_mono
    linarith

theorem nearestEven_le_ceil (x : K) : nearestEven x ≤ ⌈x⌉ := by
  unfold nearestEven
  split_ifs with hTie
  · have hLess : ⌊x⌋ < ⌈x⌉ := by
      rw [Int.lt_ceil]
      rw [Int.fract] at hTie
      linarith
    have hParity := Int.emod_lt_of_pos ⌊x⌋ (by decide : (0 : Int) < 2)
    omega
  · rw [round]
    split_ifs
    · exact Int.floor_le_ceil x
    · exact le_rfl

/-- No integer lies between a number and its rounding. -/
theorem le_nearestEven (hLe : (n : K) ≤ x) : n ≤ nearestEven x :=
  (Int.le_floor.mpr hLe).trans (floor_le_nearestEven x)

theorem nearestEven_le (hLe : x ≤ n) : nearestEven x ≤ n :=
  (nearestEven_le_ceil x).trans (Int.ceil_le.mpr hLe)

end NearestEven

section Precision

variable {b p : Nat} {x y : K} (hBase : 1 < b)

include hBase

omit [FloorRing K] in
theorem unit_pos (e : Int) : (0 : K) < b ^ e :=
  zpow_pos (Nat.cast_pos.mpr (Nat.zero_lt_of_lt hBase)) e

theorem toPrecision_nonneg (hNonneg : 0 ≤ x) : 0 ≤ toPrecision b p x := by
  unfold toPrecision
  have hUnit : (0 : K) < b ^ (Int.log b |x| + 1 - p) := unit_pos hBase _
  apply mul_nonneg _ hUnit.le
  have hQuotient : ((0 : Int) : K) ≤ x / b ^ (Int.log b |x| + 1 - p) := by
    rw [Int.cast_zero]
    exact div_nonneg hNonneg hUnit.le
  exact_mod_cast le_nearestEven hQuotient

theorem toPrecision_nonpos (hNonpos : x ≤ 0) : toPrecision b p x ≤ 0 := by
  unfold toPrecision
  have hUnit : (0 : K) < b ^ (Int.log b |x| + 1 - p) := unit_pos hBase _
  apply mul_nonpos_of_nonpos_of_nonneg _ hUnit.le
  have hQuotient : x / b ^ (Int.log b |x| + 1 - p) ≤ ((0 : Int) : K) := by
    rw [Int.cast_zero]
    exact div_nonpos_of_nonpos_of_nonneg hNonpos hUnit.le
  exact_mod_cast nearestEven_le hQuotient

/-- A larger number with `p` digits is a multiple of the unit to which `x` is rounded. -/
theorem OnGrid.multiple (hGrid : OnGrid b p y) (hPos : 0 < x) (hLe : x ≤ y) :
    ∃ m : Int, y = m * b ^ (Int.log b |x| + 1 - p) := by
  obtain ⟨m, e, hDigits, rfl⟩ := hGrid
  have hNonzero : (b : K) ≠ 0 := Nat.cast_ne_zero.mpr (Nat.ne_of_gt (Nat.zero_lt_of_lt hBase))
  have hLow : (b : K) ^ Int.log b |x| < b ^ ((p : Int) + e) := by
    calc (b : K) ^ Int.log b |x|
        ≤ |x| := Int.zpow_log_le_self hBase (abs_pos.mpr hPos.ne')
      _ = x := abs_of_pos hPos
      _ ≤ m * b ^ e := hLe
      _ ≤ |(m : K)| * b ^ e :=
          mul_le_mul_of_nonneg_right (le_abs_self _) (unit_pos hBase e).le
      _ < b ^ p * b ^ e := by
          apply mul_lt_mul_of_pos_right _ (unit_pos hBase e)
          exact_mod_cast hDigits
      _ = b ^ ((p : Int) + e) := by rw [zpow_add₀ hNonzero, zpow_natCast]
  have hExponent : Int.log b |x| < p + e :=
    (zpow_lt_zpow_iff_right₀ (Nat.one_lt_cast.mpr hBase)).mp hLow
  obtain ⟨d, hd⟩ := Int.le.dest (show Int.log b |x| + 1 - p ≤ e by omega)
  refine ⟨m * b ^ d, ?_⟩
  rw [← hd, zpow_add₀ hNonzero, zpow_natCast]
  push_cast
  ring

/-- Rounding does not pass a number with `p` digits. -/
theorem toPrecision_le (hGrid : OnGrid b p y) (hNonneg : 0 ≤ y) (hLe : x ≤ y) :
    toPrecision b p x ≤ y := by
  rcases le_or_gt x 0 with hNonpos | hPos
  · exact (toPrecision_nonpos hBase hNonpos).trans hNonneg
  · obtain ⟨m, rfl⟩ := hGrid.multiple hBase hPos hLe
    have hUnit : (0 : K) < b ^ (Int.log b |x| + 1 - p) := unit_pos hBase _
    apply mul_le_mul_of_nonneg_right _ hUnit.le
    have hNearest := nearestEven_le ((div_le_iff₀ hUnit).mpr hLe)
    exact_mod_cast hNearest

/-- Rounding a number that has `p` digits changes nothing. -/
theorem toPrecision_eq (hGrid : OnGrid b p x) (hNonneg : 0 ≤ x) : toPrecision b p x = x := by
  apply le_antisymm (toPrecision_le hBase hGrid hNonneg le_rfl)
  rcases hNonneg.eq_or_lt with hZero | hPos
  · rw [← hZero]
    exact toPrecision_nonneg hBase le_rfl
  · obtain ⟨m, hMultiple⟩ := hGrid.multiple hBase hPos le_rfl
    have hUnit : (0 : K) < b ^ (Int.log b |x| + 1 - p) := unit_pos hBase _
    have hNearest := le_nearestEven ((le_div_iff₀ hUnit).mpr hMultiple.ge)
    calc x = m * b ^ (Int.log b |x| + 1 - p) := hMultiple
      _ ≤ toPrecision b p x := by
          apply mul_le_mul_of_nonneg_right _ hUnit.le
          exact_mod_cast hNearest

end Precision

omit [LinearOrder K] [IsStrictOrderedRing K] [FloorRing K] in
theorem onGrid_natCast {b p n : Nat} (hDigits : n < b ^ p) : OnGrid b p (n : K) := by
  refine ⟨n, 0, ?_, by simp⟩
  rw [Nat.abs_cast]
  exact_mod_cast hDigits

/-- Between two numbers with 24 digits there is nothing odd. -/
example : toPrecision 2 24 (16777219 : ℚ) = 16777220 := by decide +kernel

end Rounding

import Mathlib.Data.List.Basic

/-! Numbers as they are printed: digits without a leading zero, behind a sign for
a number below zero. A long number is put together from blocks of digits. -/
namespace Decimal

theorem toList_toString_int (n : Int) :
    (toString n).toList = (if n < 0 then ['-'] else []) ++ Nat.toDigits 10 n.natAbs := by
  rw [Int.toString_eq_repr, Int.repr_eq_if]
  by_cases hSign : 0 ≤ n
  · rw [if_pos hSign, if_neg (Int.not_lt.mpr hSign), Nat.toList_repr, List.nil_append]
    congr 1
    omega
  · rw [if_neg hSign, if_pos (Int.not_le.mp hSign), String.toList_append, Nat.toList_repr]
    congr 2
    omega

theorem head?_toDigits {n : Nat} (hPositive : n ≠ 0) : (Nat.toDigits 10 n).head? ≠ some '0' := by
  induction n using Nat.strongRecOn with
  | ind n ih =>
      by_cases hSmall : n < 10
      · rw [Nat.toDigits_of_lt_base hSmall]
        have hDigit : ∀ d < 10, d ≠ 0 → [Nat.digitChar d].head? ≠ some '0' := by decide
        exact hDigit n hSmall hPositive
      · have hBase : 10 ≤ n := Nat.le_of_not_lt hSmall
        rw [Nat.toDigits_of_base_le (by decide) hBase,
          List.head?_append_of_ne_nil _ Nat.toDigits_ne_nil]
        exact ih (n / 10) (by omega) (by omega)

/-- The digits of a number have its value. -/
theorem foldl_toDigits (n : Nat) :
    (Nat.toDigits 10 n).foldl (fun value ch => value * 10 + (ch.toNat - 48)) 0 = n := by
  have hValue := Nat.ofDigitChars_ten_toDigits (n := n)
  simp only [Nat.ofDigitChars_eq_foldl, Nat.mul_comm 10] at hValue
  exact hValue

section Blocks

variable (base : Nat)

/-- The last digits of a number, with zeros in front. -/
def block : Nat → Nat → List Char
  | 0, _ => []
  | width + 1, n => block width (n / base) ++ [Nat.digitChar (n % base)]

/-- The number without its last digits. -/
def shifted : Nat → Nat → Nat
  | 0, n => n
  | width + 1, n => shifted width (n / base)

theorem shifted_zero (width : Nat) : shifted base width 0 = 0 := by
  induction width with
  | zero => rfl
  | succ width ih => rw [shifted, Nat.zero_div, ih]

variable {base}

/-- A number with a digit in front of a block is printed as the rest and the block. -/
theorem toDigits_block (hBase : 1 < base) (width : Nat) {n : Nat}
    (hRest : shifted base width n ≠ 0) :
    Nat.toDigits base n = Nat.toDigits base (shifted base width n) ++ block base width n := by
  induction width generalizing n with
  | zero => rw [shifted, block, List.append_nil]
  | succ width ih =>
      rw [shifted] at hRest
      have hQuotient : n / base ≠ 0 := by
        intro hZero
        rw [hZero, shifted_zero] at hRest
        exact hRest rfl
      have hLarge : base ≤ n := by
        by_contra hSmall
        exact hQuotient (Nat.div_eq_of_lt (Nat.not_le.mp hSmall))
      rw [Nat.toDigits_of_base_le hBase hLarge, ih hRest, shifted, block, List.append_assoc]

/-- A number whose first digit stands in front of the block. -/
theorem toDigits_first (hBase : 1 < base) (width : Nat) {n : Nat}
    (hDigit : shifted base width n < base) (hFirst : shifted base width n ≠ 0) :
    Nat.toDigits base n = Nat.digitChar (shifted base width n) :: block base width n := by
  rw [toDigits_block hBase width hFirst, Nat.toDigits_of_lt_base hDigit, List.singleton_append]

end Blocks

end Decimal

import Hengda.Common.Base64
import Mathlib.Data.Nat.Bitwise

/-! The decoder for the images of the alarms. It reads every text of the encoder, also if it
has been broken into lines. -/
namespace Hengda

def detabTable : List Int :=
  [-1, -1, -1, -1, -1, -1, -1, -1, -1, -1, -1, -1, -1, -1, -1, -1,
    -1, -1, -1, -1, -1, -1, -1, -1, -1, -1, -1, -1, -1, -1, -1, -1,
    -1, -1, -1, -1, -1, -1, -1, -1, -1, -1, -1, 62, -1, -1, -1, 63,
    52, 53, 54, 55, 56, 57, 58, 59, 60, 61, -1, -1, -1, -1, -1, -1,
    -1,  0,  1,  2,  3,  4,  5,  6,  7,  8,  9, 10, 11, 12, 13, 14,
    15, 16, 17, 18, 19, 20, 21, 22, 23, 24, 25, -1, -1, -1, -1, -1,
    -1, 26, 27, 28, 29, 30, 31, 32, 33, 34, 35, 36, 37, 38, 39, 40,
    41, 42, 43, 44, 45, 46, 47, 48, 49, 50, 51, -1, -1, -1, -1, -1]

/-- An entry of the table, in whose second half all entries are negative. The bits that are put
together are negative as soon as one of the entries is. -/
def detab (ch : Char) : Option Nat :=
  match detabTable[ch.toNat]? with
  | some (.ofNat n) => some n
  | _ => none

/-- The three bytes of `m`. -/
def highByte (m : Nat) : UInt8 :=
  UInt8.ofNat ((m &&& 0x00ff0000) >>> 16)

def middleByte (m : Nat) : UInt8 :=
  UInt8.ofNat ((m &&& 0x0000ff00) >>> 8)

def lowByte (m : Nat) : UInt8 :=
  UInt8.ofNat (m &&& 0x000000ff)

def isLineEnd (ch : Char) : Bool :=
  ch = '\r' || ch = '\n'

/-- At most two characters between the lines are skipped. -/
def skipLine : List Char → List Char
  | x :: y :: rest =>
      if isLineEnd x then if isLineEnd y then rest else y :: rest else x :: y :: rest
  | s => s

/-- The groups in front of the last one. -/
def decodeGroups : Nat → List UInt8 → List Char → Option (List UInt8 × List Char)
  | 0, _, _ => none
  | turns + 1, v, s =>
      if s.length < 8 then some (v, s)
      else
        match s with
        | a :: b :: c :: d :: rest => do
            let x ← detab a
            let y ← detab b
            let z ← detab c
            let w ← detab d
            let m := x <<< 18 ||| y <<< 12 ||| z <<< 6 ||| w
            decodeGroups turns (v ++ [highByte m, middleByte m, lowByte m]) (skipLine rest)
        | _ => none

/-- The end of the last line is dropped. -/
def dropLine (s : List Char) : List Char :=
  if s.getLast?.any isLineEnd then
    if s.dropLast.getLast?.any isLineEnd then s.dropLast.dropLast else s.dropLast
  else s

/-- The last group, which may be padded. -/
def decodeLast (v : List UInt8) : List Char → Option (List UInt8)
  | [a, b, c, d] => do
      let x ← detab a
      let y ← detab b
      let m := x <<< 18 ||| y <<< 12
      let v := v ++ [highByte m]
      if c = '=' then if d = '=' then some v else none
      else do
        let z ← detab c
        let m := m ||| z <<< 6
        let v := v ++ [middleByte m]
        if d = '=' then some v
        else do
          let w ← detab d
          some (v ++ [lowByte (m ||| w)])
  | _ => none

def base64Decode (p : List Char) : Option (List UInt8) := do
  let (v, s) ← decodeGroups (p.length + 1) [] p
  decodeLast v (dropLine s)

section Bits

theorem detab_entabAt : ∀ n < 64, detab (entabAt n) = some n ∧ entabAt n ≠ '=' ∧
    isLineEnd (entabAt n) = false := by decide +kernel

/-- Disjoint bits are added. -/
theorem join_bits {x y z w : Nat} (hY : y < 64) (hZ : z < 64) (hW : w < 64) :
    x <<< 18 ||| y <<< 12 ||| z <<< 6 ||| w = x * 262144 + y * 4096 + z * 64 + w := by
  have hLow : z <<< 6 ||| w = z * 64 + w := by
    rw [← Nat.shiftLeft_add_eq_or_of_lt (by omega), Nat.shiftLeft_eq]
  have hMiddle : y <<< 12 ||| (z * 64 + w) = y * 4096 + (z * 64 + w) := by
    rw [← Nat.shiftLeft_add_eq_or_of_lt (by omega), Nat.shiftLeft_eq]
  have hHigh : x <<< 18 ||| (y * 4096 + (z * 64 + w)) =
      x * 262144 + (y * 4096 + (z * 64 + w)) := by
    rw [← Nat.shiftLeft_add_eq_or_of_lt (by omega), Nat.shiftLeft_eq]
  rw [Nat.or_assoc, Nat.or_assoc, hLow, hMiddle, hHigh]
  omega

theorem byte_of_and {n m : Nat} (hSame : n % 256 = m % 256) : UInt8.ofNat n = UInt8.ofNat m := by
  apply UInt8.toNat_inj.mp
  rw [UInt8.toNat_ofNat', UInt8.toNat_ofNat']
  exact hSame

theorem and_byte (m : Nat) : m &&& 255 = m % 256 :=
  Nat.and_two_pow_sub_one_eq_mod m 8

theorem lowByte_eq (m : Nat) : lowByte m = UInt8.ofNat m :=
  byte_of_and (by rw [and_byte, Nat.mod_mod])

theorem middleByte_eq (m : Nat) : middleByte m = UInt8.ofNat (m / 256) := by
  refine byte_of_and ?_
  rw [Nat.shiftRight_and_distrib, Nat.shiftRight_eq_div_pow, show 0x0000ff00 >>> 8 = 255 from rfl,
    and_byte, Nat.mod_mod]

theorem highByte_eq (m : Nat) : highByte m = UInt8.ofNat (m / 65536) := by
  refine byte_of_and ?_
  rw [Nat.shiftRight_and_distrib, Nat.shiftRight_eq_div_pow, show 0x00ff0000 >>> 16 = 255 from rfl,
    and_byte, Nat.mod_mod]

theorem byte_eq {n : Nat} {a : UInt8} (hSame : n % 256 = a.toNat) : UInt8.ofNat n = a := by
  apply UInt8.toNat_inj.mp
  rw [UInt8.toNat_ofNat']
  exact hSame

variable (a b c : UInt8)

theorem first_sextet : (a >>> 2).toNat = a.toNat / 4 := by
  rw [UInt8.toNat_shiftRight, Nat.shiftRight_eq_div_pow]
  rfl

theorem second_sextet :
    (((a <<< 4) ||| (b >>> 4)) &&& 0x3f).toNat = a.toNat % 4 * 16 + b.toNat / 16 := by
  have hB : b.toNat / 16 < 2 ^ 4 := by
    have hByte := b.toNat_lt
    omega
  have hLow : (b.toNat >>> 4) % 2 ^ 6 = b.toNat / 16 := by
    rw [Nat.shiftRight_eq_div_pow, Nat.mod_eq_of_lt (by omega)]
  have hHigh : (a.toNat <<< 4 % 2 ^ 8) % 2 ^ 6 = (a.toNat % 4) <<< 4 := by
    rw [Nat.shiftLeft_eq, Nat.shiftLeft_eq]
    omega
  rw [UInt8.toNat_and, UInt8.toNat_or, UInt8.toNat_shiftLeft, UInt8.toNat_shiftRight]
  show ((a.toNat <<< 4 % 2 ^ 8) ||| (b.toNat >>> 4)) &&& (2 ^ 6 - 1) = _
  rw [Nat.and_two_pow_sub_one_eq_mod, Nat.or_mod_two_pow, hLow, hHigh,
    ← Nat.shiftLeft_add_eq_or_of_lt hB, Nat.shiftLeft_eq]

theorem third_sextet :
    (((b <<< 2) ||| (c >>> 6)) &&& 0x3f).toNat = b.toNat % 16 * 4 + c.toNat / 64 := by
  have hC : c.toNat / 64 < 2 ^ 2 := by
    have hByte := c.toNat_lt
    omega
  have hLow : (c.toNat >>> 6) % 2 ^ 6 = c.toNat / 64 := by
    rw [Nat.shiftRight_eq_div_pow, Nat.mod_eq_of_lt (by omega)]
  have hHigh : (b.toNat <<< 2 % 2 ^ 8) % 2 ^ 6 = (b.toNat % 16) <<< 2 := by
    rw [Nat.shiftLeft_eq, Nat.shiftLeft_eq]
    omega
  rw [UInt8.toNat_and, UInt8.toNat_or, UInt8.toNat_shiftLeft, UInt8.toNat_shiftRight]
  show ((b.toNat <<< 2 % 2 ^ 8) ||| (c.toNat >>> 6)) &&& (2 ^ 6 - 1) = _
  rw [Nat.and_two_pow_sub_one_eq_mod, Nat.or_mod_two_pow, hLow, hHigh,
    ← Nat.shiftLeft_add_eq_or_of_lt hC, Nat.shiftLeft_eq]

theorem fourth_sextet : (c &&& 0x3f).toNat = c.toNat % 64 := by
  rw [UInt8.toNat_and]
  exact Nat.and_two_pow_sub_one_eq_mod _ 6

/-- The second character of a padded group. -/
theorem padded_second : ((a &&& 0x03) <<< 4).toNat = a.toNat % 4 * 16 := by
  rw [UInt8.toNat_shiftLeft, UInt8.toNat_and]
  show ((a.toNat &&& (2 ^ 2 - 1)) <<< 4) % 2 ^ 8 = _
  rw [Nat.and_two_pow_sub_one_eq_mod, Nat.shiftLeft_eq]
  omega

theorem padded_second_of_two :
    (((a &&& 0x03) <<< 4) ||| (b >>> 4)).toNat = a.toNat % 4 * 16 + b.toNat / 16 := by
  have hB : b.toNat / 16 < 2 ^ 4 := by
    have hByte := b.toNat_lt
    omega
  rw [UInt8.toNat_or, padded_second, UInt8.toNat_shiftRight]
  show a.toNat % 4 * 2 ^ 4 ||| b.toNat >>> 4 = _
  rw [Nat.shiftRight_eq_div_pow, ← Nat.shiftLeft_eq, ← Nat.shiftLeft_add_eq_or_of_lt hB,
    Nat.shiftLeft_eq]

theorem padded_third : ((b &&& 0x0f) <<< 2).toNat = b.toNat % 16 * 4 := by
  rw [UInt8.toNat_shiftLeft, UInt8.toNat_and]
  show ((b.toNat &&& (2 ^ 4 - 1)) <<< 2) % 2 ^ 8 = _
  rw [Nat.and_two_pow_sub_one_eq_mod, Nat.shiftLeft_eq]
  omega

end Bits

/-- The end of a line, in any of its spellings, or nothing. -/
def LineEnd (e : List Char) : Prop :=
  e.length ≤ 2 ∧ ∀ ch ∈ e, isLineEnd ch = true

/-- The second text is the first one with ends of lines after some groups of four characters. -/
inductive Wrapped : List Char → List Char → Prop
  | last {a b c d : Char} {e : List Char} (hEnd : LineEnd e) :
      Wrapped [a, b, c, d] (a :: b :: c :: d :: e)
  | group {a b c d : Char} {e t w : List Char} (hEnd : LineEnd e) (hRest : Wrapped t w) :
      Wrapped (a :: b :: c :: d :: t) (a :: b :: c :: d :: (e ++ w))

section Lines

theorem LineEnd.cases {e : List Char} (hEnd : LineEnd e) :
    e = [] ∨ (∃ p, e = [p] ∧ isLineEnd p = true) ∨
      ∃ p q, e = [p, q] ∧ isLineEnd p = true ∧ isLineEnd q = true := by
  obtain ⟨hLength, hAll⟩ := hEnd
  match e with
  | [] => exact Or.inl rfl
  | [p] => exact Or.inr (Or.inl ⟨p, rfl, hAll p (by simp)⟩)
  | [p, q] => exact Or.inr (Or.inr ⟨p, q, rfl, hAll p (by simp), hAll q (by simp)⟩)
  | _ :: _ :: _ :: _ =>
      simp only [List.length_cons] at hLength
      omega

theorem skipLine_append {e rest : List Char} {x y : Char} (hEnd : LineEnd e)
    (hX : isLineEnd x = false) : skipLine (e ++ x :: y :: rest) = x :: y :: rest := by
  rcases hEnd.cases with rfl | ⟨p, rfl, hP⟩ | ⟨p, q, rfl, hP, hQ⟩
  · simp [skipLine, hX]
  · simp [skipLine, hP, hX]
  · simp [skipLine, hP, hQ]

theorem dropLine_append {e : List Char} {a b c d : Char} (hEnd : LineEnd e)
    (hD : isLineEnd d = false) : dropLine (a :: b :: c :: d :: e) = [a, b, c, d] := by
  rcases hEnd.cases with rfl | ⟨p, rfl, hP⟩ | ⟨p, q, rfl, hP, hQ⟩
  · simp [dropLine, hD]
  · simp [dropLine, hP, hD]
  · simp [dropLine, hP, hQ]

theorem Wrapped.four {t w : List Char} (hWrapped : Wrapped t w) : 4 ≤ w.length := by
  cases hWrapped with
  | last _ =>
      simp only [List.length_cons]
      omega
  | group _ _ =>
      simp only [List.length_cons]
      omega

/-- A line begins with the character with which the text goes on. -/
theorem Wrapped.head {t w : List Char} {x : Char} (hWrapped : Wrapped (x :: t) w) :
    ∃ y rest, w = x :: y :: rest := by
  cases hWrapped with
  | last _ => exact ⟨_, _, rfl⟩
  | group _ _ => exact ⟨_, _, rfl⟩

end Lines

section Groups

variable (a b c : UInt8) (out : List UInt8)

theorem first_detab : detab (entabAt (a >>> 2).toNat) = some (a.toNat / 4) := by
  have hByte := a.toNat_lt
  rw [first_sextet]
  exact (detab_entabAt _ (by omega)).1

theorem second_detab :
    detab (entabAt (((a <<< 4) ||| (b >>> 4)) &&& 0x3f).toNat) =
      some (a.toNat % 4 * 16 + b.toNat / 16) := by
  have hByte := b.toNat_lt
  rw [second_sextet]
  exact (detab_entabAt _ (by omega)).1

theorem third_detab :
    detab (entabAt (((b <<< 2) ||| (c >>> 6)) &&& 0x3f).toNat) =
      some (b.toNat % 16 * 4 + c.toNat / 64) := by
  have hByte := c.toNat_lt
  rw [third_sextet]
  exact (detab_entabAt _ (by omega)).1

theorem fourth_noEnd : isLineEnd (entabAt (c &&& 0x3f).toNat) = false := by
  rw [fourth_sextet]
  exact (detab_entabAt _ (by omega)).2.2

theorem first_noEnd : isLineEnd (entabAt (a >>> 2).toNat) = false := by
  have hByte := a.toNat_lt
  rw [first_sextet]
  exact (detab_entabAt _ (by omega)).2.2

theorem fourth_detab : detab (entabAt (c &&& 0x3f).toNat) = some (c.toNat % 64) := by
  rw [fourth_sextet]
  exact (detab_entabAt _ (by omega)).1

/-- The first two numbers give the first byte back, the first three also the second one. -/
theorem high_back {y z : Nat} (hY : y = a.toNat % 4 * 16 + z) (hZ : z < 16) :
    highByte ((a.toNat / 4) <<< 18 ||| y <<< 12) = a := by
  have hA := a.toNat_lt
  have hM := join_bits (x := a.toNat / 4) (y := y) (z := 0) (w := 0)
    (by omega) (by omega) (by omega)
  rw [Nat.zero_shiftLeft, Nat.or_zero, Nat.or_zero] at hM
  rw [highByte_eq, hM]
  exact byte_eq (by omega)

theorem middle_back {x y z : Nat} (hY : y = b.toNat % 16 * 4 + z) (hZ : z < 4) (hX : x < 4) :
    middleByte ((a.toNat / 4) <<< 18 ||| (x * 16 + b.toNat / 16) <<< 12 ||| y <<< 6) = b := by
  have hB := b.toNat_lt
  have hM := join_bits (x := a.toNat / 4) (y := x * 16 + b.toNat / 16) (z := y) (w := 0)
    (by omega) (by omega) (by omega)
  rw [Nat.or_zero] at hM
  rw [middleByte_eq, hM]
  exact byte_eq (by omega)

/-- The four numbers of a group give its three bytes back. -/
theorem group_bytes :
    let m := (a.toNat / 4) <<< 18 ||| (a.toNat % 4 * 16 + b.toNat / 16) <<< 12 |||
      (b.toNat % 16 * 4 + c.toNat / 64) <<< 6 ||| c.toNat % 64
    highByte m = a ∧ middleByte m = b ∧ lowByte m = c := by
  have hA := a.toNat_lt
  have hB := b.toNat_lt
  have hC := c.toNat_lt
  intro m
  have hM : m = a.toNat / 4 * 262144 + (a.toNat % 4 * 16 + b.toNat / 16) * 4096 +
      (b.toNat % 16 * 4 + c.toNat / 64) * 64 + c.toNat % 64 :=
    join_bits (by omega) (by omega) (by omega)
  rw [highByte_eq, middleByte_eq, lowByte_eq, hM]
  exact ⟨byte_eq (by omega), byte_eq (by omega), byte_eq (by omega)⟩

/-- One turn of the loop reads the three bytes of a group. -/
theorem decodeGroups_group {turns : Nat} {rest : List Char} (hRest : 4 ≤ rest.length) :
    decodeGroups (turns + 1) out
      (entabAt (a >>> 2).toNat :: entabAt (((a <<< 4) ||| (b >>> 4)) &&& 0x3f).toNat ::
        entabAt (((b <<< 2) ||| (c >>> 6)) &&& 0x3f).toNat :: entabAt (c &&& 0x3f).toNat ::
        rest) = decodeGroups turns (out ++ [a, b, c]) (skipLine rest) := by
  obtain ⟨hHigh, hMiddle, hLow⟩ := group_bytes a b c
  rw [decodeGroups, if_neg (by simp only [List.length_cons]; omega)]
  rw [first_detab, second_detab, third_detab, fourth_detab]
  simp only [Option.bind_eq_bind, Option.bind_some]
  rw [hHigh, hMiddle, hLow]

theorem decodeGroups_short {turns : Nat} {s : List Char} (hShort : s.length < 8) :
    decodeGroups (turns + 1) out s = some (out, s) := by
  unfold decodeGroups
  exact if_pos hShort

/-- The loop leaves the last group, and the end of its line is dropped. -/
theorem decodeGroups_last {turns : Nat} {p q r t : Char} {e : List Char} (hEnd : LineEnd e)
    (hT : isLineEnd t = false) :
    ((decodeGroups (turns + 1) out (p :: q :: r :: t :: e)).bind fun x =>
        decodeLast x.1 (dropLine x.2)) = decodeLast out [p, q, r, t] := by
  have hE := hEnd.1
  have hShort : (p :: q :: r :: t :: e).length < 8 := by
    simp only [List.length_cons]
    omega
  rw [decodeGroups_short out hShort, Option.bind_some, dropLine_append hEnd hT]

/-- The last group may have three bytes, two or one. -/
theorem decodeLast_three :
    decodeLast out
      [entabAt (a >>> 2).toNat, entabAt (((a <<< 4) ||| (b >>> 4)) &&& 0x3f).toNat,
        entabAt (((b <<< 2) ||| (c >>> 6)) &&& 0x3f).toNat, entabAt (c &&& 0x3f).toNat] =
      some (out ++ [a, b, c]) := by
  have hA := a.toNat_lt
  have hB := b.toNat_lt
  have hC := c.toNat_lt
  obtain ⟨-, hThird, -⟩ : _ ∧ entabAt (((b <<< 2) ||| (c >>> 6)) &&& 0x3f).toNat ≠ '=' ∧ _ := by
    rw [third_sextet]
    exact detab_entabAt _ (by omega)
  obtain ⟨-, hFourth, -⟩ : _ ∧ entabAt (c &&& 0x3f).toNat ≠ '=' ∧ _ := by
    rw [fourth_sextet]
    exact detab_entabAt _ (by omega)
  obtain ⟨-, -, hLow⟩ := group_bytes a b c
  have hHigh := high_back a (z := b.toNat / 16) rfl (by omega)
  have hMiddle := middle_back a b (x := a.toNat % 4) (z := c.toNat / 64) rfl (by omega) (by omega)
  rw [decodeLast, first_detab, second_detab, third_detab, fourth_detab]
  simp only [Option.bind_eq_bind, Option.bind_some]
  rw [if_neg hThird, if_neg hFourth, hHigh, hMiddle, hLow]
  simp

theorem decodeLast_two :
    decodeLast out
      [entabAt (a >>> 2).toNat, entabAt (((a &&& 0x03) <<< 4) ||| (b >>> 4)).toNat,
        entabAt ((b &&& 0x0f) <<< 2).toNat, '='] = some (out ++ [a, b]) := by
  have hA := a.toNat_lt
  have hB := b.toNat_lt
  have hSecond : detab (entabAt (((a &&& 0x03) <<< 4) ||| (b >>> 4)).toNat) =
      some (a.toNat % 4 * 16 + b.toNat / 16) := by
    rw [padded_second_of_two]
    exact (detab_entabAt _ (by omega)).1
  obtain ⟨hThird, hNoPad, -⟩ : detab (entabAt ((b &&& 0x0f) <<< 2).toNat) =
      some (b.toNat % 16 * 4) ∧ entabAt ((b &&& 0x0f) <<< 2).toNat ≠ '=' ∧ _ := by
    rw [padded_third]
    exact detab_entabAt _ (by omega)
  have hHigh := high_back a (z := b.toNat / 16) rfl (by omega)
  have hMiddle := middle_back a b (x := a.toNat % 4) (z := 0) rfl (by omega) (by omega)
  rw [Nat.add_zero] at hMiddle
  rw [decodeLast, first_detab, hSecond, hThird]
  simp only [Option.bind_eq_bind, Option.bind_some]
  rw [if_neg hNoPad, if_pos trivial, hHigh, hMiddle]
  simp

theorem decodeLast_one :
    decodeLast out
      [entabAt (c >>> 2).toNat, entabAt ((c &&& 0x03) <<< 4).toNat, '=', '='] =
      some (out ++ [c]) := by
  have hC := c.toNat_lt
  have hSecond : detab (entabAt ((c &&& 0x03) <<< 4).toNat) = some (c.toNat % 4 * 16) := by
    rw [padded_second]
    exact (detab_entabAt _ (by omega)).1
  have hHigh := high_back c (z := 0) rfl (by omega)
  rw [Nat.add_zero] at hHigh
  rw [decodeLast, first_detab, hSecond]
  simp only [Option.bind_eq_bind, Option.bind_some, if_true]
  rw [hHigh]

end Groups

theorem head_noEnd {bytes : List UInt8} {x : Char} {t : List Char}
    (hText : base64Encode bytes = x :: t) : isLineEnd x = false := by
  match bytes with
  | [] => cases hText
  | [a] | [a, _] | a :: _ :: _ :: _ =>
      rw [base64Encode] at hText
      cases hText
      exact first_noEnd a

/-- The loop and the last group read the bytes of the text. -/
theorem decodeGroups_wrapped {bytes : List UInt8} {w : List Char}
    (hWrapped : Wrapped (base64Encode bytes) w) :
    ∀ out turns, w.length < turns →
      ((decodeGroups turns out w).bind fun r => decodeLast r.1 (dropLine r.2)) =
        some (out ++ bytes) := by
  induction bytes using base64Encode.induct generalizing w with
  | case1 a b c rest ih =>
      intro out turns hTurns
      obtain ⟨turns, rfl⟩ : ∃ t, turns = t + 1 := ⟨turns - 1, by omega⟩
      have hD := fourth_noEnd c
      rw [base64Encode] at hWrapped
      cases hText : base64Encode rest with
      | nil =>
          rw [hText] at hWrapped
          rw [(base64Encode_eq_nil rest).mp hText]
          cases hWrapped with
          | last hEnd =>
              rw [decodeGroups_last out hEnd hD, decodeLast_three]
          | group _ hRest => cases hRest
      | cons x t =>
          rw [hText] at hWrapped
          cases hWrapped with
          | group hEnd hRest =>
              rename_i e v
              have hFour := hRest.four
              obtain ⟨y, v, rfl⟩ := hRest.head
              rw [decodeGroups_group a b c out (by rw [List.length_append]; omega),
                skipLine_append hEnd (head_noEnd hText)]
              simp only [List.length_cons, List.length_append] at hTurns
              rw [ih (by rw [hText]; exact hRest) _ _ (by simp only [List.length_cons]; omega)]
              simp
  | case2 a b =>
      intro out turns hTurns
      obtain ⟨turns, rfl⟩ : ∃ t, turns = t + 1 := ⟨turns - 1, by omega⟩
      cases hWrapped with
      | last hEnd =>
          rw [decodeGroups_last out hEnd (by decide), decodeLast_two]
      | group _ hRest => cases hRest
  | case3 c =>
      intro out turns hTurns
      obtain ⟨turns, rfl⟩ : ∃ t, turns = t + 1 := ⟨turns - 1, by omega⟩
      cases hWrapped with
      | last hEnd =>
          rw [decodeGroups_last out hEnd (by decide), decodeLast_one]
      | group _ hRest => cases hRest
  | case4 => cases hWrapped

theorem wrapped_self {bytes : List UInt8} (hBytes : bytes ≠ []) :
    Wrapped (base64Encode bytes) (base64Encode bytes) := by
  have hNothing : LineEnd [] := ⟨Nat.zero_le _, by simp⟩
  induction bytes using base64Encode.induct with
  | case1 a b c rest ih =>
      by_cases hRest : rest = []
      · subst hRest
        exact .last hNothing
      · exact .group hNothing (ih hRest)
  | case2 a b => exact .last hNothing
  | case3 c => exact .last hNothing
  | case4 => exact absurd rfl hBytes

theorem decode_unbroken {bytes : List UInt8} (hBytes : bytes ≠ []) :
    base64Decode (base64Encode bytes) = some bytes := by
  have hRead := decodeGroups_wrapped (wrapped_self hBytes) []
    ((base64Encode bytes).length + 1) (Nat.lt_succ_self _)
  rw [List.nil_append] at hRead
  exact hRead

end Hengda

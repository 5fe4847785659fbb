import Hengda.Library.Decimal
import Mathlib.Data.Nat.Bitwise

/-! The integers of a JSON text are written through tables: four decimal digits at a time, or
two hexadecimal ones. -/
namespace Hengda.Fast

/-- The number of digits less one, in the high half of the byte. -/
def entryTag (i : Nat) : Nat :=
  if i > 999 then 3 <<< 4 else if i > 99 then 2 <<< 4 else if i > 9 then 1 <<< 4 else 0

/-- The four bytes of an entry, which only the indices below 10000 have. -/
def itoaTable (i : Nat) : Option (List Nat) :=
  if i < 10000 then
    some [i / 1000 ||| entryTag i, i % 1000 / 100 + 48, i % 100 / 10 + 48, i % 10 + 48]
  else none

/-- The entries of the buffer from `p` on. All but the first one hold four digits. -/
def itoaEntries : Nat → Nat → Option (List Nat)
  | 0, v => itoaTable v
  | levels + 1, v =>
      if v > 9999 then do
        let front ← itoaEntries levels (v / 10000)
        let last ← itoaTable (v - v / 10000 * 10000)
        some (front ++ last.map (· ||| 0x30))
      else itoaTable v

/-- The digits at the end of a buffer of `levels + 1` entries. -/
def toAscii (levels v : Nat) : Option (List Char) := do
  let bytes ← itoaEntries levels v
  let size := 4 * (levels + 1)
  let p := size - bytes.length
  let len := size - 3 + (bytes.headD 0 >>> 4) - p
  some ((bytes.drop (size - len - p)).map Char.ofNat)

def u32toa (v : Nat) : Option (List Char) :=
  toAscii 2 v

def u64toa (v : Nat) : Option (List Char) :=
  toAscii 4 v

def i32toa (v : Int) : Option (List Char) :=
  if v ≥ 0 then u32toa v.toNat else do some ('-' :: (← u32toa (-v).toNat))

def i64toa (v : Int) : Option (List Char) :=
  if v ≥ 0 then u64toa v.toNat else do some ('-' :: (← u64toa (-v).toNat))

/-- The two hexadecimal digits of a byte. -/
def itohTable (i : Nat) : List Char :=
  [Nat.digitChar (i >>> 4), Nat.digitChar (i &&& 0x0f)]

/-- The digits that the loop has put in front of `out`. -/
def itohLoop : Nat → Nat → List Char → List Char
  | 0, _, out => out
  | turns + 1, v, out =>
      let out := itohTable (v &&& 0xff) ++ out
      if v >>> 8 > 0 then itohLoop turns (v >>> 8) out else out

/-- The buffer has room for the turns of the loop. -/
def toHex (turns v : Nat) : List Char :=
  let digits := itohLoop turns v []
  ['0', 'x'] ++ if digits.head? = some '0' then digits.tail else digits

def u32toh (v : Nat) : List Char :=
  toHex 4 v

def u64toh (v : Nat) : List Char :=
  toHex 8 v

section Entries

theorem digitChar_eq : ∀ d < 10, Nat.digitChar d = Char.ofNat (d + 48) := by decide

theorem or_digit : ∀ d < 10, (d + 48) ||| 0x30 = d + 48 := by decide

theorem or_first (d : Nat) (hDigit : d < 10) (t : Nat)
    (hTag : t = 0 ∨ t = 16 ∨ t = 32 ∨ t = 48) : (d ||| t) ||| 0x30 = d + 48 := by
  have hAll : ∀ d < 10, ((d ||| 0) ||| 0x30 = d + 48 ∧ (d ||| 16) ||| 0x30 = d + 48) ∧
      (d ||| 32) ||| 0x30 = d + 48 ∧ (d ||| 48) ||| 0x30 = d + 48 := by decide
  obtain ⟨⟨hZero, hOne⟩, hTwo, hThree⟩ := hAll d hDigit
  rcases hTag with rfl | rfl | rfl | rfl
  · exact hZero
  · exact hOne
  · exact hTwo
  · exact hThree

theorem entryTag_cases (i : Nat) :
    entryTag i = 0 ∨ entryTag i = 16 ∨ entryTag i = 32 ∨ entryTag i = 48 := by
  unfold entryTag
  split
  · exact Or.inr (Or.inr (Or.inr rfl))
  · split
    · exact Or.inr (Or.inr (Or.inl rfl))
    · split
      · exact Or.inr (Or.inl rfl)
      · exact Or.inl rfl

/-- The digits of a number one after another. -/
theorem block_succ (width n : Nat) :
    Decimal.block 10 (width + 1) n =
      Decimal.block 10 width (n / 10) ++ [Char.ofNat (n % 10 + 48)] := by
  rw [Decimal.block, digitChar_eq _ (Nat.mod_lt _ (by decide))]

theorem block_one (n : Nat) : Decimal.block 10 1 n = [Char.ofNat (n % 10 + 48)] := by
  rw [block_succ, Decimal.block, List.nil_append]

theorem block_two (n : Nat) :
    Decimal.block 10 2 n = [Char.ofNat (n / 10 % 10 + 48), Char.ofNat (n % 10 + 48)] := by
  rw [block_succ, block_one]
  rfl

theorem block_three (n : Nat) :
    Decimal.block 10 3 n = [Char.ofNat (n / 100 % 10 + 48), Char.ofNat (n / 10 % 10 + 48),
      Char.ofNat (n % 10 + 48)] := by
  rw [block_succ, block_two, Nat.div_div_eq_div_mul]
  rfl

theorem block_four (n : Nat) :
    Decimal.block 10 4 n = [Char.ofNat (n / 1000 % 10 + 48), Char.ofNat (n / 100 % 10 + 48),
      Char.ofNat (n / 10 % 10 + 48), Char.ofNat (n % 10 + 48)] := by
  rw [block_succ, block_three, Nat.div_div_eq_div_mul, Nat.div_div_eq_div_mul]
  rfl

theorem shifted_four (n : Nat) : Decimal.shifted 10 4 n = n / 10000 := by
  simp only [Decimal.shifted, Nat.div_div_eq_div_mul, Nat.reduceMul]

/-- The digits of a number with a first digit and a block behind it. -/
theorem toDigits_width {width n divisor : Nat}
    (hShifted : Decimal.shifted 10 width n = n / divisor) (hLow : n / divisor ≠ 0)
    (hHigh : n / divisor < 10) :
    Nat.toDigits 10 n = Char.ofNat (n / divisor + 48) :: Decimal.block 10 width n := by
  rw [Decimal.toDigits_first (by decide) width (by rw [hShifted]; exact hHigh)
    (by rw [hShifted]; exact hLow), hShifted, digitChar_eq _ hHigh]

/-- An entry behind the first one holds four digits. -/
theorem full_entry (v : Nat) :
    ∃ last, itoaTable (v - v / 10000 * 10000) = some last ∧ last.length = 4 ∧
      (last.map (· ||| 0x30)).map Char.ofNat = Decimal.block 10 4 v := by
  have hIndex : v - v / 10000 * 10000 = v % 10000 := by omega
  rw [hIndex, itoaTable, if_pos (Nat.mod_lt _ (by decide))]
  refine ⟨_, rfl, rfl, ?_⟩
  rw [block_four]
  simp only [List.map_cons, List.map_nil]
  rw [or_first _ (by omega) _ (entryTag_cases _), or_digit _ (by omega), or_digit _ (by omega),
    or_digit _ (by omega)]
  have hFirst : v % 10000 / 1000 = v / 1000 % 10 := by omega
  have hSecond : v % 10000 % 1000 / 100 = v / 100 % 10 := by omega
  have hThird : v % 10000 % 100 / 10 = v / 10 % 10 := by omega
  have hFourth : v % 10000 % 10 = v % 10 := by omega
  rw [hFirst, hSecond, hThird, hFourth]

/-- The first entry holds the digits of a number below 10000 at its end. -/
theorem first_entry {v : Nat} (hSmall : v < 10000) :
    ∃ b k, itoaTable v = some b ∧ b.length = 4 ∧ k ≤ 3 ∧ b.headD 0 >>> 4 = 3 - k ∧
      (b.drop k).map Char.ofNat = Nat.toDigits 10 v := by
  have hTagged : ∀ d < 10, d ||| 48 = d + 48 ∧ (d ||| 48) >>> 4 = 3 := by decide
  rw [itoaTable, if_pos hSmall, entryTag]
  by_cases hFour : v > 999
  · obtain ⟨hByte, hTag⟩ := hTagged (v / 1000) (by omega)
    rw [if_pos hFour]
    refine ⟨_, 0, rfl, rfl, by decide, hTag, ?_⟩
    have hShifted : Decimal.shifted 10 3 v = v / 1000 := by
      simp only [Decimal.shifted, Nat.div_div_eq_div_mul, Nat.reduceMul]
    have hSecond : v % 1000 / 100 = v / 100 % 10 := by omega
    have hThird : v % 100 / 10 = v / 10 % 10 := by omega
    rw [toDigits_width hShifted (by omega) (by omega), block_three, ← hSecond, ← hThird, ← hByte]
    rfl
  · have hZero : v / 1000 = 0 := by omega
    rw [if_neg hFour, hZero]
    by_cases hThree : v > 99
    · have hShifted : Decimal.shifted 10 2 v = v / 100 := by
        simp only [Decimal.shifted, Nat.div_div_eq_div_mul, Nat.reduceMul]
      have hFirst : v % 1000 / 100 = v / 100 := by omega
      have hSecond : v % 100 / 10 = v / 10 % 10 := by omega
      rw [if_pos hThree, hFirst, hSecond]
      refine ⟨_, 1, rfl, rfl, by decide, (by decide : (0 ||| 2 <<< 4) >>> 4 = 2), ?_⟩
      rw [toDigits_width hShifted (by omega) (by omega), block_two]
      rfl
    · rw [if_neg hThree]
      by_cases hTwo : v > 9
      · have hShifted : Decimal.shifted 10 1 v = v / 10 := rfl
        have hFirst : v % 100 / 10 = v / 10 := by omega
        rw [if_pos hTwo, hFirst]
        refine ⟨_, 2, rfl, rfl, by decide, (by decide : (0 ||| 1 <<< 4) >>> 4 = 1), ?_⟩
        rw [toDigits_width hShifted (by omega) (by omega), block_one]
        rfl
      · have hDigit : v % 10 = v := by omega
        rw [if_neg hTwo, hDigit]
        refine ⟨_, 3, rfl, rfl, by decide, (by decide : (0 ||| 0) >>> 4 = 0), ?_⟩
        rw [Nat.toDigits_of_lt_base (by omega), digitChar_eq _ (by omega)]
        rfl

/-- The number is not longer than `levels + 1` blocks. -/
def Fits (size : Nat) : Nat → Nat → Prop
  | 0, v => v < size
  | levels + 1, v => Fits size levels (v / size)

/-- The entries hold the digits of the number at their end. -/
theorem itoaEntries_eq {levels v : Nat} (hFits : Fits 10000 levels v) :
    ∃ b k, itoaEntries levels v = some b ∧ 4 ≤ b.length ∧ b.length ≤ 4 * (levels + 1) ∧ k ≤ 3 ∧
      b.headD 0 >>> 4 = 3 - k ∧ (b.drop k).map Char.ofNat = Nat.toDigits 10 v := by
  induction levels generalizing v with
  | zero =>
      obtain ⟨b, k, hEntry, hLength, hK, hTag, hText⟩ := first_entry hFits
      exact ⟨b, k, hEntry, by omega, by omega, hK, hTag, hText⟩
  | succ levels ih =>
      rw [itoaEntries]
      by_cases hLarge : v > 9999
      · obtain ⟨front, k, hFront, hLow, hHigh, hK, hTag, hText⟩ := ih hFits
        obtain ⟨last, hLast, hLength, hDigits⟩ := full_entry v
        rw [if_pos hLarge, hFront, hLast]
        refine ⟨_, k, rfl, ?_, ?_, hK, ?_, ?_⟩
        · rw [List.length_append]
          omega
        · rw [List.length_append, List.length_map]
          omega
        · rw [← hTag]
          cases front with
          | nil => exact absurd hLow (by decide)
          | cons byte front => rfl
        · have hSplit : Nat.toDigits 10 v =
              Nat.toDigits 10 (v / 10000) ++ Decimal.block 10 4 v := by
            rw [← shifted_four]
            exact Decimal.toDigits_block (by decide) 4 (by rw [shifted_four]; omega)
          rw [List.drop_append_of_le_length (by omega), List.map_append, hText, hDigits, hSplit]
      · obtain ⟨b, k, hEntry, hLength, hK, hTag, hText⟩ := first_entry (v := v) (by omega)
        rw [if_neg hLarge]
        exact ⟨b, k, hEntry, by omega, by omega, hK, hTag, hText⟩

theorem toAscii_eq {levels v : Nat} (hFits : Fits 10000 levels v) :
    toAscii levels v = some (Nat.toDigits 10 v) := by
  obtain ⟨b, k, hEntries, hLow, hHigh, hK, hTag, hText⟩ := itoaEntries_eq hFits
  have hDrop : 4 * (levels + 1) - (4 * (levels + 1) - 3 + (3 - k) -
      (4 * (levels + 1) - b.length)) - (4 * (levels + 1) - b.length) = k := by omega
  rw [toAscii, hEntries]
  simp only [Option.bind_eq_bind, Option.bind_some, hTag]
  rw [hDrop, hText]

end Entries

section Hexadecimal

theorem toDigits_byte {v : Nat} (hByte : v < 256) (hLarge : ¬ v < 16) :
    Nat.toDigits 16 v = itohTable v := by
  have hLow : v &&& 0x0f = v % 16 := Nat.and_two_pow_sub_one_eq_mod v 4
  have hHigh : v >>> 4 = v / 16 := Nat.shiftRight_eq_div_pow v 4
  rw [Nat.toDigits_of_base_le (by decide) (Nat.le_of_not_lt hLarge),
    Nat.toDigits_of_lt_base (by omega), itohTable, hLow, hHigh]
  rfl

theorem block_byte (v : Nat) : Decimal.block 16 2 v = itohTable (v % 256) := by
  have hLow : (v % 256) &&& 0x0f = v % 256 % 16 := Nat.and_two_pow_sub_one_eq_mod _ 4
  have hHigh : (v % 256) >>> 4 = v % 256 / 16 := Nat.shiftRight_eq_div_pow _ 4
  have hFirst : v % 256 / 16 = v / 16 % 16 := by omega
  have hSecond : v % 256 % 16 = v % 16 := by omega
  rw [itohTable, hLow, hHigh, hFirst, hSecond]
  rfl

/-- The last turn writes the digits, with a zero in front if there is only one. -/
theorem itohLoop_last {turns v : Nat} (hByte : v < 256) (out : List Char) :
    itohLoop (turns + 1) v out = '0' :: Nat.toDigits 16 v ++ out ∨
      (itohLoop (turns + 1) v out = Nat.toDigits 16 v ++ out ∧
        (Nat.toDigits 16 v).head? ≠ some '0') := by
  have hLow : v &&& 0xff = v := by
    have hMod : v &&& 0xff = v % 256 := Nat.and_two_pow_sub_one_eq_mod v 8
    omega
  have hHigh : ¬ v >>> 8 > 0 := by
    rw [Nat.shiftRight_eq_div_pow]
    omega
  have hLoop : itohLoop (turns + 1) v out = itohTable v ++ out := by
    simp only [itohLoop, hLow, if_neg hHigh]
  rw [hLoop]
  by_cases hOne : v < 16
  · have hTable : ∀ v < 16, itohTable v = ['0', Nat.digitChar v] := by decide
    rw [hTable v hOne, Nat.toDigits_of_lt_base hOne]
    exact Or.inl rfl
  · have hDigit : ∀ d < 16, d ≠ 0 → some (Nat.digitChar d) ≠ some '0' := by decide
    have hFirst : v >>> 4 = v / 16 := Nat.shiftRight_eq_div_pow v 4
    rw [toDigits_byte hByte hOne]
    refine Or.inr ⟨rfl, ?_⟩
    rw [itohTable, List.head?_cons, hFirst]
    exact hDigit _ (by omega) (by omega)

/-- The loop writes the digits of the number. Also here a zero may stand in front. -/
theorem itohLoop_eq {levels v : Nat} (hFits : Fits 256 levels v) (out : List Char) :
    itohLoop (levels + 1) v out = '0' :: Nat.toDigits 16 v ++ out ∨
      (itohLoop (levels + 1) v out = Nat.toDigits 16 v ++ out ∧
        (Nat.toDigits 16 v).head? ≠ some '0') := by
  induction levels generalizing v out with
  | zero => exact itohLoop_last hFits out
  | succ levels ih =>
      by_cases hByte : v < 256
      · exact itohLoop_last hByte out
      · have hLow : v &&& 0xff = v % 256 := Nat.and_two_pow_sub_one_eq_mod v 8
        have hHigh : v >>> 8 = v / 256 := Nat.shiftRight_eq_div_pow v 8
        have hLoop : itohLoop (levels + 1 + 1) v out =
            itohLoop (levels + 1) (v / 256) (itohTable (v % 256) ++ out) := by
          rw [itohLoop]
          simp only [hLow, hHigh]
          exact if_pos (by omega)
        have hShifted : Decimal.shifted 16 2 v = v / 256 := by
          simp only [Decimal.shifted, Nat.div_div_eq_div_mul, Nat.reduceMul]
        have hSplit : Nat.toDigits 16 v = Nat.toDigits 16 (v / 256) ++ itohTable (v % 256) := by
          rw [Decimal.toDigits_block (by decide) 2 (by rw [hShifted]; omega), hShifted, block_byte]
        rw [hLoop, hSplit, List.append_assoc, List.head?_append_of_ne_nil _ Nat.toDigits_ne_nil,
          ← List.cons_append, List.append_assoc, List.cons_append]
        exact ih hFits _

theorem toHex_eq {levels v : Nat} (hFits : Fits 256 levels v) :
    toHex (levels + 1) v = ['0', 'x'] ++ Nat.toDigits 16 v := by
  rw [toHex]
  rcases itohLoop_eq hFits [] with hZero | ⟨hDigits, hHead⟩
  · rw [hZero, List.append_nil]
    rfl
  · rw [List.append_nil] at hDigits
    simp only [hDigits]
    rw [if_neg hHead]

theorem u32toh_eq {v : Nat} (hRange : v < 4294967296) :
    u32toh v = ['0', 'x'] ++ Nat.toDigits 16 v := by
  have hFits : Fits 256 3 v := by
    simp only [Fits]
    omega
  exact toHex_eq hFits

theorem u64toh_eq {v : Nat} (hRange : v < 18446744073709551616) :
    u64toh v = ['0', 'x'] ++ Nat.toDigits 16 v := by
  have hFits : Fits 256 7 v := by
    simp only [Fits]
    omega
  exact toHex_eq hFits

end Hexadecimal

theorem u32toa_eq {v : Nat} (hRange : v < 4294967296) : u32toa v = some (Nat.toDigits 10 v) := by
  have hFits : Fits 10000 2 v := by
    simp only [Fits]
    omega
  exact toAscii_eq hFits

theorem u64toa_eq {v : Nat} (hRange : v < 18446744073709551616) :
    u64toa v = some (Nat.toDigits 10 v) := by
  have hFits : Fits 10000 4 v := by
    simp only [Fits]
    omega
  exact toAscii_eq hFits

theorem toList_toString_nonneg {n : Int} (hSign : 0 ≤ n) :
    (toString n).toList = Nat.toDigits 10 n.toNat := by
  rw [Decimal.toList_toString_int, if_neg (Int.not_lt.mpr hSign), List.nil_append]
  congr 1
  omega

theorem toList_toString_neg {n : Int} (hSign : ¬ 0 ≤ n) :
    (toString n).toList = '-' :: Nat.toDigits 10 (-n).toNat := by
  rw [Decimal.toList_toString_int, if_pos (Int.not_le.mp hSign), List.singleton_append]
  congr 2
  omega

/-- The integers of 32 and 64 bits are written as in decimal notation, the ones below zero with
a sign, and no entry outside of the table is read. In hexadecimal notation they have no zeros in
front either. -/
theorem written_numbers (v : Nat) (n : Int) :
    (v < 4294967296 → u32toa v = some (Nat.toDigits 10 v) ∧
        u32toh v = ['0', 'x'] ++ Nat.toDigits 16 v) ∧
      (v < 18446744073709551616 → u64toa v = some (Nat.toDigits 10 v) ∧
        u64toh v = ['0', 'x'] ++ Nat.toDigits 16 v) ∧
      (-2147483648 ≤ n → n < 2147483648 → i32toa n = some (toString n).toList) ∧
      (-9223372036854775808 ≤ n → n < 9223372036854775808 →
        i64toa n = some (toString n).toList) := by
  refine ⟨fun hRange => ⟨u32toa_eq hRange, u32toh_eq hRange⟩,
    fun hRange => ⟨u64toa_eq hRange, u64toh_eq hRange⟩, ?_, ?_⟩
  · intro hLow hHigh
    rw [i32toa]
    by_cases hSign : 0 ≤ n
    · rw [if_pos hSign, u32toa_eq (by omega), toList_toString_nonneg hSign]
    · rw [if_neg hSign, u32toa_eq (by omega), toList_toString_neg hSign]
      rfl
  · intro hLow hHigh
    rw [i64toa]
    by_cases hSign : 0 ≤ n
    · rw [if_pos hSign, u64toa_eq (by omega), toList_toString_nonneg hSign]
    · rw [if_neg hSign, u64toa_eq (by omega), toList_toString_neg hSign]
      rfl

theorem written_numbers_sample :
    u64toa 18446744073709551615 = some (Nat.toDigits 10 18446744073709551615) ∧
      i64toa (-9223372036854775808) = some (toString (-9223372036854775808 : Int)).toList :=
  ⟨((written_numbers 18446744073709551615 0).2.1 (by decide)).1,
    (written_numbers 0 (-9223372036854775808)).2.2.2 (by decide) (by decide)⟩

end Hengda.Fast

import Hengda.Library.Decimal
import Hengda.Utility.Json11Parser
import Mathlib.Algebra.Order.Ring.Cast
import Mathlib.Algebra.Order.Ring.Rat

/-! A value that json11 has printed is read back as an equal one. It need not be the
same one, since a number with more than nine characters is read as a double and
a double without a fraction may be read as an `int`; but the text does not
change any more. -/
namespace Hengda.Json11

open Scanning

section Strings

/-- A code point that does not wait for the second half of a pair. -/
def Alone (element : Char ⊕ Nat) : Prop :=
  ∀ pt, element = .inr pt → isLead pt = false

/-- The text of one element by itself. -/
def decodeOne (element : Char ⊕ Nat) : Text :=
  element.elim (fun ch => [ch]) encodeUtf8

theorem decode_alone {elements : List (Char ⊕ Nat)} (hAlone : ∀ e ∈ elements, Alone e) :
    decode elements = elements.flatMap decodeOne := by
  induction elements with
  | nil => rfl
  | cons e rest ih =>
      rw [List.flatMap_cons, ← ih fun e' hMem => hAlone e' (List.mem_cons_of_mem _ hMem)]
      have hFirst := hAlone e List.mem_cons_self
      cases e with
      | inl ch => rfl
      | inr pt =>
          have hLead := hFirst pt rfl
          cases rest with
          | nil => simp [decode, decodeOne]
          | cons next rest =>
              cases next with
              | inl ch => simp [decode, decodeOne]
              | inr trail => simp [decode, decodeOne, hLead]

/-- The units that a text is printed with. -/
structure Prints (units : List StringUnit) (printed t : Text) : Prop where
  text : units.flatMap StringUnit.text = printed
  alone : ∀ unit ∈ units, Alone unit.element
  value : (units.map StringUnit.element).flatMap decodeOne = t

theorem Prints.cons {units : List StringUnit} {printed t : Text} (prints : Prints units printed t)
    (unit : StringUnit) (hAlone : Alone unit.element) :
    Prints (unit :: units) (unit.text ++ printed) (decodeOne unit.element ++ t) where
  text := by rw [List.flatMap_cons, prints.text]
  alone := List.forall_mem_cons.mpr ⟨hAlone, prints.alone⟩
  value := by rw [List.map_cons, List.flatMap_cons, prints.value]

/-- The four digits of a control character are read as its number. -/
theorem codepoint_control : ∀ n ≤ 0x1f,
    codepoint [hexDigit (n / 4096 % 16), hexDigit (n / 256 % 16), hexDigit (n / 16 % 16),
      hexDigit (n % 16)] = n ∧
    [hexDigit (n / 4096 % 16), hexDigit (n / 256 % 16), hexDigit (n / 16 % 16),
      hexDigit (n % 16)].all isHexDigit = true := by
  decide

theorem encodeUtf8_control {ch : Char} (hControl : ch.toNat ≤ 0x1f) :
    encodeUtf8 ch.toNat = [ch] := by
  rw [encodeUtf8, if_pos (by omega), byte, Nat.mod_eq_of_lt (by omega), Char.ofNat_toNat]

theorem alone_char (ch : Char) : Alone (.inl ch) := by
  rintro pt ⟨⟩

/-- Every character is printed with one unit. -/
theorem dumpChar_unit (ch : Char) : ∃ unit : StringUnit, unit.text = dumpChar ch ∧
    Alone unit.element ∧ decodeOne unit.element = [ch] := by
  have hSimple : ∀ letter, simpleEscape letter = some ch → dumpChar ch = ['\\', letter] →
      ∃ unit : StringUnit, unit.text = dumpChar ch ∧
        Alone unit.element ∧ decodeOne unit.element = [ch] :=
    fun letter hLetter hDump => ⟨.simple letter ch hLetter, hDump.symm, alone_char ch, rfl⟩
  by_cases hBackslash : ch = '\\'
  · exact hSimple '\\' (by rw [hBackslash]; rfl) (by rw [hBackslash]; rfl)
  by_cases hQuote : ch = '"'
  · exact hSimple '"' (by rw [hQuote]; rfl) (by rw [hQuote]; rfl)
  by_cases hBackspace : ch = '\x08'
  · exact hSimple 'b' (hBackspace ▸ rfl) (hBackspace ▸ rfl)
  by_cases hFormFeed : ch = '\x0c'
  · exact hSimple 'f' (hFormFeed ▸ rfl) (hFormFeed ▸ rfl)
  by_cases hNewline : ch = '\n'
  · exact hSimple 'n' (hNewline ▸ rfl) (hNewline ▸ rfl)
  by_cases hReturn : ch = '\r'
  · exact hSimple 'r' (hReturn ▸ rfl) (hReturn ▸ rfl)
  by_cases hTab : ch = '\t'
  · exact hSimple 't' (hTab ▸ rfl) (hTab ▸ rfl)
  simp only [dumpChar, hBackslash, hQuote, hBackspace, hFormFeed, hNewline, hReturn, hTab,
    if_false]
  by_cases hControl : ch.toNat ≤ 0x1f
  · obtain ⟨hCode, hHex⟩ := codepoint_control ch.toNat hControl
    refine ⟨.code _ _ _ _ hHex, by rw [if_pos hControl]; rfl, ?_, ?_⟩
    · rintro pt ⟨⟩
      rw [hCode, isLead, Bool.and_eq_false_iff]
      left
      rw [decide_eq_false_iff_not]
      omega
    · change encodeUtf8 (codepoint _) = [ch]
      rw [hCode, encodeUtf8_control hControl]
  · rw [if_neg hControl]
    exact ⟨.plain ch ⟨Nat.lt_of_not_le hControl, hQuote, hBackslash⟩, rfl, alone_char ch, rfl⟩

theorem dumpChars_prints (t : Text) : ∃ units, Prints units (dumpChars t) t := by
  fun_induction dumpChars t with
  | case1 rest ih =>
      obtain ⟨units, prints⟩ := ih
      refine ⟨_, prints.cons (.code '2' '0' '2' '8' (by decide)) ?_⟩
      rintro pt ⟨⟩
      rfl
  | case2 rest ih =>
      obtain ⟨units, prints⟩ := ih
      refine ⟨_, prints.cons (.code '2' '0' '2' '9' (by decide)) ?_⟩
      rintro pt ⟨⟩
      rfl
  | case3 ch rest _ _ ih =>
      obtain ⟨units, prints⟩ := ih
      obtain ⟨unit, hText, hAlone, hValue⟩ := dumpChar_unit ch
      refine ⟨unit :: units, ?_⟩
      have hCons := prints.cons unit hAlone
      rwa [hText, hValue] at hCons
  | case4 => exact ⟨[], rfl, List.forall_mem_nil _, rfl⟩

/-- A printed string is read as it was. -/
theorem isString_dump (s : String) : IsString (dumpString s) s.toList := by
  obtain ⟨units, prints⟩ := dumpChars_prints s.toList
  refine ⟨units, ?_, ?_⟩
  · rw [prints.text, dumpString]
  · rw [decode_alone (List.forall_mem_map.mpr prints.alone), prints.value]

end Strings

section Numbers

/-- What is documented of `strtod` and `%.17g`: small whole numbers are `double`s, every
`double` is its own rounding, and what is printed of one is a number of the grammar that
is rounded to it again. -/
structure Doubles.Lawful (doubles : Doubles) : Prop where
  exact : ∀ n : Int, IsInt32 n → doubles.nearest n = n
  settled : ∀ q, doubles.nearest (doubles.nearest q) = doubles.nearest q
  printedInt : ∀ n : Int, IsInt32 n → doubles.print n = (toString n).toList
  printed : ∀ q, doubles.nearest q = q → isFinite q = true →
    ∃ n : Numeral, n.Valid ∧ doubles.print q = n.text ∧ doubles.nearest n.value = q

namespace Numeral

/-- A whole number as it is printed. -/
def ofInt (n : Int) : Numeral where
  negative := decide (n < 0)
  whole := Nat.toDigits 10 n.natAbs
  fraction := []
  mark := []
  exponent := []

theorem ofInt_text (n : Int) : (ofInt n).text = (toString n).toList := by
  rw [Decimal.toList_toString_int]
  simp [text, ofInt, sign, fractionText]

theorem isDigit_of_core {ch : Char} (hDigit : ch.isDigit = true) : isDigit ch = true := by
  simp only [Char.isDigit, Bool.and_eq_true, decide_eq_true_eq] at hDigit
  simp only [isDigit, Bool.and_eq_true, decide_eq_true_eq]
  exact hDigit

theorem ofInt_valid (n : Int) : (ofInt n).Valid where
  whole := by
    have hDigits : Digits (Nat.toDigits 10 n.natAbs) :=
      ⟨Nat.toDigits_ne_nil, fun ch hMem =>
        isDigit_of_core (Nat.isDigit_of_mem_toDigits (by decide) (Nat.le_refl _) hMem)⟩
    by_cases hZero : n.natAbs = 0
    · left
      rw [ofInt, hZero]
      rfl
    · exact Or.inr ⟨hDigits, Decimal.head?_toDigits hZero⟩
  fraction := Or.inl rfl
  exponent := Or.inl ⟨rfl, rfl⟩

theorem ofInt_toInt (n : Int) : (ofInt n).toInt = n := by
  have hValue : digitsValue (Nat.toDigits 10 n.natAbs) = n.natAbs := Decimal.foldl_toDigits _
  rw [toInt, ofInt]
  simp only [hValue, decide_eq_true_eq]
  split_ifs <;> omega

/-- Without fraction and exponent the value is a whole number. -/
theorem value_whole {n : Numeral} (hFraction : n.fraction = []) (hMark : n.mark = [])
    (hExponent : n.exponent = []) : n.value = n.toInt := by
  rw [value, toInt, hFraction, hMark, hExponent]
  cases n.negative with
  | true =>
      simp only [if_true, List.append_nil]
      simp [digitsValue]
  | false =>
      simp [digitsValue]

theorem ofInt_value (n : Int) : (ofInt n).value = n := by
  rw [value_whole rfl rfl rfl, ofInt_toInt]

theorem foldl_digits_lt {digits : Text} (hDigits : Run isDigit digits) (value : Nat) :
    digits.foldl (fun value ch => value * 10 + (ch.toNat - 48)) value <
      (value + 1) * 10 ^ digits.length := by
  induction digits generalizing value with
  | nil => simp
  | cons d ds ih =>
      obtain ⟨hDigit, hRest⟩ := run_cons.mp hDigits
      have hLast : d.toNat ≤ 57 := by
        simp only [isDigit, Bool.and_eq_true, decide_eq_true_eq] at hDigit
        exact hDigit.2
      have hBound : value * 10 + (d.toNat - 48) + 1 ≤ (value + 1) * 10 := by omega
      calc
        ds.foldl (fun value ch => value * 10 + (ch.toNat - 48)) (value * 10 + (d.toNat - 48))
          < (value * 10 + (d.toNat - 48) + 1) * 10 ^ ds.length := ih hRest _
        _ ≤ (value + 1) * 10 * 10 ^ ds.length := Nat.mul_le_mul_right _ hBound
        _ = (value + 1) * 10 ^ (d :: ds).length := by
          rw [List.length_cons, Nat.pow_succ', Nat.mul_assoc]

/-- Nine characters do not make more than an `int`. -/
theorem isInt32_toInt {n : Numeral} (hValid : n.Valid)
    (hShort : (n.sign ++ n.whole).length ≤ 9) : IsInt32 n.toInt := by
  have hDigits : Run isDigit n.whole := by
    rcases hValid.whole with hZero | ⟨⟨-, hDigits⟩, -⟩
    · rw [hZero]
      simp [isDigit]
    · exact hDigits
  have hLength : n.whole.length ≤ 9 := by
    rw [List.length_append] at hShort
    omega
  have hValue := foldl_digits_lt hDigits 0
  have hPower : 10 ^ n.whole.length ≤ 10 ^ 9 := Nat.pow_le_pow_right (by decide) hLength
  have hBound : digitsValue n.whole < 1000000000 := by
    rw [digitsValue]
    omega
  rw [IsInt32, toInt]
  split_ifs <;> omega

variable {doubles : Doubles}

/-- What a number can be read as: an `int` in its range, or a rounded double. -/
theorem read_cases (doubles : Doubles) {n : Numeral} (hValid : n.Valid) :
    n.read doubles = .int n.toInt ∧ IsInt32 n.toInt ∧ n.value = n.toInt ∨
      n.read doubles = .double (doubles.nearest n.value) := by
  rw [read]
  split_ifs with hInt
  · obtain ⟨hFraction, hMark, hShort⟩ := hInt
    have hExponent : n.exponent = [] := by
      rcases hValid.exponent with ⟨-, hNone⟩ | ⟨hMarks, -⟩
      · exact hNone
      · rw [hMark] at hMarks
        exact absurd hMarks (by decide)
    exact Or.inl ⟨rfl, isInt32_toInt hValid hShort, value_whole hFraction hMark hExponent⟩
  · exact Or.inr rfl

end Numeral

theorem truncate_int (n : Int) : truncate (n : ℚ) = n := by simp [truncate]

/-- Doubles as far as whole numbers go. -/
def wholeDoubles : Doubles where
  nearest q := truncate q
  print q := (toString (truncate q)).toList

theorem wholeDoubles_lawful : wholeDoubles.Lawful where
  exact n _ := by simp only [wholeDoubles, truncate_int]
  settled q := by simp only [wholeDoubles, truncate_int]
  printedInt n _ := by simp only [wholeDoubles, truncate_int]
  printed q hNearest _ := by
    refine ⟨Numeral.ofInt (truncate q), Numeral.ofInt_valid _, (Numeral.ofInt_text _).symm, ?_⟩
    rw [Numeral.ofInt_value]
    simp only [wholeDoubles, truncate_int]
    exact hNearest

end Numbers

section Values

variable (doubles : Doubles)

/-- `number_value` -/
def numberValue : Json11 → ℚ
  | .int n => n
  | .double q => q
  | _ => 0

mutual

/-- `operator==`; the keys of an object stand in order. -/
def equal : Json11 → Json11 → Bool
  | .null, .null => true
  | .bool a, .bool b => a = b
  | .int n, w => w.isNumber && (n : ℚ) = w.numberValue
  | .double q, w => w.isNumber && q = w.numberValue
  | .string s, .string t => s = t
  | .array xs, .array ys => equalItems xs ys
  | .object xs, .object ys => equalMembers xs ys
  | _, _ => false

def equalItems : List Json11 → List Json11 → Bool
  | [], [] => true
  | x :: xs, y :: ys => equal x y && equalItems xs ys
  | _, _ => false

def equalMembers : List (String × Json11) → List (String × Json11) → Bool
  | [], [] => true
  | (key, x) :: xs, (other, y) :: ys => key = other && equal x y && equalMembers xs ys
  | _, _ => false

end

/-- A value that can be in memory, with so many levels: `int` and `double` have their
range, and the keys of an object are different and in order. -/
def Held : Nat → Json11 → Prop
  | 0, _ => False
  | _ + 1, .int n => IsInt32 n
  | _ + 1, .double q => doubles.nearest q = q ∧ isFinite q = true
  | levels + 1, .array items => ∀ v ∈ items, Held levels v
  | levels + 1, .object members =>
      members.Pairwise (fun m n => m.1 < n.1) ∧ ∀ m ∈ members, Held levels m.2
  | _ + 1, _ => True

/-- `w` is what becomes of `v` when it is printed and read. -/
structure Rereads (levels : Nat) (v w : Json11) : Prop where
  value : IsValue doubles levels (dump doubles v) w
  held : Held doubles levels w
  equal : equal w v = true
  stable : dump doubles w = dump doubles v

variable {doubles} {levels : Nat}

theorem limit_large : 2147483648 < limit := by
  have hPower : ∀ n, 31 < n → 2 ^ 31 < 2 ^ n := fun n => Nat.pow_lt_pow_right (by decide)
  exact hPower 1024 (by decide)

theorem isFinite_int {n : Int} (hRange : IsInt32 n) : isFinite n = true := by
  obtain ⟨hLower, hUpper⟩ := hRange
  have hLimit := limit_large
  rw [isFinite, Bool.and_eq_true, decide_eq_true_eq, decide_eq_true_eq]
  generalize limit = large at hLimit
  have hBelow : -(large : Int) < n := by omega
  have hAbove : n < (large : Int) := by omega
  have hCast : ((-(large : Int) : Int) : ℚ) < n := Int.cast_lt.mpr hBelow
  rw [Int.cast_neg, Int.cast_natCast] at hCast
  exact ⟨hCast, by exact_mod_cast hAbove⟩

theorem equal_numbers {v w : Json11} (hV : v.isNumber = true) (hW : w.isNumber = true)
    (hValue : v.numberValue = w.numberValue) : equal v w = true := by
  cases v with
  | int n =>
      rw [equal, hW, ← hValue]
      simp [numberValue]
  | double q =>
      rw [equal, hW, ← hValue]
      simp [numberValue]
  | _ => cases hV

theorem rereads_int (lawful : doubles.Lawful) {n : Int} (hRange : IsInt32 n) :
    ∃ w, Rereads doubles (levels + 1) (.int n) w := by
  have hValue : IsValue doubles (levels + 1) (dump doubles (.int n))
      ((Numeral.ofInt n).read doubles) := by
    rw [dump, ← Numeral.ofInt_text]
    exact .number (Numeral.ofInt_valid n)
  rcases Numeral.read_cases doubles (Numeral.ofInt_valid n) with ⟨hRead, -, -⟩ | hRead
  · rw [hRead, Numeral.ofInt_toInt] at hValue
    exact ⟨_, hValue, hRange, equal_numbers rfl rfl rfl, rfl⟩
  · rw [hRead, Numeral.ofInt_value, lawful.exact n hRange] at hValue
    refine ⟨_, hValue, ⟨lawful.exact n hRange, isFinite_int hRange⟩,
      equal_numbers rfl rfl rfl, ?_⟩
    rw [dump, dump, if_pos (isFinite_int hRange), lawful.printedInt n hRange]

theorem rereads_double (lawful : doubles.Lawful) {q : ℚ} (hNearest : doubles.nearest q = q)
    (hFinite : isFinite q = true) : ∃ w, Rereads doubles (levels + 1) (.double q) w := by
  obtain ⟨n, hValid, hPrint, hRounded⟩ := lawful.printed q hNearest hFinite
  have hValue : IsValue doubles (levels + 1) (dump doubles (.double q)) (n.read doubles) := by
    rw [dump, if_pos hFinite, hPrint]
    exact .number hValid
  rcases Numeral.read_cases doubles hValid with ⟨hRead, hRange, hWhole⟩ | hRead
  · rw [hWhole, lawful.exact _ hRange] at hRounded
    rw [hRead] at hValue
    refine ⟨_, hValue, hRange, equal_numbers rfl rfl hRounded, ?_⟩
    rw [← hRounded, dump, dump, if_pos (isFinite_int hRange), lawful.printedInt _ hRange]
  · rw [hRead, hRounded] at hValue
    exact ⟨_, hValue, ⟨hNearest, hFinite⟩, equal_numbers rfl rfl rfl, rfl⟩

theorem rereads_items {items : List Json11}
    (hItems : ∀ v ∈ items, ∃ w, Rereads doubles levels v w) :
    ∃ ws, List.Forall₂ (Rereads doubles levels) items ws := by
  induction items with
  | nil => exact ⟨[], .nil⟩
  | cons v rest ih =>
      obtain ⟨hFirst, hRest⟩ := List.forall_mem_cons.mp hItems
      obtain ⟨w, hFirst⟩ := hFirst
      obtain ⟨ws, hRest⟩ := ih hRest
      exact ⟨w :: ws, .cons hFirst hRest⟩

/-- The values of a list stand in the printed text one after the other. -/
theorem items_dump {v w : Json11} {vs ws : List Json11} {before : Text} (hBefore : Space before)
    (hFirst : Rereads doubles levels v w) (hRest : List.Forall₂ (Rereads doubles levels) vs ws) :
    Items (IsValue doubles levels) (before ++ dumpItems doubles (v :: vs)) (w :: ws) := by
  induction hRest generalizing v w before with
  | nil =>
      have hLast := Items.last hBefore hFirst.value run_nil
      rwa [List.append_nil] at hLast
  | cons hNext _ ih =>
      have hSpace : Space [' '] := by simp [Space, isSpace]
      exact .more hBefore hFirst.value run_nil (ih hSpace hNext)

theorem equalItems_of_rereads {vs ws : List Json11}
    (hAll : List.Forall₂ (Rereads doubles levels) vs ws) : equalItems ws vs = true := by
  induction hAll with
  | nil => rfl
  | cons hFirst _ ih => rw [equalItems, hFirst.equal, ih, Bool.and_self]

theorem dumpItems_of_rereads {vs ws : List Json11}
    (hAll : List.Forall₂ (Rereads doubles levels) vs ws) :
    dumpItems doubles ws = dumpItems doubles vs := by
  induction hAll with
  | nil => rfl
  | cons hFirst hRest ih =>
      cases hRest with
      | nil => rw [dumpItems, dumpItems, hFirst.stable]
      | cons => rw [dumpItems, dumpItems, hFirst.stable, ih]

theorem held_of_rereads {vs ws : List Json11}
    (hAll : List.Forall₂ (Rereads doubles levels) vs ws) :
    ∀ w ∈ ws, Held doubles levels w := by
  induction hAll with
  | nil => exact List.forall_mem_nil _
  | cons hFirst _ ih => exact List.forall_mem_cons.mpr ⟨hFirst.held, ih⟩

theorem rereads_array {items : List Json11}
    (hItems : ∀ v ∈ items, ∃ w, Rereads doubles levels v w) :
    ∃ w, Rereads doubles (levels + 1) (.array items) w := by
  obtain ⟨ws, hAll⟩ := rereads_items hItems
  refine ⟨.array ws, ?_, held_of_rereads hAll, equalItems_of_rereads hAll, ?_⟩
  · cases hAll with
    | nil => exact .emptyArray run_nil
    | cons hFirst hRest => exact .array (items_dump run_nil hFirst hRest)
  · rw [dump, dump, dumpItems_of_rereads hAll]

/-- A member whose value is what the value of the other becomes. -/
def RereadsMember (doubles : Doubles) (levels : Nat) (m n : String × Json11) : Prop :=
  n.1 = m.1 ∧ Rereads doubles levels m.2 n.2

theorem rereads_members {members : List (String × Json11)}
    (hMembers : ∀ m ∈ members, ∃ w, Rereads doubles levels m.2 w) :
    ∃ ns, List.Forall₂ (RereadsMember doubles levels) members ns := by
  induction members with
  | nil => exact ⟨[], .nil⟩
  | cons m rest ih =>
      obtain ⟨hFirst, hRest⟩ := List.forall_mem_cons.mp hMembers
      obtain ⟨w, hFirst⟩ := hFirst
      obtain ⟨ns, hRest⟩ := ih hRest
      exact ⟨(m.1, w) :: ns, .cons ⟨rfl, hFirst⟩ hRest⟩

theorem member_dump {m n : String × Json11} (hMember : RereadsMember doubles levels m n)
    {before : Text} (hBefore : Space before) :
    Member (IsValue doubles levels)
      (before ++ (dumpString m.1 ++ ([':', ' '] ++ dump doubles m.2))) n := by
  obtain ⟨hKey, hValue⟩ := hMember
  have hSpace : Space [' '] := by simp [Space, isSpace]
  have hIntro := Member.intro hBefore (isString_dump m.1) run_nil hSpace hValue.value run_nil
  rw [List.append_nil, String.ofList_toList, ← hKey] at hIntro
  rw [← hKey]
  exact hIntro

theorem members_dump {m n : String × Json11} {ms ns : List (String × Json11)} {before : Text}
    (hBefore : Space before) (hFirst : RereadsMember doubles levels m n)
    (hRest : List.Forall₂ (RereadsMember doubles levels) ms ns) :
    Members (IsValue doubles levels) (before ++ dumpMembers doubles (m :: ms)) (n :: ns) := by
  induction hRest generalizing m n before with
  | nil => exact .last (member_dump hFirst hBefore)
  | cons hNext _ ih =>
      have hSpace : Space [' '] := by simp [Space, isSpace]
      have hMore := Members.more (member_dump hFirst hBefore) (ih hSpace hNext)
      rw [dumpMembers]
      simpa only [List.append_assoc, List.cons_append, List.nil_append] using hMore

theorem equalMembers_of_rereads {ms ns : List (String × Json11)}
    (hAll : List.Forall₂ (RereadsMember doubles levels) ms ns) : equalMembers ns ms = true := by
  induction hAll with
  | nil => rfl
  | cons hFirst _ ih =>
      obtain ⟨hKey, hValue⟩ := hFirst
      rw [equalMembers, hKey, hValue.equal, ih]
      simp

theorem dumpMembers_of_rereads {ms ns : List (String × Json11)}
    (hAll : List.Forall₂ (RereadsMember doubles levels) ms ns) :
    dumpMembers doubles ns = dumpMembers doubles ms := by
  induction hAll with
  | nil => rfl
  | cons hFirst hRest ih =>
      obtain ⟨hKey, hValue⟩ := hFirst
      cases hRest with
      | nil => rw [dumpMembers, dumpMembers, hKey, hValue.stable]
      | cons => rw [dumpMembers, dumpMembers, hKey, hValue.stable, ih]

/-- Keys that come in order stay where they come. -/
theorem insertMember_last {key : String} {v : Json11} {data : List (String × Json11)}
    (hLast : ∀ m ∈ data, m.1 < key) : insertMember key v data = data ++ [(key, v)] := by
  induction data with
  | nil => rfl
  | cons m rest ih =>
      obtain ⟨hFirst, hRest⟩ := List.forall_mem_cons.mp hLast
      rw [insertMember, if_neg (lt_asymm hFirst), if_neg (ne_of_gt hFirst), ih hRest]
      rfl

theorem ofMembers_ordered {ms data : List (String × Json11)}
    (hOrdered : (data ++ ms).Pairwise fun m n => m.1 < n.1) : ofMembers ms data = data ++ ms := by
  induction ms generalizing data with
  | nil => rw [ofMembers, List.foldl_nil, List.append_nil]
  | cons m rest ih =>
      have hLast : ∀ n ∈ data, n.1 < m.1 := fun n hMem =>
        (List.pairwise_append.mp hOrdered).2.2 n hMem m List.mem_cons_self
      rw [ofMembers, List.foldl_cons, insertMember_last hLast, ← ofMembers, ih]
      · simp
      · simpa using hOrdered

theorem ordered_of_rereads {ms ns : List (String × Json11)}
    (hAll : List.Forall₂ (RereadsMember doubles levels) ms ns)
    (hOrdered : ms.Pairwise fun m n => m.1 < n.1) : ns.Pairwise fun m n => m.1 < n.1 := by
  have hKeys : ns.map Prod.fst = ms.map Prod.fst := by
    clear hOrdered
    induction hAll with
    | nil => rfl
    | cons hFirst _ ih => rw [List.map_cons, List.map_cons, hFirst.1, ih]
  rw [← List.pairwise_map (f := Prod.fst) (R := (· < ·))] at hOrdered ⊢
  rwa [hKeys]

theorem heldMembers_of_rereads {ms ns : List (String × Json11)}
    (hAll : List.Forall₂ (RereadsMember doubles levels) ms ns) :
    ∀ n ∈ ns, Held doubles levels n.2 := by
  induction hAll with
  | nil => exact List.forall_mem_nil _
  | cons hFirst _ ih => exact List.forall_mem_cons.mpr ⟨hFirst.2.held, ih⟩

theorem rereads_object {members : List (String × Json11)}
    (hOrdered : members.Pairwise fun m n => m.1 < n.1)
    (hMembers : ∀ m ∈ members, ∃ w, Rereads doubles levels m.2 w) :
    ∃ w, Rereads doubles (levels + 1) (.object members) w := by
  obtain ⟨ns, hAll⟩ := rereads_members hMembers
  have hSame := ordered_of_rereads hAll hOrdered
  refine ⟨.object ns, ?_, ⟨hSame, heldMembers_of_rereads hAll⟩, equalMembers_of_rereads hAll, ?_⟩
  · cases hAll with
    | nil => exact .emptyObject run_nil
    | cons hFirst hRest =>
        have hObject : ValueOver doubles (IsValue doubles levels) _ _ :=
          .object (members_dump run_nil hFirst hRest)
        have hData : ofMembers _ [] = [] ++ _ := ofMembers_ordered hSame
        rwa [hData] at hObject
  · rw [dump, dump, dumpMembers_of_rereads hAll]

theorem Held.rereads (lawful : doubles.Lawful) : ∀ {levels : Nat} {v : Json11},
    Held doubles levels v → ∃ w, Rereads doubles levels v w
  | 0, _, held => held.elim
  | levels + 1, .null, _ => ⟨.null, .null, trivial, rfl, rfl⟩
  | levels + 1, .bool true, _ => ⟨.bool true, .true, trivial, rfl, rfl⟩
  | levels + 1, .bool false, _ => ⟨.bool false, .false, trivial, rfl, rfl⟩
  | levels + 1, .int _, held => rereads_int lawful held
  | levels + 1, .double _, held => rereads_double lawful held.1 held.2
  | levels + 1, .string s, _ => by
      have hString : ValueOver doubles (IsValue doubles levels) _ _ := .string (isString_dump s)
      rw [String.ofList_toList] at hString
      refine ⟨.string s, hString, trivial, ?_, rfl⟩
      rw [equal, decide_eq_true rfl]
  | levels + 1, .array _, held => rereads_array fun v hMem => Held.rereads lawful (held v hMem)
  | levels + 1, .object _, held =>
      rereads_object held.1 fun m hMem => Held.rereads lawful (held.2 m hMem)

theorem Items.values {Value : Text → Json11 → Prop} {t : Text} {vs : List Json11}
    (hItems : Items Value t vs) : ∀ v ∈ vs, ∃ u, Value u v := by
  induction hItems with
  | last _ hValue _ => exact List.forall_mem_singleton.mpr ⟨_, hValue⟩
  | more _ hValue _ _ ih => exact List.forall_mem_cons.mpr ⟨⟨_, hValue⟩, ih⟩

theorem Members.values {Value : Text → Json11 → Prop} {t : Text} {ms : List (String × Json11)}
    (hMembers : Members Value t ms) : ∀ m ∈ ms, ∃ u, Value u m.2 := by
  induction hMembers with
  | last hMember =>
      obtain ⟨_, _, _, _, hValue, _⟩ := hMember
      exact List.forall_mem_singleton.mpr ⟨_, hValue⟩
  | more hMember _ ih =>
      obtain ⟨_, _, _, _, hValue, _⟩ := hMember
      exact List.forall_mem_cons.mpr ⟨⟨_, hValue⟩, ih⟩

theorem mem_insertMember {key : String} {v : Json11} {data : List (String × Json11)}
    {m : String × Json11} (hMem : m ∈ insertMember key v data) : m = (key, v) ∨ m ∈ data := by
  induction data with
  | nil => exact Or.inl (List.mem_singleton.mp hMem)
  | cons n rest ih =>
      rw [insertMember] at hMem
      split_ifs at hMem
      · exact List.mem_cons.mp hMem
      · exact (List.mem_cons.mp hMem).imp_right (List.mem_cons_of_mem _)
      · rcases List.mem_cons.mp hMem with rfl | hMem
        · exact Or.inr List.mem_cons_self
        · exact (ih hMem).imp_right (List.mem_cons_of_mem _)

theorem insertMember_ordered {key : String} {v : Json11} {data : List (String × Json11)}
    (hOrdered : data.Pairwise fun m n => m.1 < n.1) :
    (insertMember key v data).Pairwise fun m n => m.1 < n.1 := by
  induction data with
  | nil => exact List.pairwise_singleton _ _
  | cons n rest ih =>
      obtain ⟨hFirst, hRest⟩ := List.pairwise_cons.mp hOrdered
      rw [insertMember]
      split_ifs with hBefore hSame
      · refine List.pairwise_cons.mpr ⟨?_, hOrdered⟩
        exact List.forall_mem_cons.mpr ⟨hBefore, fun m hMem => hBefore.trans (hFirst m hMem)⟩
      · exact List.pairwise_cons.mpr ⟨fun m hMem => hSame ▸ hFirst m hMem, hRest⟩
      · refine List.pairwise_cons.mpr ⟨fun m hMem => ?_, ih hRest⟩
        rcases mem_insertMember hMem with rfl | hMem
        · exact lt_of_le_of_ne (le_of_not_gt hBefore) (Ne.symm hSame)
        · exact hFirst m hMem

/-- Whatever order the members have in a text, in memory they have the order of a map. -/
theorem ofMembers_held {P : Json11 → Prop} {ms data : List (String × Json11)}
    (hOrdered : data.Pairwise fun m n => m.1 < n.1) (hData : ∀ m ∈ data, P m.2)
    (hMembers : ∀ m ∈ ms, P m.2) :
    (ofMembers ms data).Pairwise (fun m n => m.1 < n.1) ∧ ∀ m ∈ ofMembers ms data, P m.2 := by
  induction ms generalizing data with
  | nil => exact ⟨hOrdered, hData⟩
  | cons m rest ih =>
      obtain ⟨hFirst, hRest⟩ := List.forall_mem_cons.mp hMembers
      refine ih (insertMember_ordered hOrdered) (fun n hMem => ?_) hRest
      rcases mem_insertMember hMem with rfl | hMem
      · exact hFirst
      · exact hData n hMem

mutual

/-- No number in the value was too large for a `double`. -/
def finite : Json11 → Bool
  | .double q => isFinite q
  | .array items => finiteItems items
  | .object members => finiteMembers members
  | _ => true

def finiteItems : List Json11 → Bool
  | [] => true
  | v :: rest => v.finite && finiteItems rest

def finiteMembers : List (String × Json11) → Bool
  | [] => true
  | m :: rest => m.2.finite && finiteMembers rest

end

theorem finiteItems_iff {items : List Json11} :
    finiteItems items = true ↔ ∀ v ∈ items, v.finite = true := by
  induction items with
  | nil => simp [finiteItems]
  | cons v rest ih => rw [finiteItems, Bool.and_eq_true, ih, List.forall_mem_cons]

theorem finiteMembers_iff {members : List (String × Json11)} :
    finiteMembers members = true ↔ ∀ m ∈ members, m.2.finite = true := by
  induction members with
  | nil => simp [finiteMembers]
  | cons m rest ih => rw [finiteMembers, Bool.and_eq_true, ih, List.forall_mem_cons]

/-- What has been read can be in memory. -/
theorem IsValue.held (lawful : doubles.Lawful) {levels : Nat} {t : Text} {v : Json11}
    (hValue : IsValue doubles levels t v) (hFinite : v.finite = true) :
    Held doubles levels v := by
  induction levels generalizing t v with
  | zero => exact hValue.elim
  | succ levels ih =>
      cases hValue with
      | null => trivial
      | true => trivial
      | false => trivial
      | string => trivial
      | number hValid =>
          rcases Numeral.read_cases doubles hValid with ⟨hRead, hRange, -⟩ | hRead
          · rw [hRead]
            exact hRange
          · rw [hRead] at hFinite ⊢
            exact ⟨lawful.settled _, hFinite⟩
      | emptyArray => exact List.forall_mem_nil _
      | array hItems =>
          intro v hMem
          obtain ⟨u, hValue⟩ := hItems.values v hMem
          exact ih hValue (finiteItems_iff.mp hFinite v hMem)
      | emptyObject => exact ⟨.nil, List.forall_mem_nil _⟩
      | object hMembers =>
          have hHeld := ofMembers_held (P := fun v => v.finite = true → Held doubles levels v)
            .nil (List.forall_mem_nil _) fun m hMem => by
              obtain ⟨u, hValue⟩ := hMembers.values m hMem
              exact ih hValue
          exact ⟨hHeld.1, fun m hMem => hHeld.2 m hMem (finiteMembers_iff.mp hFinite m hMem)⟩

theorem document_dump (lawful : doubles.Lawful) {v : Json11}
    (held : Held doubles (maxDepth + 1) v) :
    ∃ w, document doubles (dump doubles v) = .ok w ∧ Rereads doubles (maxDepth + 1) v w := by
  obtain ⟨w, rereads⟩ := held.rereads lawful
  refine ⟨w, (document_iff doubles).mpr ⟨[], _, [], ?_, run_nil, run_nil, rereads.value⟩, rereads⟩
  simp

/-- The text `[1,-20 ,"a\n"]`. -/
def sampleText : Text := ['[', '1', ',', '-', '2', '0', ' ', ',', '"', 'a', '\\', 'n', '"', ']']

theorem dump_last (doubles : Doubles) {v : Json11} (hClosed : v.isNumber = false) :
    ∃ init ch, dump doubles v = init ++ [ch] ∧ isSpace ch = false := by
  cases v with
  | null => exact ⟨['n', 'u', 'l'], 'l', rfl, rfl⟩
  | bool b =>
      cases b with
      | true => exact ⟨['t', 'r', 'u'], 'e', rfl, rfl⟩
      | false => exact ⟨['f', 'a', 'l', 's'], 'e', rfl, rfl⟩
  | int => cases hClosed
  | double => cases hClosed
  | string s => exact ⟨'"' :: dumpChars s.toList, '"', by rw [dump, dumpString]; rfl, rfl⟩
  | array items => exact ⟨'[' :: dumpItems doubles items, ']', by rw [dump]; rfl, rfl⟩
  | object members =>
      exact ⟨'\x7b' :: dumpMembers doubles members, '\x7d', by rw [dump]; rfl, rfl⟩

/-- A file that has only a beginning of the text of a value other than a number is not read
as anything. -/
theorem dump_unfinished (lawful : doubles.Lawful) {v : Json11}
    (held : Held doubles (maxDepth + 1) v) (hClosed : v.isNumber = false) {n : Nat}
    (hPart : n < (dump doubles v).length) :
    (document doubles ((dump doubles v).take n)).isOk = false := by
  obtain ⟨w, hRead, rereads⟩ := document_dump lawful held
  obtain ⟨init, ch, hText, hLast⟩ := dump_last doubles hClosed
  have hWhole := List.take_append_drop n (dump doubles v)
  rw [← hWhole] at hRead
  have hClosed' : w.isNumber = false := by
    have hEqual := rereads.equal
    cases w with
    | int => rw [equal, hClosed] at hEqual; cases hEqual
    | double => rw [equal, hClosed] at hEqual; cases hEqual
    | _ => rfl
  refine document_unfinished doubles hRead hClosed' fun hSpace => ?_
  have hMem : ch ∈ (dump doubles v).drop n := by
    rw [hText] at hPart ⊢
    rw [List.length_append, List.length_singleton] at hPart
    rw [List.drop_append_of_le_length (by omega)]
    simp
  rw [hSpace ch hMem] at hLast
  cases hLast

end Values

end Hengda.Json11

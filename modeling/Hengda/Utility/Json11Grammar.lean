import Hengda.Library.Scanning
import Hengda.Utility.Json11Text

/-! Which texts json11 reads, and as which values. The grammar says what a value
may look like without saying in which order the parser tries things. Strings
and numbers come first: the parser reads exactly those of the grammar. -/
namespace Hengda.Json11

open Scanning

section Grammar

def Space (t : Text) : Prop :=
  Run isSpace t

def Digits (t : Text) : Prop :=
  t ≠ [] ∧ Run isDigit t

/-- What a string is written with. -/
inductive StringUnit
  | plain (ch : Char) (hPlain : 0x1f < ch.toNat ∧ ch ≠ '"' ∧ ch ≠ '\\')
  | simple (letter ch : Char) (hLetter : simpleEscape letter = some ch)
  | code (a b c d : Char) (hHex : [a, b, c, d].all isHexDigit = true)

namespace StringUnit

def text : StringUnit → Text
  | .plain ch _ => [ch]
  | .simple letter _ _ => ['\\', letter]
  | .code a b c d _ => ['\\', 'u', a, b, c, d]

/-- A character, or the number of a code point. -/
def element : StringUnit → Char ⊕ Nat
  | .plain ch _ => .inl ch
  | .simple _ ch _ => .inl ch
  | .code a b c d _ => .inr (codepoint [a, b, c, d])

end StringUnit

/-- Two code points in a row that are the halves of a pair stand for one character. -/
def decode : List (Char ⊕ Nat) → Text
  | [] => []
  | .inl ch :: rest => ch :: decode rest
  | .inr lead :: .inr trail :: rest =>
      if isLead lead && isTrail trail then encodeUtf8 (combine lead trail) ++ decode rest
      else encodeUtf8 lead ++ decode (.inr trail :: rest)
  | .inr pt :: rest => encodeUtf8 pt ++ decode rest

/-- The text of a string, quotes included, and what it stands for. -/
def IsString (t : Text) (value : Text) : Prop :=
  ∃ units : List StringUnit, t = '"' :: (units.flatMap StringUnit.text ++ ['"']) ∧
    value = decode (units.map StringUnit.element)

/-- The letter of an exponent with its sign. -/
def marks : List Text :=
  [['e', '+'], ['e', '-'], ['e'], ['E', '+'], ['E', '-'], ['E']]

namespace Numeral

structure Valid (n : Numeral) : Prop where
  whole : n.whole = ['0'] ∨ Digits n.whole ∧ n.whole.head? ≠ some '0'
  fraction : n.fraction = [] ∨ Digits n.fraction
  exponent : n.mark = [] ∧ n.exponent = [] ∨ n.mark ∈ marks ∧ Digits n.exponent

def fractionText (fraction : Text) : Text :=
  if fraction = [] then [] else '.' :: fraction

def text (n : Numeral) : Text :=
  n.sign ++ (n.whole ++ (fractionText n.fraction ++ (n.mark ++ n.exponent)))

end Numeral

variable (doubles : Doubles)

/-- The values of a list, with the text between the brackets. -/
inductive Items (Value : Text → Json11 → Prop) : Text → List Json11 → Prop
  | last {before t after v} (hBefore : Space before) (hValue : Value t v)
      (hAfter : Space after) : Items Value (before ++ (t ++ after)) [v]
  | more {before t after v rest vs} (hBefore : Space before) (hValue : Value t v)
      (hAfter : Space after) (hRest : Items Value rest vs) :
      Items Value (before ++ (t ++ (after ++ ',' :: rest))) (v :: vs)

/-- A key with its value, and the white space around them. -/
inductive Member (Value : Text → Json11 → Prop) : Text → String × Json11 → Prop
  | intro {before k key between colon t after v} (hBefore : Space before)
      (hKey : IsString k key) (hBetween : Space between) (hColon : Space colon)
      (hValue : Value t v) (hAfter : Space after) :
      Member Value (before ++ (k ++ (between ++ ':' :: (colon ++ (t ++ after)))))
        (String.ofList key, v)

/-- The members of an object, with the text between the braces. -/
inductive Members (Value : Text → Json11 → Prop) : Text → List (String × Json11) → Prop
  | last {t m} (hMember : Member Value t m) : Members Value t [m]
  | more {t m rest ms} (hMember : Member Value t m) (hRest : Members Value rest ms) :
      Members Value (t ++ ',' :: rest) (m :: ms)

/-- The members one after the other; the last value of a key is the one that is kept. -/
def ofMembers (members : List (String × Json11)) (data : List (String × Json11)) :
    List (String × Json11) :=
  members.foldl (fun data m => insertMember m.1 m.2 data) data

/-- A value whose parts are values of `Value`. -/
inductive ValueOver (Value : Text → Json11 → Prop) : Text → Json11 → Prop
  | null : ValueOver Value nullText .null
  | true : ValueOver Value trueText (.bool true)
  | false : ValueOver Value falseText (.bool false)
  | number {n : Numeral} (hValid : n.Valid) : ValueOver Value n.text (n.read doubles)
  | string {t value} (hString : IsString t value) :
      ValueOver Value t (.string (String.ofList value))
  | emptyArray {s} (hSpace : Space s) : ValueOver Value ('[' :: (s ++ [']'])) (.array [])
  | array {t vs} (hItems : Items Value t vs) : ValueOver Value ('[' :: (t ++ [']'])) (.array vs)
  | emptyObject {s} (hSpace : Space s) :
      ValueOver Value ('\x7b' :: (s ++ ['\x7d'])) (.object [])
  | object {t ms} (hMembers : Members Value t ms) :
      ValueOver Value ('\x7b' :: (t ++ ['\x7d'])) (.object (ofMembers ms []))

/-- A value that is nested at most so many levels deep. -/
def IsValue : Nat → Text → Json11 → Prop
  | 0 => fun _ _ => False
  | levels + 1 => ValueOver doubles (IsValue levels)

def IsDocument (t : Text) (v : Json11) : Prop :=
  ∃ before body after, t = before ++ (body ++ after) ∧ Space before ∧ Space after ∧
    IsValue doubles (maxDepth + 1) body v

end Grammar

section Strings

theorem parseString_quote (out : Text) (last : Option Nat) (rest : Text) :
    parseString out last ('"' :: rest) = .ok (out ++ pending last, rest) := by
  rw [parseString]

theorem parseString_plain {ch : Char} (hPlain : 0x1f < ch.toNat ∧ ch ≠ '"' ∧ ch ≠ '\\')
    (out : Text) (last : Option Nat) (rest : Text) :
    parseString out last (ch :: rest) = parseString (out ++ pending last ++ [ch]) none rest := by
  obtain ⟨hControl, hQuote, hBackslash⟩ := hPlain
  rw [parseString.eq_def]
  split <;> simp_all

theorem simpleEscape_u : simpleEscape 'u' = none := by decide

theorem parseString_simple {letter ch : Char} (hLetter : simpleEscape letter = some ch)
    (out : Text) (last : Option Nat) (rest : Text) :
    parseString out last ('\\' :: letter :: rest) =
      parseString (out ++ pending last ++ [ch]) none rest := by
  rw [parseString]
  · rw [hLetter]
  · rintro a b c d rest' rfl -
    rw [simpleEscape_u] at hLetter
    cases hLetter

theorem parseString_code {a b c d : Char} (hHex : [a, b, c, d].all isHexDigit = true)
    (out : Text) (last : Option Nat) (rest : Text) :
    parseString out last ('\\' :: 'u' :: a :: b :: c :: d :: rest) =
      match last with
      | some lead =>
          if isLead lead && isTrail (codepoint [a, b, c, d]) then
            parseString (out ++ encodeUtf8 (combine lead (codepoint [a, b, c, d]))) none rest
          else parseString (out ++ encodeUtf8 lead) (some (codepoint [a, b, c, d])) rest
      | none => parseString out (some (codepoint [a, b, c, d])) rest := by
  rw [parseString]
  exact if_pos hHex

/-- The code point that is waiting, as the first of the elements that follow. -/
def waiting (last : Option Nat) (elements : List (Char ⊕ Nat)) : List (Char ⊕ Nat) :=
  last.elim elements fun pt => .inr pt :: elements

@[simp]
theorem waiting_none (elements : List (Char ⊕ Nat)) : waiting none elements = elements := rfl

@[simp]
theorem waiting_some (pt : Nat) (elements : List (Char ⊕ Nat)) :
    waiting (some pt) elements = .inr pt :: elements := rfl

theorem decode_pair {lead trail : Nat} (hPair : (isLead lead && isTrail trail) = true)
    (rest : List (Char ⊕ Nat)) :
    decode (.inr lead :: .inr trail :: rest) = encodeUtf8 (combine lead trail) ++ decode rest := by
  rw [decode, if_pos hPair]

theorem decode_single {lead trail : Nat} (hPair : ¬(isLead lead && isTrail trail) = true)
    (rest : List (Char ⊕ Nat)) :
    decode (.inr lead :: .inr trail :: rest) = encodeUtf8 lead ++ decode (.inr trail :: rest) := by
  rw [decode, if_neg hPair]

theorem decode_waiting_nil (last : Option Nat) : decode (waiting last []) = pending last := by
  cases last with
  | none => rfl
  | some pt => simp [decode, pending]

theorem decode_waiting_char (last : Option Nat) (ch : Char) (rest : List (Char ⊕ Nat)) :
    decode (waiting last (.inl ch :: rest)) = pending last ++ ch :: decode rest := by
  cases last with
  | none => simp [decode, pending]
  | some pt => simp [decode, pending]

/-- `parse_string` reads every string of the grammar as what it stands for. -/
theorem parseString_complete (units : List StringUnit) (out : Text) (last : Option Nat)
    (rest : Text) :
    parseString out last (units.flatMap StringUnit.text ++ '"' :: rest) =
      .ok (out ++ decode (waiting last (units.map StringUnit.element)), rest) := by
  induction units generalizing out last with
  | nil =>
      rw [List.flatMap_nil, List.nil_append, parseString_quote, List.map_nil,
        decode_waiting_nil]
  | cons unit units ih =>
      rw [List.flatMap_cons, List.append_assoc, List.map_cons]
      cases unit with
      | plain ch hPlain =>
          rw [StringUnit.text, List.singleton_append, parseString_plain hPlain, ih,
            StringUnit.element, decode_waiting_char]
          simp
      | simple letter ch hLetter =>
          change parseString out last
            ('\\' :: letter :: (units.flatMap StringUnit.text ++ '"' :: rest)) = _
          rw [parseString_simple hLetter, ih, StringUnit.element, decode_waiting_char]
          simp
      | code a b c d hHex =>
          change parseString out last ('\\' :: 'u' :: a :: b :: c :: d ::
            (units.flatMap StringUnit.text ++ '"' :: rest)) = _
          rw [parseString_code hHex, StringUnit.element]
          cases last with
          | none => exact ih _ _
          | some lead =>
              dsimp only
              split_ifs with hPair
              · rw [ih, waiting_some, decode_pair hPair, List.append_assoc, waiting_none]
              · rw [ih, waiting_some, waiting_some, decode_single hPair, List.append_assoc]

/-- Nothing but the strings of the grammar gets through `parse_string`. -/
theorem parseString_sound {out : Text} {last : Option Nat} {t value rest : Text}
    (hParse : parseString out last t = .ok (value, rest)) :
    ∃ units : List StringUnit, t = units.flatMap StringUnit.text ++ '"' :: rest ∧
      value = out ++ decode (waiting last (units.map StringUnit.element)) := by
  fun_induction parseString out last t with
  | case2 out last rest' =>
      cases hParse
      exact ⟨[], rfl, by rw [List.map_nil, decode_waiting_nil]⟩
  | case4 out a b c d rest' hHex pt lead hPair ih =>
      obtain ⟨units, rfl, rfl⟩ := ih hParse
      refine ⟨.code a b c d hHex :: units, rfl, ?_⟩
      rw [List.map_cons, waiting_some, StringUnit.element, decode_pair hPair, waiting_none,
        List.append_assoc]
  | case5 out a b c d rest' hHex pt lead hPair ih =>
      obtain ⟨units, rfl, rfl⟩ := ih hParse
      refine ⟨.code a b c d hHex :: units, rfl, ?_⟩
      rw [List.map_cons, waiting_some, waiting_some, StringUnit.element, decode_single hPair,
        List.append_assoc]
  | case6 out a b c d rest' hHex pt ih =>
      obtain ⟨units, rfl, rfl⟩ := ih hParse
      exact ⟨.code a b c d hHex :: units, rfl, rfl⟩
  | case8 out last letter rest' _ ch hLetter ih =>
      obtain ⟨units, rfl, rfl⟩ := ih hParse
      refine ⟨.simple letter ch hLetter :: units, rfl, ?_⟩
      rw [List.map_cons, StringUnit.element, decode_waiting_char]
      simp
  | case12 out last ch rest' hQuote hLast _ hEscape hControl ih =>
      obtain ⟨units, rfl, rfl⟩ := ih hParse
      have hBackslash : ch ≠ '\\' := by
        rintro rfl
        cases hText : units.flatMap StringUnit.text ++ '"' :: rest with
        | nil => exact hLast rfl hText
        | cons c t => exact hEscape c t rfl hText
      refine ⟨.plain ch ⟨Nat.lt_of_not_le hControl, hQuote, hBackslash⟩ :: units, rfl, ?_⟩
      rw [List.map_cons, StringUnit.element, decode_waiting_char]
      simp
  | _ => cases hParse

/-- Behind the opening quote a string of the grammar is read up to its end. -/
theorem IsString.parse {t value : Text} (isString : IsString t value) (rest : Text) :
    ∃ u, t ++ rest = '"' :: u ∧ parseString [] none u = .ok (value, rest) := by
  obtain ⟨units, rfl, rfl⟩ := isString
  refine ⟨units.flatMap StringUnit.text ++ '"' :: rest, by simp, ?_⟩
  rw [parseString_complete, List.nil_append, waiting_none]

theorem IsString.of_parse {u value rest : Text}
    (hParse : parseString [] none u = .ok (value, rest)) :
    ∃ t, '"' :: u = t ++ rest ∧ IsString t value := by
  obtain ⟨units, rfl, rfl⟩ := parseString_sound hParse
  exact ⟨_, by simp, units, rfl, rfl⟩

end Strings

section Numbers

theorem parseWhole_complete {whole rest : Text}
    (hWhole : whole = ['0'] ∨ Digits whole ∧ whole.head? ≠ some '0')
    (hRest : Stops isDigit rest) : parseWhole (whole ++ rest) = .ok (whole, rest) := by
  rcases hWhole with rfl | ⟨⟨hNonempty, hDigits⟩, hHead⟩
  · rw [List.singleton_append, parseWhole, takeWhile_stops hRest]
    rfl
  · obtain ⟨d, ds, rfl⟩ := List.exists_cons_of_ne_nil hNonempty
    rw [List.cons_append, parseWhole]
    · rw [← List.cons_append, takeWhile_run hDigits hRest, dropWhile_run hDigits hRest]
      rfl
    · intro t hZero
      cases hZero
      exact hHead rfl

/-- Digits that a scan has found. -/
theorem digits_takeWhile {t : Text} (hFound : ¬(t.takeWhile isDigit).isEmpty = true) :
    Digits (t.takeWhile isDigit) :=
  ⟨fun hNil => hFound (List.isEmpty_iff.mpr hNil), run_takeWhile t⟩

theorem parseWhole_sound {t whole rest : Text} (hParse : parseWhole t = .ok (whole, rest)) :
    t = whole ++ rest ∧ (whole = ['0'] ∨ Digits whole ∧ whole.head? ≠ some '0') := by
  rw [parseWhole.eq_def] at hParse
  split at hParse
  · split_ifs at hParse
    cases hParse
    exact ⟨rfl, Or.inl rfl⟩
  · rename_i hZero
    split_ifs at hParse with hNone
    cases hParse
    refine ⟨List.takeWhile_append_dropWhile.symm, Or.inr ⟨digits_takeWhile hNone, ?_⟩⟩
    intro hHead
    obtain ⟨ds, hDigits⟩ := List.head?_eq_some_iff.mp hHead
    refine hZero (ds ++ t.dropWhile isDigit) ?_
    rw [← List.cons_append, ← hDigits, List.takeWhile_append_dropWhile]

/-- A character that cannot go on with a number that has no exponent yet. -/
def continuesNumber (ch : Char) : Bool :=
  isDigit ch || ch = '.' || ch = 'e' || ch = 'E'

theorem stops_digit {t : Text} (hStops : Stops continuesNumber t) : Stops isDigit t := by
  intro ch hHead
  have hNot := hStops ch hHead
  simp only [continuesNumber, Bool.or_eq_false_iff] at hNot
  exact hNot.1.1.1

theorem parseFraction_complete {fraction rest : Text}
    (hFraction : fraction = [] ∨ Digits fraction) (hRest : Stops isDigit rest)
    (hPoint : rest.head? ≠ some '.') :
    parseFraction (Numeral.fractionText fraction ++ rest) = .ok (fraction, rest) := by
  rcases hFraction with rfl | ⟨hNonempty, hDigits⟩
  · rw [Numeral.fractionText, if_pos rfl, List.nil_append, parseFraction]
    rintro t rfl
    exact hPoint rfl
  · rw [Numeral.fractionText, if_neg hNonempty, List.cons_append, parseFraction,
      takeWhile_run hDigits hRest, dropWhile_run hDigits hRest, if_neg]
    rwa [List.isEmpty_iff]

theorem parseFraction_sound {t fraction rest : Text}
    (hParse : parseFraction t = .ok (fraction, rest)) :
    t = Numeral.fractionText fraction ++ rest ∧ (fraction = [] ∨ Digits fraction) := by
  rw [parseFraction.eq_def] at hParse
  split at hParse
  · split_ifs at hParse with hNone
    cases hParse
    have hDigits := digits_takeWhile hNone
    refine ⟨?_, Or.inr hDigits⟩
    rw [Numeral.fractionText, if_neg hDigits.1, List.cons_append,
      List.takeWhile_append_dropWhile]
  · cases hParse
    exact ⟨rfl, Or.inl rfl⟩

/-- The longest mark is taken, which the digits of the exponent cannot be mistaken for. -/
theorem parseMark_complete {mark rest : Text} (hMark : mark ∈ marks)
    (hRest : ∀ ch ∈ rest.head?, isDigit ch = true) : parseMark (mark ++ rest) = (mark, rest) := by
  have hSign : rest.head? ≠ some '+' ∧ rest.head? ≠ some '-' := by
    constructor <;>
      · intro hHead
        exact absurd (hRest _ hHead) (by decide)
  obtain ⟨hPlus, hMinus⟩ := hSign
  simp only [marks, List.mem_cons, List.not_mem_nil, or_false] at hMark
  rcases hMark with rfl | rfl | rfl | rfl | rfl | rfl
  · rfl
  · rfl
  · rw [List.singleton_append, parseMark]
    · rintro t rfl
      exact hPlus rfl
    · rintro t rfl
      exact hMinus rfl
  · rfl
  · rfl
  · rw [List.singleton_append, parseMark]
    · rintro t rfl
      exact hPlus rfl
    · rintro t rfl
      exact hMinus rfl

theorem parseMark_sound (t : Text) :
    t = (parseMark t).1 ++ (parseMark t).2 ∧
      ((parseMark t).1 = [] ∨ (parseMark t).1 ∈ marks) := by
  rw [parseMark.eq_def]
  split <;> simp [marks]

theorem parseExponent_complete {mark exponent rest : Text}
    (hExponent : mark = [] ∧ exponent = [] ∨ mark ∈ marks ∧ Digits exponent)
    (hRest : Stops continuesNumber rest) :
    parseExponent (mark ++ (exponent ++ rest)) = .ok ((mark, exponent), rest) := by
  rw [parseExponent]
  rcases hExponent with ⟨rfl, rfl⟩ | ⟨hMark, hNonempty, hDigits⟩
  · have hNone : parseMark rest = ([], rest) := by
      rw [parseMark] <;>
        · rintro t rfl
          simp [continuesNumber] at hRest
    rw [List.nil_append, List.nil_append, hNone]
    rfl
  · have hFirst : ∀ ch ∈ (exponent ++ rest).head?, isDigit ch = true := by
      obtain ⟨d, ds, rfl⟩ := List.exists_cons_of_ne_nil hNonempty
      rintro ch ⟨⟩
      exact hDigits d (by simp)
    have hMarked : mark.isEmpty = false := by
      simp only [marks, List.mem_cons, List.not_mem_nil, or_false] at hMark
      rcases hMark with rfl | rfl | rfl | rfl | rfl | rfl <;> rfl
    have hEnd := stops_digit hRest
    rw [parseMark_complete hMark hFirst]
    simp only [hMarked, takeWhile_run hDigits hEnd, dropWhile_run hDigits hEnd,
      List.isEmpty_iff, hNonempty, if_false, Bool.false_eq_true]

theorem parseExponent_sound {t mark exponent rest : Text}
    (hParse : parseExponent t = .ok ((mark, exponent), rest)) :
    t = mark ++ (exponent ++ rest) ∧
      (mark = [] ∧ exponent = [] ∨ mark ∈ marks ∧ Digits exponent) := by
  obtain ⟨hText, hMark⟩ := parseMark_sound t
  rw [parseExponent] at hParse
  simp only at hParse
  split_ifs at hParse with hEmpty hNone
  · cases hParse
    exact ⟨rfl, Or.inl ⟨rfl, rfl⟩⟩
  · cases hParse
    refine ⟨?_, Or.inr ⟨?_, digits_takeWhile hNone⟩⟩
    · rw [List.takeWhile_append_dropWhile]
      exact hText
    · exact hMark.resolve_left fun hNil => hEmpty (List.isEmpty_iff.mpr hNil)

/-- Behind the whole part, neither a mark nor the text behind the number can be mistaken
for more digits or for a fraction. -/
theorem stops_mark {mark exponent rest : Text}
    (hExponent : mark = [] ∧ exponent = [] ∨ mark ∈ marks ∧ Digits exponent)
    (hRest : Stops continuesNumber rest) :
    Stops isDigit (mark ++ (exponent ++ rest)) ∧
      (mark ++ (exponent ++ rest)).head? ≠ some '.' := by
  rcases hExponent with ⟨rfl, rfl⟩ | ⟨hMark, -⟩
  · refine ⟨stops_digit hRest, fun hHead => ?_⟩
    exact absurd (hRest '.' hHead) (by decide)
  · simp only [marks, List.mem_cons, List.not_mem_nil, or_false] at hMark
    rcases hMark with rfl | rfl | rfl | rfl | rfl | rfl <;> exact ⟨by simp [isDigit], by simp⟩

namespace Numeral

/-- The first character of a number without its sign. -/
theorem Valid.whole_head {n : Numeral} (hValid : n.Valid) :
    ∃ d ds, n.whole = d :: ds ∧ isDigit d = true := by
  rcases hValid.whole with hZero | ⟨⟨hNonempty, hDigits⟩, -⟩
  · exact ⟨'0', [], hZero, rfl⟩
  · obtain ⟨d, ds, hWhole⟩ := List.exists_cons_of_ne_nil hNonempty
    exact ⟨d, ds, hWhole, hDigits d (by simp [hWhole])⟩

theorem Valid.text_head {n : Numeral} (hValid : n.Valid) :
    ∃ ch t, n.text = ch :: t ∧ (ch = '-' ∨ isDigit ch = true) := by
  obtain ⟨d, ds, hWhole, hDigit⟩ := hValid.whole_head
  rw [text, sign, hWhole]
  cases n.negative with
  | true => exact ⟨'-', _, rfl, Or.inl rfl⟩
  | false => exact ⟨d, _, rfl, Or.inr hDigit⟩

/-- The text of a number without its sign. -/
def unsigned (t : Text) : Text :=
  if t.head? = some '-' then t.tail else t

theorem parseNumeral_eq_ok {t rest : Text} {n : Numeral} :
    parseNumeral t = .ok (n, rest) ↔
      n.negative = decide (t.head? = some '-') ∧ ∃ u v,
        parseWhole (unsigned t) = .ok (n.whole, u) ∧ parseFraction u = .ok (n.fraction, v) ∧
          parseExponent v = .ok ((n.mark, n.exponent), rest) := by
  obtain ⟨negative, whole, fraction, mark, exponent⟩ := n
  simp only [parseNumeral, bind_eq_ok, Prod.exists, Except.ok.injEq, Prod.mk.injEq,
    Numeral.mk.injEq]
  constructor
  · rintro ⟨_, u, hWhole, _, v, hFraction, _, _, _, hExponent, ⟨rfl, rfl, rfl, rfl, rfl⟩, rfl⟩
    exact ⟨rfl, u, v, hWhole, hFraction, hExponent⟩
  · rintro ⟨rfl, u, v, hWhole, hFraction, hExponent⟩
    exact ⟨whole, u, hWhole, fraction, v, hFraction, mark, exponent, rest, hExponent,
      ⟨rfl, rfl, rfl, rfl, rfl⟩, rfl⟩

theorem Valid.unsigned {n : Numeral} (hValid : n.Valid) (rest : Text) :
    n.negative = decide ((n.text ++ rest).head? = some '-') ∧
      Numeral.unsigned (n.text ++ rest) =
        n.whole ++ (fractionText n.fraction ++ (n.mark ++ (n.exponent ++ rest))) := by
  obtain ⟨d, ds, hWhole, hDigit⟩ := hValid.whole_head
  have hNoSign : d ≠ '-' := by
    rintro rfl
    cases hDigit
  cases hNegative : n.negative with
  | true => simp [text, sign, hNegative, Numeral.unsigned]
  | false => simp [text, sign, hNegative, Numeral.unsigned, hWhole, hNoSign]

/-- A number of the grammar is read as it is, provided the text behind it does not go on. -/
theorem Valid.parse {n : Numeral} (hValid : n.Valid) {rest : Text}
    (hRest : Stops continuesNumber rest) : parseNumeral (n.text ++ rest) = .ok (n, rest) := by
  obtain ⟨hMarkDigit, hMarkPoint⟩ := stops_mark hValid.exponent hRest
  have hFractionDigit :
      Stops isDigit (fractionText n.fraction ++ (n.mark ++ (n.exponent ++ rest))) := by
    rw [fractionText]
    split_ifs
    · exact hMarkDigit
    · simp [isDigit]
  obtain ⟨hSign, hUnsigned⟩ := hValid.unsigned rest
  refine parseNumeral_eq_ok.mpr ⟨hSign, _, _, ?_,
    parseFraction_complete hValid.fraction hMarkDigit hMarkPoint,
    parseExponent_complete hValid.exponent hRest⟩
  rw [hUnsigned]
  exact parseWhole_complete hValid.whole hFractionDigit

theorem sign_append_unsigned {t : Text} {n : Numeral}
    (hSign : n.negative = decide (t.head? = some '-')) : n.sign ++ Numeral.unsigned t = t := by
  rw [sign, Numeral.unsigned]
  simp only [hSign, decide_eq_true_eq]
  cases t with
  | nil => rfl
  | cons ch t =>
      split_ifs with hMinus
      · rw [List.head?_cons, Option.some.injEq] at hMinus
        rw [hMinus]
        rfl
      · rfl

theorem of_parse {t rest : Text} {n : Numeral} (hParse : parseNumeral t = .ok (n, rest)) :
    t = n.text ++ rest ∧ n.Valid := by
  obtain ⟨hSign, u, v, hReadWhole, hReadFraction, hReadExponent⟩ := parseNumeral_eq_ok.mp hParse
  obtain ⟨hUnsigned, hWhole⟩ := parseWhole_sound hReadWhole
  obtain ⟨rfl, hFraction⟩ := parseFraction_sound hReadFraction
  obtain ⟨rfl, hExponent⟩ := parseExponent_sound hReadExponent
  refine ⟨?_, hWhole, hFraction, hExponent⟩
  rw [← sign_append_unsigned hSign, hUnsigned, text]
  simp only [List.append_assoc]

end Numeral

end Numbers

end Hengda.Json11

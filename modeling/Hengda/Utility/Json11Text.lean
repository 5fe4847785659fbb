import Hengda.Utility.Json
import Mathlib.Algebra.Order.Ring.Unbundled.Rat
import Mathlib.Data.String.Basic

/-! The text of json11. A text is the list of its bytes, each written as the
character with that number; the values are printed and read by the same file,
but a number can be read as one of another kind than it was printed from. -/
namespace Hengda.Json11

/-- What the `double` of the target does: `strtod` rounds, and `%.17g` prints. A number
that is out of range is rounded to an infinity, which stands outside this range as well. -/
structure Doubles where
  nearest : ℚ → ℚ
  print : ℚ → Text

/-- The range of `double`. -/
def limit : Nat := 2 ^ 1024

/-- `std::isfinite` -/
def isFinite (q : ℚ) : Bool :=
  -limit < q && q < limit

section Print

def nullText : Text := ['n', 'u', 'l', 'l']

def trueText : Text := ['t', 'r', 'u', 'e']

def falseText : Text := ['f', 'a', 'l', 's', 'e']

/-- A hexadecimal digit, as `%x` prints it. -/
def hexDigit (n : Nat) : Char :=
  "0123456789abcdef".toList.getD n '0'

/-- `"\\u%04x"` for a control character. -/
def unicodeEscape (n : Nat) : Text :=
  ['\\', 'u', hexDigit (n / 4096 % 16), hexDigit (n / 256 % 16), hexDigit (n / 16 % 16),
    hexDigit (n % 16)]

def dumpChar (ch : Char) : Text :=
  if ch = '\\' then ['\\', '\\']
  else if ch = '"' then ['\\', '"']
  else if ch = '\x08' then ['\\', 'b']
  else if ch = '\x0c' then ['\\', 'f']
  else if ch = '\n' then ['\\', 'n']
  else if ch = '\r' then ['\\', 'r']
  else if ch = '\t' then ['\\', 't']
  else if ch.toNat ≤ 0x1f then unicodeEscape ch.toNat
  else [ch]

/-- The two line separators of Unicode are escaped as well. -/
def dumpChars : Text → Text
  | '\xe2' :: '\x80' :: '\xa8' :: rest => unicodeEscape 0x2028 ++ dumpChars rest
  | '\xe2' :: '\x80' :: '\xa9' :: rest => unicodeEscape 0x2029 ++ dumpChars rest
  | ch :: rest => dumpChar ch ++ dumpChars rest
  | [] => []

def dumpString (value : String) : Text :=
  '"' :: (dumpChars value.toList ++ ['"'])

variable (doubles : Doubles)

mutual

def dump : Json11 → Text
  | .null => nullText
  | .bool b => if b then trueText else falseText
  | .int n => (toString n).toList
  | .double q => if isFinite q then doubles.print q else nullText
  | .string s => dumpString s
  | .array items => '[' :: (dumpItems items ++ [']'])
  | .object members => '\x7b' :: (dumpMembers members ++ ['\x7d'])

def dumpItems : List Json11 → Text
  | [] => []
  | [v] => dump v
  | v :: w :: rest => dump v ++ ([',', ' '] ++ dumpItems (w :: rest))

def dumpMembers : List (String × Json11) → Text
  | [] => []
  | [(key, v)] => dumpString key ++ ([':', ' '] ++ dump v)
  | (key, v) :: m :: rest =>
      dumpString key ++ ([':', ' '] ++ dump v) ++ ([',', ' '] ++ dumpMembers (m :: rest))

end

end Print

section Scan

/-- Why a text is refused. -/
inductive ParseFailure
  | depth
  | endOfInput
  | endInString
  | unescaped (ch : Char)
  | badEscape (esc : Text)
  | invalidEscape (ch : Char)
  | leadingZero
  | invalidNumber (ch : Char)
  | fraction
  | exponent
  | expected (expected got : Text)
  | expectedValue (ch : Char)
  | expectedKey (ch : Char)
  | expectedColon (ch : Char)
  | expectedCommaInObject (ch : Char)
  | expectedCommaInList (ch : Char)
  | trailing (ch : Char)
deriving DecidableEq, Repr

/-- The number of a byte from 128 on is printed without a sign here. -/
def esc (ch : Char) : String :=
  if 0x20 ≤ ch.toNat ∧ ch.toNat ≤ 0x7f then
    "'" ++ String.ofList [ch] ++ "' (" ++ toString ch.toNat ++ ")"
  else "(" ++ toString ch.toNat ++ ")"

def ParseFailure.message : ParseFailure → String
  | .depth => "exceeded maximum nesting depth"
  | .endOfInput => "unexpected end of input"
  | .endInString => "unexpected end of input in string"
  | .unescaped ch => "unescaped " ++ esc ch ++ " in string"
  | .badEscape text => "bad \\u escape: " ++ String.ofList text
  | .invalidEscape ch => "invalid escape character " ++ esc ch
  | .leadingZero => "leading 0s not permitted in numbers"
  | .invalidNumber ch => "invalid " ++ esc ch ++ " in number"
  | .fraction => "at least one digit required in fractional part"
  | .exponent => "at least one digit required in exponent"
  | .expected text got =>
      "parse error: expected " ++ String.ofList text ++ ", got " ++ String.ofList got
  | .expectedValue ch => "expected value, got " ++ esc ch
  | .expectedKey ch => "expected '\"' in object, got " ++ esc ch
  | .expectedColon ch => "expected ':' in object, got " ++ esc ch
  | .expectedCommaInObject ch => "expected ',' in object, got " ++ esc ch
  | .expectedCommaInList ch => "expected ',' in list, got " ++ esc ch
  | .trailing ch => "unexpected trailing " ++ esc ch

/-- A value and the text behind it, unless the parse has failed. The first failure is
the one that is kept. -/
abbrev Parsed (α : Type) := Except ParseFailure (α × Text)

def isSpace (ch : Char) : Bool :=
  ch = ' ' || ch = '\r' || ch = '\n' || ch = '\t'

def isDigit (ch : Char) : Bool :=
  '0' ≤ ch && ch ≤ '9'

def isHexDigit (ch : Char) : Bool :=
  ('a' ≤ ch && ch ≤ 'f') || ('A' ≤ ch && ch ≤ 'F') || isDigit ch

def consumeWhitespace (t : Text) : Text :=
  t.dropWhile isSpace

def getNextToken (t : Text) : Parsed Char :=
  match consumeWhitespace t with
  | [] => .error .endOfInput
  | ch :: rest => .ok (ch, rest)

/-- A byte of a text. -/
def byte (n : Nat) : Char :=
  Char.ofNat (n % 256)

def encodeUtf8 (pt : Nat) : Text :=
  if pt < 0x80 then [byte pt]
  else if pt < 0x800 then [byte (pt / 64 + 0xc0), byte (pt % 64 + 0x80)]
  else if pt < 0x10000 then
    [byte (pt / 4096 + 0xe0), byte (pt / 64 % 64 + 0x80), byte (pt % 64 + 0x80)]
  else
    [byte (pt / 262144 + 0xf0), byte (pt / 4096 % 64 + 0x80), byte (pt / 64 % 64 + 0x80),
      byte (pt % 64 + 0x80)]

def hexValue (ch : Char) : Nat :=
  if isDigit ch then ch.toNat - 48
  else if 'a' ≤ ch ∧ ch ≤ 'f' then ch.toNat - 87
  else ch.toNat - 55

/-- The value that `strtol` finds in four hexadecimal digits. -/
def codepoint (digits : Text) : Nat :=
  digits.foldl (fun value ch => value * 16 + hexValue ch) 0

def isLead (pt : Nat) : Bool :=
  0xd800 ≤ pt && pt ≤ 0xdbff

def isTrail (pt : Nat) : Bool :=
  0xdc00 ≤ pt && pt ≤ 0xdfff

def combine (lead trail : Nat) : Nat :=
  (lead - 0xd800) * 1024 + (trail - 0xdc00) + 0x10000

/-- What an escaped code point, should there be one waiting, adds to a string. -/
def pending : Option Nat → Text
  | none => []
  | some pt => encodeUtf8 pt

/-- The letters behind a backslash that stand for one character. -/
def simpleEscape (ch : Char) : Option Char :=
  if ch = 'b' then some '\x08'
  else if ch = 'f' then some '\x0c'
  else if ch = 'n' then some '\n'
  else if ch = 'r' then some '\r'
  else if ch = 't' then some '\t'
  else if ch = '"' ∨ ch = '\\' ∨ ch = '/' then some ch
  else none

/-- `parse_string` behind the opening quote. `last` is the last escaped code point
while it may still be the first half of a pair. -/
def parseString (out : Text) (last : Option Nat) : Text → Parsed Text
  | [] => .error .endInString
  | '"' :: rest => .ok (out ++ pending last, rest)
  | ['\\'] => .error .endInString
  | '\\' :: 'u' :: a :: b :: c :: d :: rest =>
      if [a, b, c, d].all isHexDigit then
        let pt := codepoint [a, b, c, d]
        match last with
        | some lead =>
            if isLead lead && isTrail pt then
              parseString (out ++ encodeUtf8 (combine lead pt)) none rest
            else parseString (out ++ encodeUtf8 lead) (some pt) rest
        | none => parseString out (some pt) rest
      else .error (.badEscape [a, b, c, d])
  | '\\' :: ch :: rest =>
      match simpleEscape ch with
      | some plain => parseString (out ++ pending last ++ [plain]) none rest
      | none => if ch = 'u' then .error (.badEscape rest) else .error (.invalidEscape ch)
  | ch :: rest =>
      if ch.toNat ≤ 0x1f then .error (.unescaped ch)
      else parseString (out ++ pending last ++ [ch]) none rest

/-- The parts of a number. `mark` is the letter of the exponent with its sign; parts
that a number does not have are empty. -/
structure Numeral where
  negative : Bool
  whole : Text
  fraction : Text
  mark : Text
  exponent : Text
deriving DecidableEq, Repr

def parseWhole : Text → Parsed Text
  | '0' :: rest =>
      if (rest.takeWhile isDigit).isEmpty then .ok (['0'], rest) else .error .leadingZero
  | t =>
      if (t.takeWhile isDigit).isEmpty then .error (.invalidNumber (t.headD '\x00'))
      else .ok (t.takeWhile isDigit, t.dropWhile isDigit)

def parseFraction : Text → Parsed Text
  | '.' :: rest =>
      if (rest.takeWhile isDigit).isEmpty then .error .fraction
      else .ok (rest.takeWhile isDigit, rest.dropWhile isDigit)
  | t => .ok ([], t)

def parseMark : Text → Text × Text
  | 'e' :: '+' :: rest => (['e', '+'], rest)
  | 'e' :: '-' :: rest => (['e', '-'], rest)
  | 'e' :: rest => (['e'], rest)
  | 'E' :: '+' :: rest => (['E', '+'], rest)
  | 'E' :: '-' :: rest => (['E', '-'], rest)
  | 'E' :: rest => (['E'], rest)
  | t => ([], t)

def parseExponent (t : Text) : Parsed (Text × Text) :=
  let (mark, rest) := parseMark t
  if mark.isEmpty then .ok (([], []), t)
  else if (rest.takeWhile isDigit).isEmpty then .error .exponent
  else .ok ((mark, rest.takeWhile isDigit), rest.dropWhile isDigit)

def parseNumeral (t : Text) : Except ParseFailure (Numeral × Text) := do
  let negative := t.head? = some '-'
  let (whole, t) ← parseWhole (if negative then t.tail else t)
  let (fraction, t) ← parseFraction t
  let ((mark, exponent), t) ← parseExponent t
  .ok ({ negative, whole, fraction, mark, exponent }, t)

def digitsValue (digits : Text) : Nat :=
  digits.foldl (fun value ch => value * 10 + (ch.toNat - 48)) 0

namespace Numeral

def sign (n : Numeral) : Text :=
  if n.negative then ['-'] else []

/-- `atoi` -/
def toInt (n : Numeral) : Int :=
  if n.negative then -(digitsValue n.whole : Int) else digitsValue n.whole

/-- The number as it is written. -/
def value (n : Numeral) : ℚ :=
  let exponent : Int :=
    if n.mark.getLast? = some '-' then -(digitsValue n.exponent : Int)
    else digitsValue n.exponent
  let magnitude : ℚ :=
    (digitsValue (n.whole ++ n.fraction) : ℚ) * 10 ^ (exponent - n.fraction.length)
  if n.negative then -magnitude else magnitude

/-- A number without fraction and exponent is read as an `int` if it is written with
at most `digits10` characters, and any other one as a `double`. -/
def read (doubles : Doubles) (n : Numeral) : Json11 :=
  if n.fraction = [] ∧ n.mark = [] ∧ (n.sign ++ n.whole).length ≤ 9 then .int n.toInt
  else .double (doubles.nearest n.value)

end Numeral

end Scan

section Parse

variable (doubles : Doubles)

/-- `expect`, from the character on that was read already. -/
def expect (expected : Text) (res : Json11) (t : Text) : Parsed Json11 :=
  if t.take expected.length = expected then .ok (res, t.drop expected.length)
  else .error (.expected expected (t.take expected.length))

/-- `data[key] = value` for a map, which keeps its keys in order. -/
def insertMember (key : String) (value : Json11) :
    List (String × Json11) → List (String × Json11)
  | [] => [(key, value)]
  | (k, w) :: rest =>
      if key < k then (key, value) :: (k, w) :: rest
      else if key = k then (key, value) :: rest
      else (k, w) :: insertMember key value rest

/-- The loop over the values of a list, from the first character of one of them on. Each
turn takes at least a comma, so that the length of the text is enough turns. -/
def parseItems (item : Text → Parsed Json11) :
    Nat → List Json11 → Text → Except ParseFailure (List Json11 × Text)
  | 0, _, _ => .error .endOfInput
  | turns + 1, data, t => do
      let (value, t) ← item t
      let (ch, t) ← getNextToken t
      if ch = ']' then .ok (data ++ [value], t)
      else if ch ≠ ',' then .error (.expectedCommaInList ch)
      else do
        let (ch, t) ← getNextToken t
        parseItems item turns (data ++ [value]) (ch :: t)

/-- The loop over the members of an object, behind the character `ch`. -/
def parseMembers (item : Text → Parsed Json11) :
    Nat → List (String × Json11) → Char → Text →
      Except ParseFailure (List (String × Json11) × Text)
  | 0, _, _, _ => .error .endOfInput
  | turns + 1, data, ch, t =>
      if ch ≠ '"' then .error (.expectedKey ch)
      else do
        let (key, t) ← parseString [] none t
        let (ch, t) ← getNextToken t
        if ch ≠ ':' then .error (.expectedColon ch)
        else do
          let (value, t) ← item t
          let data := insertMember (String.ofList key) value data
          let (ch, t) ← getNextToken t
          if ch = '\x7d' then .ok (data, t)
          else if ch ≠ ',' then .error (.expectedCommaInObject ch)
          else do
            let (ch, t) ← getNextToken t
            parseMembers item turns data ch t

def parseList (item : Text → Parsed Json11) (t : Text) :
    Except ParseFailure (Json11 × Text) := do
  let (ch, t) ← getNextToken t
  if ch = ']' then .ok (.array [], t)
  else do
    let (data, t) ← parseItems item (t.length + 1) [] (ch :: t)
    .ok (.array data, t)

def parseObject (item : Text → Parsed Json11) (t : Text) :
    Except ParseFailure (Json11 × Text) := do
  let (ch, t) ← getNextToken t
  if ch = '\x7d' then .ok (.object [], t)
  else do
    let (data, t) ← parseMembers item (t.length + 1) [] ch t
    .ok (.object data, t)

/-- `max_depth` -/
def maxDepth : Nat := 200

/-- `parse_json` with the number of levels that are still allowed. -/
def parseJson : Nat → Text → Except ParseFailure (Json11 × Text)
  | 0 => fun _ => .error .depth
  | levels + 1 => fun t => do
      let (ch, t) ← getNextToken t
      if ch = '-' ∨ isDigit ch then do
        let (numeral, t) ← parseNumeral (ch :: t)
        .ok (numeral.read doubles, t)
      else if ch = 't' then expect trueText (.bool true) (ch :: t)
      else if ch = 'f' then expect falseText (.bool false) (ch :: t)
      else if ch = 'n' then expect nullText .null (ch :: t)
      else if ch = '"' then do
        let (out, t) ← parseString [] none t
        .ok (.string (String.ofList out), t)
      else if ch = '\x7b' then parseObject (parseJson levels) t
      else if ch = '[' then parseList (parseJson levels) t
      else .error (.expectedValue ch)

/-- `Json::parse` -/
def document (t : Text) : Except ParseFailure Json11 := do
  let (result, rest) ← parseJson doubles (maxDepth + 1) t
  match consumeWhitespace rest with
  | [] => .ok result
  | ch :: _ => .error (.trailing ch)

def parse (t : Text) : Except Text Json11 :=
  match document doubles t with
  | .ok result => .ok result
  | .error failure => .error failure.message.toList

end Parse

end Hengda.Json11

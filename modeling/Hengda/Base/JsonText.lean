import Hengda.Utility.Json
import Hengda.Library.Bytes
import Mathlib.Algebra.Order.Ring.Unbundled.Rat

/-! The text of the JSON of the RPC library. Keys are written and read as they are,
strings are escaped, and a value that is not behind a bracket or a quote ends where a
comma, a closing bracket or white space begins. -/
namespace Hengda.CoJson

open Bytes

/-- `%.7g`, and `str::to_double`, which has no result for a text that is not a number. -/
structure Doubles where
  print : ℚ → Text
  toDouble : Text → Option ℚ

section Print

/-- The letter behind the backslash for a character that is escaped. -/
def escapeLetter (ch : Char) : Option Char :=
  if ch = '\\' ∨ ch = '"' then some ch
  else if ch = '\n' then some 'n'
  else if ch = '\r' then some 'r'
  else if ch = '\t' then some 't'
  else if ch = '\x08' then some 'b'
  else if ch = '\x0c' then some 'f'
  else none

def escapeChar (ch : Char) : Text :=
  match escapeLetter ch with
  | some letter => ['\\', letter]
  | none => [ch]

/-- A string without such a character is appended with its whole length, any other one up to
the first zero. -/
def strString (value : Text) : Text :=
  let cs := cString value
  if cs.any fun ch => (escapeLetter ch).isSome then
    '"' :: (cs.flatMap escapeChar ++ ['"'])
  else '"' :: (value ++ ['"'])

def strKey (key : String) : Text :=
  '"' :: (key.toList ++ ['"'])

def strBool (b : Bool) : Text :=
  if b then ['t', 'r', 'u', 'e'] else ['f', 'a', 'l', 's', 'e']

def nullText : Text := ['n', 'u', 'l', 'l']

variable (doubles : Doubles)

mutual

/-- `_Json2str` -/
def str : Json → Text
  | .null => nullText
  | .bool b => strBool b
  | .int n => (toString n).toList
  | .double q => doubles.print q
  | .string s => strString s.toList
  | .array items => '[' :: (strItems items ++ [']'])
  | .object members => '\x7b' :: (strMembers members ++ ['\x7d'])

def strItems : List Json → Text
  | [] => []
  | [v] => str v
  | v :: w :: rest => str v ++ (',' :: strItems (w :: rest))

def strMembers : List (String × Json) → Text
  | [] => []
  | [(key, v)] => strKey key ++ (':' :: str v)
  | (key, v) :: m :: rest => strKey key ++ (':' :: str v) ++ (',' :: strMembers (m :: rest))

end

mutual

/-- `_Json2pretty`. A value on its own line is behind `current` spaces, and the bracket that
closes it behind those of the line on which it was opened. -/
def pretty (indent current : Nat) : Json → Text
  | .array items =>
      if items.isEmpty then ['[', ']']
      else '[' :: '\n' :: (prettyItems indent current items ++
        ('\n' :: (List.replicate (current - indent) ' ' ++ [']'])))
  | .object members =>
      if members.isEmpty then ['\x7b', '\x7d']
      else '\x7b' :: '\n' :: (prettyMembers indent current members ++
        ('\n' :: (List.replicate (current - indent) ' ' ++ ['\x7d'])))
  | v => str doubles v

def prettyItems (indent current : Nat) : List Json → Text
  | [] => []
  | [v] => List.replicate current ' ' ++ pretty indent (current + indent) v
  | v :: w :: rest =>
      List.replicate current ' ' ++ pretty indent (current + indent) v ++
        (',' :: '\n' :: prettyItems indent current (w :: rest))

def prettyMembers (indent current : Nat) : List (String × Json) → Text
  | [] => []
  | [(key, v)] =>
      List.replicate current ' ' ++ strKey key ++
        (':' :: ' ' :: pretty indent (current + indent) v)
  | (key, v) :: m :: rest =>
      List.replicate current ' ' ++ strKey key ++
        (':' :: ' ' :: pretty indent (current + indent) v) ++
        (',' :: '\n' :: prettyMembers indent current (m :: rest))

end

end Print

section Parse

def isWhiteChar (ch : Char) : Bool :=
  ch = ' ' || ch = '\t' || ch = '\r' || ch = '\n'

def skipWhite (t : Text) : Text :=
  t.dropWhile isWhiteChar

/-- The value of a hexadecimal digit. -/
def hexValue (ch : Char) : Option Nat :=
  if '0' ≤ ch ∧ ch ≤ '9' then some (ch.toNat - 48)
  else if 'a' ≤ ch ∧ ch ≤ 'f' then some (ch.toNat - 87)
  else if 'A' ≤ ch ∧ ch ≤ 'F' then some (ch.toNat - 55)
  else none

def readHex (a b c d : Char) : Option Nat := do
  let a ← hexValue a
  let b ← hexValue b
  let c ← hexValue c
  let d ← hexValue d
  some (((a * 16 + b) * 16 + c) * 16 + d)

def encodeUtf8 (v : Nat) : Text :=
  if v ≤ 0x7f then [byte v]
  else if v ≤ 0x7ff then [byte (0xc0 + v / 64 % 32), byte (0x80 + v % 64)]
  else if v ≤ 0xffff then
    [byte (0xe0 + v / 4096 % 16), byte (0x80 + v / 64 % 64), byte (0x80 + v % 64)]
  else
    [byte (0xf0 + v / 262144 % 8), byte (0x80 + v / 4096 % 64), byte (0x80 + v / 64 % 64),
      byte (0x80 + v % 64)]

/-- `read_unicode`. The second half of a pair can stand on its own, the first one cannot. -/
def readUnicode : Text → Option (Text × Text)
  | a :: b :: c :: d :: t => do
      let v ← readHex a b c d
      if 0xd800 ≤ v ∧ v ≤ 0xdbff then
        match t with
        | '\\' :: 'u' :: e :: f :: g :: h :: t => do
            let u ← readHex e f g h
            if 0xdc00 ≤ u ∧ u ≤ 0xdfff then
              some (encodeUtf8 (0x10000 + v % 1024 * 1024 + u % 1024), t)
            else none
        | _ => none
      else some (encodeUtf8 v, t)
  | _ => none

/-- The character for a letter behind a backslash. -/
def unescape (ch : Char) : Option Char :=
  if ch = '"' ∨ ch = '\\' ∨ ch = '/' then some ch
  else if ch = 'n' then some '\n'
  else if ch = 'r' then some '\r'
  else if ch = 't' then some '\t'
  else if ch = 'b' then some '\x08'
  else if ch = 'f' then some '\x0c'
  else none

/-- `read_string` behind the opening quote. `strpbrk` does not look behind a zero. Each turn
reads one character of the string. -/
def readString : Nat → Text → Text → Option (Text × Text)
  | 0, _, _ => none
  | turns + 1, fs, t =>
      match t with
      | [] => none
      | '"' :: rest => some (fs, rest)
      | '\x00' :: _ => none
      | '\\' :: 'u' :: rest => do
          let (bytes, rest) ← readUnicode rest
          readString turns (fs ++ bytes) rest
      | ['\\'] => none
      | '\\' :: ch :: rest => do
          let plain ← unescape ch
          readString turns (fs ++ [plain]) rest
      | ch :: rest => readString turns (fs ++ [ch]) rest

/-- `read_key` behind the opening quote. -/
def readKey (t : Text) : Option (Text × Text) :=
  match t.dropWhile fun ch => ch ≠ '"' with
  | [] => none
  | _ :: rest => some (t.takeWhile fun ch => ch ≠ '"', rest)

/-- `fastatoi`, which works with 64 bits. -/
def fastatoi (s : Text) : Option Int :=
  let digits := if s.head? = some '-' then s.tail else s
  if digits.all fun ch => '0' ≤ ch && ch ≤ '9' then
    let v := digits.foldl (fun v ch => v * 10 + ((ch.toNat : Int) - 48)) (0 : Int)
    some (Int.bmod (if s.head? = some '-' then -v else v) 18446744073709551616)
  else none

def isDelimiter (ch : Char) : Bool :=
  ch = ',' || ch = '\x7d' || ch = ']' || isWhiteChar ch

variable (doubles : Doubles)

/-- The value of a token. -/
def tokenValue (token : Text) : Option Json :=
  if token.head? = some 'f' then
    if token = strBool false then some (.bool false) else none
  else if token.head? = some 't' then
    if token = strBool true then some (.bool true) else none
  else if token.head? = some 'n' then
    if token = nullText then some .null else none
  else if token.tail.all fun ch => ch ≠ '.' then (fastatoi token).map .int
  else (doubles.toDouble token).map .double

/-- `read_token`. The first character belongs to the token whatever it is, and a token at the
end of the text is not read. -/
def readToken : Text → Option (Json × Text)
  | [] => none
  | ch :: t =>
      let body := t.takeWhile fun ch => !isDelimiter ch
      let rest := t.dropWhile fun ch => !isDelimiter ch
      if body.count '.' > 1 then none
      else if rest.isEmpty then none
      else (tokenValue doubles (ch :: body)).map fun v => (v, rest)

/-- `parse_array` behind the bracket. Each turn reads an item, or ends the array. -/
def parseArray (item : Text → Option (Json × Text)) :
    Nat → List Json → Text → Option (Json × Text)
  | 0, _, _ => none
  | turns + 1, res, t =>
      match skipWhite t with
      | [] => none
      | ']' :: rest => some (.array res, rest)
      | ch :: rest => do
          let (v, t) ← item (ch :: rest)
          match skipWhite t with
          | ']' :: rest => some (.array (res ++ [v]), rest)
          | ',' :: rest => parseArray item turns (res ++ [v]) rest
          | _ => none

/-- `parse_json` behind the brace. -/
def parseJson (item : Text → Option (Json × Text)) :
    Nat → List (String × Json) → Text → Option (Json × Text)
  | 0, _, _ => none
  | turns + 1, res, t =>
      match skipWhite t with
      | '\x7d' :: rest => some (.object res, rest)
      | '"' :: rest => do
          let (key, t) ← readKey rest
          match skipWhite t with
          | ':' :: rest => do
              let (v, t) ← item (skipWhite rest)
              let res := res ++ [(String.ofList (cString key), v)]
              match skipWhite t with
              | '\x7d' :: rest => some (.object res, rest)
              | ',' :: rest => parseJson item turns res rest
              | _ => none
          | _ => none
      | _ => none

/-- The value that begins with the first character, by what that character is. There are no
more levels than characters. -/
def readValue : Nat → Text → Option (Json × Text)
  | 0, _ => none
  | levels + 1, t =>
      match t with
      | '"' :: rest => do
          let (s, rest) ← readString (rest.length + 1) [] rest
          some (.string (String.ofList s), rest)
      | '\x7b' :: rest => parseJson (readValue levels) (rest.length + 1) [] rest
      | '[' :: rest => parseArray (readValue levels) (rest.length + 1) [] rest
      | t => readToken doubles t

/-- `parse_from` -/
def parseFrom (s : Text) : Option Json :=
  match skipWhite s with
  | '\x7b' :: rest => do
      let (v, rest) ← readValue doubles (s.length + 1) ('\x7b' :: rest)
      if rest.all isWhiteChar then some v else none
  | '[' :: rest => do
      let (v, rest) ← readValue doubles (s.length + 1) ('[' :: rest)
      if rest.all isWhiteChar then some v else none
  | _ => none

/-- `json::parse`, which has a null value for a text that is not accepted. -/
def parse (s : Text) : Json :=
  (parseFrom doubles s).getD .null

end Parse

end Hengda.CoJson

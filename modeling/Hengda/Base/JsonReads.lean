import Hengda.Base.JsonText
import Hengda.Library.Decimal
import Hengda.Library.Scanning

/-! How the parser reads a text that is put together from smaller ones: what the parts of a
list or an object are read as decides what the whole is read as. -/
namespace Hengda.CoJson

open Scanning

section Lists

variable (doubles : Doubles)

def White (t : Text) : Prop :=
  Run isWhiteChar t

/-- What may stand behind a value. -/
def EndsValue (t : Text) : Prop :=
  Stops (fun ch => !isDelimiter ch) t

/-- A text that is read as the value `v`, or is refused, whatever follows it. At the end of a
document only a text that closes itself is read. -/
structure Reads (closed : Bool) (t : Text) (v : Option Json) : Prop where
  begins : ∃ ch u, t = ch :: u ∧ isWhiteChar ch = false ∧ ch ≠ ']'
  reads : ∀ levels rest, t.length ≤ levels → EndsValue rest → (rest = [] → closed = true) →
    readValue doubles levels (t ++ rest) = v.map fun v => (v, rest)

/-- The items of an array, with the bracket that closes it. -/
def ReadsItems (t : Text) (vs : Option (List Json)) : Prop :=
  ∀ levels turns res rest, t.length ≤ levels → t.length ≤ turns →
    parseArray (readValue doubles levels) turns res (t ++ rest) =
      vs.map fun vs => (.array (res ++ vs), rest)

/-- The members of an object, with the brace that closes it. -/
def ReadsMembers (t : Text) (ms : Option (List (String × Json))) : Prop :=
  ∀ levels turns res rest, t.length ≤ levels → t.length ≤ turns →
    parseJson (readValue doubles levels) turns res (t ++ rest) =
      ms.map fun ms => (.object (res ++ ms), rest)

variable {doubles}

theorem skipWhite_eq {w : Text} (hWhite : White w) {ch : Char} (hToken : isWhiteChar ch = false)
    (rest : Text) : skipWhite (w ++ ch :: rest) = ch :: rest :=
  dropWhile_run hWhite (stops_cons.mpr hToken)

theorem endsValue_white {w : Text} (hWhite : White w) : EndsValue w := by
  intro ch hHead
  have hSpace : isWhiteChar ch = true := hWhite ch (List.mem_of_mem_head? hHead)
  simp [isDelimiter, hSpace]

theorem endsValue_append {w : Text} (hWhite : White w) {ch : Char} (hEnd : isDelimiter ch = true)
    (rest : Text) : EndsValue (w ++ ch :: rest) :=
  stops_append (endsValue_white hWhite) (stops_cons.mpr (by rw [hEnd]; rfl))

/-- An item with white space around it, and the character behind it. -/
theorem Reads.item {closed : Bool} {t : Text} {v : Option Json} (reads : Reads doubles closed t v)
    {w : Text} (hWhite : White w) {ch : Char} (hEnd : isDelimiter ch = true) {levels : Nat}
    (hLevels : t.length ≤ levels) (rest : Text) :
    readValue doubles levels (t ++ (w ++ ch :: rest)) =
      v.map fun v => (v, w ++ ch :: rest) :=
  reads.reads levels _ hLevels (endsValue_append hWhite hEnd rest) (by simp)

section Turns

variable {item : Text → Option (Json × Text)} {before after : Text} {ch : Char} {u : Text}

/-- A turn of `parse_array` that reads the last item, or fails to. -/
theorem parseArray_last (hBefore : White before) (hToken : isWhiteChar ch = false)
    (hBracket : ch ≠ ']') (hAfter : White after) {v : Option Json} {rest : Text}
    (hItem : item (ch :: u) = v.map fun v => (v, after ++ ']' :: rest)) (turns : Nat)
    (res : List Json) :
    parseArray item (turns + 1) res (before ++ ch :: u) =
      v.map fun v => (.array (res ++ [v]), rest) := by
  have hEnd : skipWhite (after ++ ']' :: rest) = ']' :: rest := skipWhite_eq hAfter rfl rest
  rw [parseArray, skipWhite_eq hBefore hToken]
  split
  · rename_i hNil
    cases hNil
  · rename_i hClose
    exact absurd (List.head_eq_of_cons_eq hClose) hBracket
  · rename_i hText
    cases hText
    rw [hItem]
    cases v with
    | none => rfl
    | some v =>
        simp only [Option.map_some, Option.bind_eq_bind, Option.bind_some, hEnd]

theorem parseArray_more (hBefore : White before) (hToken : isWhiteChar ch = false)
    (hBracket : ch ≠ ']') (hAfter : White after) {v : Option Json} {more : Text}
    (hItem : item (ch :: u) = v.map fun v => (v, after ++ ',' :: more)) (turns : Nat)
    (res : List Json) :
    parseArray item (turns + 1) res (before ++ ch :: u) =
      v.bind fun v => parseArray item turns (res ++ [v]) more := by
  have hEnd : skipWhite (after ++ ',' :: more) = ',' :: more := skipWhite_eq hAfter rfl more
  rw [parseArray, skipWhite_eq hBefore hToken]
  split
  · rename_i hNil
    cases hNil
  · rename_i hClose
    exact absurd (List.head_eq_of_cons_eq hClose) hBracket
  · rename_i hText
    cases hText
    rw [hItem]
    cases v with
    | none => rfl
    | some v =>
        simp only [Option.map_some, Option.bind_eq_bind, Option.bind_some, hEnd]

theorem readKey_eq {key : Text} (hKey : ∀ c ∈ key, c ≠ '"') (rest : Text) :
    readKey (key ++ '"' :: rest) = some (key, rest) := by
  have hRun : Run (fun c => decide (c ≠ '"')) key := fun c hMem => decide_eq_true (hKey c hMem)
  have hStops : Stops (fun c => decide (c ≠ '"')) ('"' :: rest) := stops_cons.mpr rfl
  rw [readKey, dropWhile_run hRun hStops, takeWhile_run hRun hStops]

/-- A key, which has no zero as a C string and no quote as a part of a text. -/
def IsKey (key : Text) : Prop :=
  ∀ c ∈ key, c ≠ '"' ∧ c ≠ '\x00'

theorem IsKey.cString {key : Text} (isKey : IsKey key) : cString key = key :=
  takeWhile_all fun c hMem => decide_eq_true (isKey c hMem).2

theorem skipWhite_colon (t : Text) : skipWhite (':' :: t) = ':' :: t :=
  skipWhite_eq (w := []) run_nil rfl t

/-- A turn of `parse_json` that reads the last member, or fails to. -/
theorem parseJson_last {between : Text} {key : Text} (hBefore : White before) (isKey : IsKey key)
    (hBetween : White between) (hToken : isWhiteChar ch = false) (hAfter : White after)
    {v : Option Json} {rest : Text}
    (hItem : item (ch :: u) = v.map fun v => (v, after ++ '\x7d' :: rest)) (turns : Nat)
    (res : List (String × Json)) :
    parseJson item (turns + 1) res
        (before ++ '"' :: (key ++ '"' :: ':' :: (between ++ ch :: u))) =
      v.map fun v => (.object (res ++ [(String.ofList key, v)]), rest) := by
  have hEnd : skipWhite (after ++ '\x7d' :: rest) = '\x7d' :: rest := skipWhite_eq hAfter rfl rest
  rw [parseJson, skipWhite_eq hBefore rfl]
  simp only [readKey_eq fun c hMem => (isKey c hMem).1, Option.bind_eq_bind, Option.bind_some,
    skipWhite_colon, skipWhite_eq hBetween hToken, hItem, isKey.cString]
  cases v with
  | none => rfl
  | some v => simp only [Option.map_some, Option.bind_some, hEnd]

theorem parseJson_more {between : Text} {key : Text} (hBefore : White before) (isKey : IsKey key)
    (hBetween : White between) (hToken : isWhiteChar ch = false) (hAfter : White after)
    {v : Option Json} {more : Text}
    (hItem : item (ch :: u) = v.map fun v => (v, after ++ ',' :: more)) (turns : Nat)
    (res : List (String × Json)) :
    parseJson item (turns + 1) res
        (before ++ '"' :: (key ++ '"' :: ':' :: (between ++ ch :: u))) =
      v.bind fun v => parseJson item turns (res ++ [(String.ofList key, v)]) more := by
  have hEnd : skipWhite (after ++ ',' :: more) = ',' :: more := skipWhite_eq hAfter rfl more
  rw [parseJson, skipWhite_eq hBefore rfl]
  simp only [readKey_eq fun c hMem => (isKey c hMem).1, Option.bind_eq_bind, Option.bind_some,
    skipWhite_colon, skipWhite_eq hBetween hToken, hItem, isKey.cString]
  cases v with
  | none => rfl
  | some v => simp only [Option.map_some, Option.bind_some, hEnd]

end Turns

theorem readsItems_nil : ReadsItems doubles [']'] (some []) := by
  intro levels turns res rest hLevels hTurns
  obtain ⟨turns, rfl⟩ := Nat.exists_eq_add_of_le' hTurns
  have hEnd : skipWhite (']' :: rest) = ']' :: rest := skipWhite_eq (w := []) run_nil rfl rest
  rw [List.length_singleton, List.singleton_append, parseArray]
  simp only [hEnd, List.append_nil, Option.map_some]

theorem Reads.last_item {closed : Bool} {t : Text} {v : Option Json}
    (reads : Reads doubles closed t v) {before after : Text} (hBefore : White before)
    (hAfter : White after) :
    ReadsItems doubles (before ++ t ++ (after ++ [']'])) (v.map fun v => [v]) := by
  intro levels turns res rest hLevels hTurns
  obtain ⟨ch, u, hText, hToken, hBracket⟩ := reads.begins
  simp only [List.length_append, List.length_singleton] at hLevels hTurns
  obtain ⟨turns, rfl⟩ := Nat.exists_eq_add_of_le' (show 1 ≤ turns by omega)
  have hItem := reads.item hAfter (show isDelimiter ']' = true from rfl)
    (show t.length ≤ levels by omega) rest
  rw [hText, List.cons_append] at hItem
  have hTurn := parseArray_last hBefore hToken hBracket hAfter hItem turns res
  rw [hText]
  simp only [List.append_assoc, List.cons_append, List.nil_append] at hTurn ⊢
  rw [hTurn, Option.map_map]
  rfl

theorem Reads.more_items {closed : Bool} {t more : Text} {v : Option Json}
    {vs : Option (List Json)} (reads : Reads doubles closed t v)
    (readsMore : ReadsItems doubles more vs) {before after : Text} (hBefore : White before)
    (hAfter : White after) :
    ReadsItems doubles (before ++ t ++ (after ++ ',' :: more))
      (v.bind fun v => vs.map fun vs => v :: vs) := by
  intro levels turns res rest hLevels hTurns
  obtain ⟨ch, u, hText, hToken, hBracket⟩ := reads.begins
  simp only [List.length_append, List.length_cons] at hLevels hTurns
  obtain ⟨turns, rfl⟩ := Nat.exists_eq_add_of_le' (show 1 ≤ turns by omega)
  have hItem := reads.item hAfter (show isDelimiter ',' = true from rfl)
    (show t.length ≤ levels by omega) (more ++ rest)
  rw [hText, List.cons_append] at hItem
  have hTurn := parseArray_more hBefore hToken hBracket hAfter hItem turns res
  rw [hText]
  simp only [List.append_assoc, List.cons_append] at hTurn ⊢
  rw [hTurn]
  cases v with
  | none => rfl
  | some v =>
      rw [Option.bind_some, Option.bind_some, readsMore levels turns _ rest (by omega) (by omega),
        Option.map_map]
      simp only [Function.comp_def, List.append_assoc, List.singleton_append]

theorem Reads.array {t : Text} {vs : Option (List Json)} (readsItems : ReadsItems doubles t vs) :
    Reads doubles true ('[' :: t) (vs.map .array) where
  begins := ⟨'[', t, rfl, rfl, by decide⟩
  reads := by
    intro levels rest hLevels _ _
    obtain ⟨levels, rfl⟩ := Nat.exists_eq_add_of_le' (Nat.le_of_add_left_le hLevels)
    have hItems := readsItems levels ((t ++ rest).length + 1) [] rest
      (Nat.le_of_succ_le_succ hLevels) (by rw [List.length_append]; omega)
    rw [List.cons_append, readValue, hItems, Option.map_map]
    rfl

theorem readsMembers_nil : ReadsMembers doubles ['\x7d'] (some []) := by
  intro levels turns res rest hLevels hTurns
  obtain ⟨turns, rfl⟩ := Nat.exists_eq_add_of_le' hTurns
  have hEnd : skipWhite ('\x7d' :: rest) = '\x7d' :: rest :=
    skipWhite_eq (w := []) run_nil rfl rest
  rw [List.length_singleton, List.singleton_append, parseJson]
  simp only [hEnd, List.append_nil, Option.map_some]

theorem Reads.last_member {closed : Bool} {t key : Text} {v : Option Json}
    (reads : Reads doubles closed t v) (isKey : IsKey key) {before between after : Text}
    (hBefore : White before) (hBetween : White between) (hAfter : White after) :
    ReadsMembers doubles
      (before ++ '"' :: (key ++ '"' :: ':' :: (between ++ t)) ++ (after ++ ['\x7d']))
      (v.map fun v => [(String.ofList key, v)]) := by
  intro levels turns res rest hLevels hTurns
  obtain ⟨ch, u, hText, hToken, hBracket⟩ := reads.begins
  simp only [List.length_append, List.length_cons, List.length_nil] at hLevels hTurns
  obtain ⟨turns, rfl⟩ := Nat.exists_eq_add_of_le' (show 1 ≤ turns by omega)
  have hItem := reads.item hAfter (show isDelimiter '\x7d' = true from rfl)
    (show t.length ≤ levels by omega) rest
  rw [hText, List.cons_append] at hItem
  have hTurn := parseJson_last hBefore isKey hBetween hToken hAfter hItem turns res
  rw [hText]
  simp only [List.append_assoc, List.cons_append, List.nil_append] at hTurn ⊢
  rw [hTurn, Option.map_map]
  rfl

theorem Reads.more_members {closed : Bool} {t key more : Text} {v : Option Json}
    {ms : Option (List (String × Json))} (reads : Reads doubles closed t v) (isKey : IsKey key)
    (readsMore : ReadsMembers doubles more ms) {before between after : Text}
    (hBefore : White before) (hBetween : White between) (hAfter : White after) :
    ReadsMembers doubles
      (before ++ '"' :: (key ++ '"' :: ':' :: (between ++ t)) ++ (after ++ ',' :: more))
      (v.bind fun v => ms.map fun ms => (String.ofList key, v) :: ms) := by
  intro levels turns res rest hLevels hTurns
  obtain ⟨ch, u, hText, hToken, hBracket⟩ := reads.begins
  simp only [List.length_append, List.length_cons] at hLevels hTurns
  obtain ⟨turns, rfl⟩ := Nat.exists_eq_add_of_le' (show 1 ≤ turns by omega)
  have hItem := reads.item hAfter (show isDelimiter ',' = true from rfl)
    (show t.length ≤ levels by omega) (more ++ rest)
  rw [hText, List.cons_append] at hItem
  have hTurn := parseJson_more hBefore isKey hBetween hToken hAfter hItem turns res
  rw [hText]
  simp only [List.append_assoc, List.cons_append] at hTurn ⊢
  rw [hTurn]
  cases v with
  | none => rfl
  | some v =>
      rw [Option.bind_some, Option.bind_some, readsMore levels turns _ rest (by omega) (by omega),
        Option.map_map]
      simp only [Function.comp_def, List.append_assoc, List.singleton_append]

theorem Reads.object {t : Text} {ms : Option (List (String × Json))}
    (readsMembers : ReadsMembers doubles t ms) :
    Reads doubles true ('\x7b' :: t) (ms.map .object) where
  begins := ⟨'\x7b', t, rfl, rfl, by decide⟩
  reads := by
    intro levels rest hLevels _ _
    obtain ⟨levels, rfl⟩ := Nat.exists_eq_add_of_le' (Nat.le_of_add_left_le hLevels)
    have hMembers := readsMembers levels ((t ++ rest).length + 1) [] rest
      (Nat.le_of_succ_le_succ hLevels) (by rw [List.length_append]; omega)
    rw [List.cons_append, readValue, hMembers, Option.map_map]
    rfl

end Lists

section Strings

variable {doubles : Doubles}

theorem unescape_escapeLetter {ch letter : Char} (hLetter : escapeLetter ch = some letter) :
    unescape letter = some ch ∧ letter ≠ 'u' := by
  rw [escapeLetter] at hLetter
  split_ifs at hLetter with hSame hLine hReturn hTab hBack hFeed
  · cases hLetter
    rcases hSame with rfl | rfl <;> decide
  · cases hLetter
    rw [hLine]
    decide
  · cases hLetter
    rw [hReturn]
    decide
  · cases hLetter
    rw [hTab]
    decide
  · cases hLetter
    rw [hBack]
    decide
  · cases hLetter
    rw [hFeed]
    decide

theorem readString_escape {letter ch : Char} (hLetter : unescape letter = some ch)
    (hUnicode : letter ≠ 'u') (turns : Nat) (fs rest : Text) :
    readString (turns + 1) fs ('\\' :: letter :: rest) = readString turns (fs ++ [ch]) rest := by
  rw [readString, hLetter]
  · rfl
  · exact hUnicode

theorem readString_plain {ch : Char} (hPlain : ch ≠ '"' ∧ ch ≠ '\x00' ∧ ch ≠ '\\') (turns : Nat)
    (fs rest : Text) :
    readString (turns + 1) fs (ch :: rest) = readString turns (fs ++ [ch]) rest := by
  obtain ⟨hQuote, hZero, hSlash⟩ := hPlain
  rw [readString]
  · exact hQuote
  · exact hZero
  · exact fun _ hEscape => absurd hEscape hSlash
  · exact fun hEscape => absurd hEscape hSlash
  · exact fun _ _ hEscape => absurd hEscape hSlash

/-- Escaped characters are read back one by one. -/
theorem readString_escaped {cs : Text} (hZero : ∀ ch ∈ cs, ch ≠ '\x00') {turns : Nat}
    (hTurns : cs.length < turns) (fs rest : Text) :
    readString turns fs (cs.flatMap escapeChar ++ '"' :: rest) = some (fs ++ cs, rest) := by
  induction cs generalizing turns fs with
  | nil =>
      obtain ⟨turns, rfl⟩ := Nat.exists_eq_add_of_le' hTurns
      rw [List.flatMap_nil, List.nil_append, List.append_nil]
      rfl
  | cons ch cs ih =>
      obtain ⟨turns, rfl⟩ := Nat.exists_eq_add_of_le' (Nat.zero_lt_of_lt hTurns)
      rw [List.length_cons] at hTurns
      have hRest := ih (fun c hMem => hZero c (List.mem_cons_of_mem ch hMem))
        (Nat.lt_of_succ_lt_succ hTurns) (fs ++ [ch])
      rw [List.append_assoc, List.singleton_append] at hRest
      rw [List.flatMap_cons, escapeChar, List.append_assoc]
      cases hLetter : escapeLetter ch with
      | some letter =>
          obtain ⟨hPlain, hUnicode⟩ := unescape_escapeLetter hLetter
          exact (readString_escape hPlain hUnicode turns fs _).trans hRest
      | none =>
          have hPlain : ch ≠ '"' ∧ ch ≠ '\x00' ∧ ch ≠ '\\' := by
            refine ⟨?_, hZero ch (List.mem_cons_self ..), ?_⟩
            · rintro rfl
              exact absurd hLetter (by decide)
            · rintro rfl
              exact absurd hLetter (by decide)
          exact (readString_plain hPlain turns fs _).trans hRest

theorem length_escaped (cs : Text) : cs.length ≤ (cs.flatMap escapeChar).length := by
  induction cs with
  | nil => exact Nat.zero_le _
  | cons ch cs ih =>
      have hOne : 1 ≤ (escapeChar ch).length := by
        rw [escapeChar]
        split <;> simp
      rw [List.flatMap_cons, List.length_append, List.length_cons]
      omega

/-- Without a zero in the string it makes no difference whether it was looked through. -/
theorem strString_eq {value : Text} (hZero : ∀ ch ∈ value, ch ≠ '\x00') :
    strString value = '"' :: (value.flatMap escapeChar ++ ['"']) := by
  have hWhole : cString value = value :=
    takeWhile_all fun ch hMem => decide_eq_true (hZero ch hMem)
  rw [strString, hWhole]
  split_ifs with hSpecial
  · rfl
  · have hSame : value.flatMap escapeChar = value := by
      have hPlain : ∀ ch ∈ value, escapeChar ch = [ch] := by
        intro ch hMem
        cases hLetter : escapeLetter ch with
        | none => rw [escapeChar, hLetter]
        | some letter =>
            exact absurd (List.any_eq_true.mpr ⟨ch, hMem, by rw [hLetter]; rfl⟩) hSpecial
      calc value.flatMap escapeChar = value.flatMap (fun ch => [ch]) := List.flatMap_congr hPlain
        _ = value := List.flatMap_singleton' value
    rw [hSame]

theorem Reads.string {value : String} (hZero : ∀ ch ∈ value.toList, ch ≠ '\x00') :
    Reads doubles true (strString value.toList) (some (.string value)) where
  begins := ⟨'"', _, strString_eq hZero, rfl, by decide⟩
  reads := by
    intro levels rest hLevels _ _
    rw [strString_eq hZero] at hLevels ⊢
    obtain ⟨levels, rfl⟩ := Nat.exists_eq_add_of_le' (Nat.le_of_add_left_le hLevels)
    have hTurns : value.toList.length <
        (value.toList.flatMap escapeChar ++ '"' :: rest).length + 1 := by
      have hLonger := length_escaped value.toList
      rw [List.length_append]
      omega
    rw [List.cons_append, readValue, List.append_assoc, List.singleton_append,
      readString_escaped hZero hTurns [] rest]
    simp only [Option.bind_eq_bind, Option.bind_some, List.nil_append, String.ofList_toList,
      Option.map_some]

end Strings

section Tokens

variable {doubles : Doubles}

/-- A character that a number is written with. -/
def isNumberChar (ch : Char) : Bool :=
  ch.isDigit || ch = '.' || ch = 'e' || ch = '+' || ch = '-'

/-- What `%.7g` prints for a finite number: a sign or a digit, and then digits with at most
one point and one exponent. -/
structure Doubles.Plain (doubles : Doubles) : Prop where
  head : ∀ q, ∃ ch body, doubles.print q = ch :: body ∧ (ch = '-' ∨ ch.isDigit = true) ∧
    Run isNumberChar body ∧ body.count '.' ≤ 1

/-- A first character that does not decide what kind of value it is. -/
def BeginsToken (ch : Char) : Prop :=
  isWhiteChar ch = false ∧ ch ≠ ']' ∧ ch ≠ '"' ∧ ch ≠ '\x7b' ∧ ch ≠ '['

theorem Reads.token {ch : Char} {body : Text} (hBegins : BeginsToken ch)
    (hBody : Run (fun c => !isDelimiter c) body) (hPoints : body.count '.' ≤ 1) :
    Reads doubles false (ch :: body) (tokenValue doubles (ch :: body)) where
  begins := ⟨ch, body, rfl, hBegins.1, hBegins.2.1⟩
  reads := by
    obtain ⟨hWhite, hClose, hQuote, hBrace, hBracket⟩ := hBegins
    intro levels rest hLevels hEnds hRest
    obtain ⟨levels, rfl⟩ := Nat.exists_eq_add_of_le' (Nat.le_of_add_left_le hLevels)
    have hFull : rest ≠ [] := fun hNil => absurd (hRest hNil) (by decide)
    have hNotEmpty : ¬rest.isEmpty = true := by
      rwa [List.isEmpty_iff]
    have hToken : readToken doubles (ch :: (body ++ rest)) =
        (tokenValue doubles (ch :: body)).map fun v => (v, rest) := by
      rw [readToken]
      rw [takeWhile_run hBody hEnds, dropWhile_run hBody hEnds,
        if_neg (Nat.not_lt.mpr hPoints), if_neg hNotEmpty]
    rw [List.cons_append, readValue]
    · exact hToken
    · exact fun _ hEq => hQuote (List.head_eq_of_cons_eq hEq)
    · exact fun _ hEq => hBrace (List.head_eq_of_cons_eq hEq)
    · exact fun _ hEq => hBracket (List.head_eq_of_cons_eq hEq)

theorem digit_bounds {ch : Char} (hDigit : ch.isDigit = true) : 48 ≤ ch.toNat ∧ ch.toNat ≤ 57 := by
  simp only [Char.isDigit, Bool.and_eq_true, decide_eq_true_eq] at hDigit
  exact hDigit

/-- The loop of `fastatoi` over digits. -/
theorem foldl_fastatoi {digits : Text} (hDigits : ∀ ch ∈ digits, ch.isDigit = true) (v : Nat) :
    digits.foldl (fun v ch => v * 10 + ((ch.toNat : Int) - 48)) (v : Int) =
      (digits.foldl (fun v ch => v * 10 + (ch.toNat - 48)) v : Nat) := by
  induction digits generalizing v with
  | nil => rfl
  | cons ch digits ih =>
      have hLow := (digit_bounds (hDigits ch (List.mem_cons_self ..))).1
      have hStep : (v : Int) * 10 + ((ch.toNat : Int) - 48) =
          ((v * 10 + (ch.toNat - 48) : Nat) : Int) := by omega
      rw [List.foldl_cons, List.foldl_cons, hStep]
      exact ih (fun c hMem => hDigits c (List.mem_cons_of_mem ch hMem)) _

theorem fastatoi_eq {digits : Text} (hDigits : ∀ ch ∈ digits, ch.isDigit = true) (negative : Bool)
    {m : Nat} (hValue : digits.foldl (fun v ch => v * 10 + (ch.toNat - 48)) 0 = m) :
    fastatoi ((if negative then ['-'] else []) ++ digits) =
      some (Int.bmod (if negative then -(m : Int) else m) 18446744073709551616) := by
  have hAll : digits.all (fun ch => '0' ≤ ch && ch ≤ '9') = true := by
    rw [List.all_eq_true]
    intro ch hMem
    have hDigit := hDigits ch hMem
    simp only [Char.isDigit, Bool.and_eq_true, decide_eq_true_eq] at hDigit ⊢
    exact hDigit
  have hSum := foldl_fastatoi hDigits 0
  rw [hValue, Nat.cast_zero] at hSum
  cases negative with
  | true =>
      rw [if_pos rfl, if_pos rfl, List.singleton_append, fastatoi]
      simp only [List.head?_cons, if_true, List.tail_cons, hAll, hSum]
  | false =>
      have hHead : digits.head? ≠ some '-' := by
        intro hMinus
        have hDigit := hDigits '-' (List.mem_of_mem_head? hMinus)
        exact absurd hDigit (by decide)
      rw [if_neg Bool.false_ne_true, if_neg Bool.false_ne_true, List.nil_append, fastatoi]
      simp only [hHead, if_false, hAll, if_true, hSum]

/-- A text that begins like a number is not one of the words. -/
theorem tokenValue_number {token : Text} {ch : Char} (hHead : token.head? = some ch)
    (hSign : ch = '-' ∨ ch.isDigit = true) :
    tokenValue doubles token =
      if token.tail.all fun c => c ≠ '.' then (fastatoi token).map .int
      else (doubles.toDouble token).map .double := by
  have hLetter : ∀ letter, ('f' = letter ∨ 't' = letter ∨ 'n' = letter) →
      token.head? ≠ some letter := by
    intro letter hLetter hSame
    rw [hHead] at hSame
    cases hSame
    rcases hSign with rfl | hDigit
    · exact absurd hLetter (by decide)
    · rcases hLetter with rfl | rfl | rfl
      · exact absurd hDigit (by decide)
      · exact absurd hDigit (by decide)
      · exact absurd hDigit (by decide)
  rw [tokenValue, if_neg (hLetter 'f' (Or.inl rfl)), if_neg (hLetter 't' (Or.inr (Or.inl rfl))),
    if_neg (hLetter 'n' (Or.inr (Or.inr rfl)))]

theorem tokenValue_whole {token : Text} {ch : Char} (hHead : token.head? = some ch)
    (hSign : ch = '-' ∨ ch.isDigit = true) (hPoint : ∀ c ∈ token.tail, c ≠ '.') :
    tokenValue doubles token = (fastatoi token).map .int := by
  rw [tokenValue_number hHead hSign, if_pos]
  exact List.all_eq_true.mpr fun c hMem => decide_eq_true (hPoint c hMem)

theorem not_point {ch : Char} (hDigit : ch.isDigit = true) : ch ≠ '.' := by
  rintro rfl
  exact absurd hDigit (by decide)

/-- The digits of a number as they are printed. -/
theorem printed_int (n : Int) :
    (toString n).toList = (if decide (n < 0) then ['-'] else []) ++ Nat.toDigits 10 n.natAbs ∧
      ∀ ch ∈ Nat.toDigits 10 n.natAbs, ch.isDigit = true := by
  constructor
  · rw [Decimal.toList_toString_int]
    simp
  · exact fun ch hMem => Nat.isDigit_of_mem_toDigits (by decide) (Nat.le_refl _) hMem

/-- A printed number begins with a sign or a digit, and digits follow. -/
theorem printed_shape (n : Int) : ∃ ch body, (toString n).toList = ch :: body ∧
    (ch = '-' ∨ ch.isDigit = true) ∧ ∀ c ∈ body, c.isDigit = true := by
  obtain ⟨hText, hDigits⟩ := printed_int n
  by_cases hSign : n < 0
  · refine ⟨'-', Nat.toDigits 10 n.natAbs, ?_, Or.inl rfl, hDigits⟩
    rw [hText, decide_eq_true hSign]
    rfl
  · obtain ⟨ch, body, hBody⟩ := List.exists_cons_of_ne_nil
      (Nat.toDigits_ne_nil (n := n.natAbs) (b := 10))
    rw [hBody] at hDigits
    refine ⟨ch, body, ?_, Or.inr (hDigits ch (List.mem_cons_self ..)),
      fun c hMem => hDigits c (List.mem_cons_of_mem ch hMem)⟩
    rw [hText, decide_eq_false hSign, hBody]
    rfl

theorem tokenValue_int {n : Int} (hRange : -9223372036854775808 ≤ n ∧ n < 9223372036854775808) :
    tokenValue doubles (toString n).toList = some (.int n) := by
  obtain ⟨hText, hDigits⟩ := printed_int n
  have hRead : fastatoi (toString n).toList = some n := by
    rw [hText, fastatoi_eq hDigits _ (Decimal.foldl_toDigits _), Int.bmod_eq_of_le_mul_two]
    · simp only [decide_eq_true_eq, Option.some.injEq]
      split_ifs <;> omega
    · simp only [decide_eq_true_eq]
      split_ifs <;> omega
    · simp only [decide_eq_true_eq]
      split_ifs <;> omega
  obtain ⟨ch, body, hShape, hSign, hBody⟩ := printed_shape n
  rw [tokenValue_whole (by rw [hShape]; rfl) hSign, hRead]
  · rfl
  · rw [hShape]
    exact fun c hMem => not_point (hBody c hMem)

theorem not_delimiter {ch : Char} (hNumber : isNumberChar ch = true) : isDelimiter ch = false := by
  simp only [isNumberChar, Bool.or_eq_true, decide_eq_true_eq] at hNumber
  rcases hNumber with (((hDigit | rfl) | rfl) | rfl) | rfl
  · have hBounds := digit_bounds hDigit
    have hOther : ∀ c : Char, c.toNat < 48 ∨ 57 < c.toNat → ch ≠ c := by
      rintro c hOutside rfl
      omega
    simp [isDelimiter, isWhiteChar, hOther]
  · rfl
  · rfl
  · rfl
  · rfl

theorem beginsToken_number {ch : Char} (hSign : ch = '-' ∨ ch.isDigit = true) : BeginsToken ch := by
  rcases hSign with rfl | hDigit
  · exact ⟨rfl, by decide, by decide, by decide, by decide⟩
  · have hBounds := digit_bounds hDigit
    have hOther : ∀ c : Char, c.toNat < 48 ∨ 57 < c.toNat → ch ≠ c := by
      rintro c hOutside rfl
      omega
    refine ⟨?_, hOther _ (by decide), hOther _ (by decide), hOther _ (by decide),
      hOther _ (by decide)⟩
    simp [isWhiteChar, hOther]

/-- Every number is one token. -/
theorem Reads.number {ch : Char} {body : Text} (hSign : ch = '-' ∨ ch.isDigit = true)
    (hBody : Run isNumberChar body) (hPoints : body.count '.' ≤ 1) :
    Reads doubles false (ch :: body) (tokenValue doubles (ch :: body)) :=
  .token (beginsToken_number hSign)
    (fun c hMem => congrArg not (not_delimiter (hBody c hMem))) hPoints

theorem Reads.int {n : Int} (hRange : -9223372036854775808 ≤ n ∧ n < 9223372036854775808) :
    Reads doubles false (toString n).toList (some (.int n)) := by
  obtain ⟨ch, body, hShape, hSign, hBody⟩ := printed_shape n
  rw [← tokenValue_int hRange, hShape]
  refine .number hSign (fun c hMem => ?_) ?_
  · simp [isNumberChar, hBody c hMem]
  · rw [List.count_eq_zero_of_not_mem fun hMem => not_point (hBody '.' hMem) rfl]
    exact Nat.zero_le 1

end Tokens

end Hengda.CoJson

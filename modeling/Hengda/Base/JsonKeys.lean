import Hengda.Base.JsonPrefix

/-! The buffer for the keys of all objects of a text. A value keeps pointers into it, so it must
not be moved while the text is read. -/
namespace Hengda.CoJson

/-- The buffer, and whether it has been allocated anew since keys were put into it. -/
structure Keys where
  cap : Nat
  size : Nat
  moved : Bool
deriving DecidableEq

namespace Keys

def append (keys : Keys) (n : Nat) : Keys :=
  if keys.cap < keys.size + n then
    { cap := keys.cap * 3 / 2 + n, size := keys.size + n, moved := true }
  else { keys with size := keys.size + n }

/-- The first object makes the buffer, with the number of the objects in front. -/
def opened (keysLen : Nat) (keys : Keys) : Keys :=
  if keysLen > 0 then
    if keys.cap = 0 then append { cap := keysLen, size := 0, moved := false } 4 else keys
  else keys

end Keys

/-- A part of the parser, with the buffer also where it fails. -/
abbrev Reader := Keys → Text → Keys × Option (Json × Text)

def parseArrayKeys (item : Reader) : Nat → List Json → Reader
  | 0, _, keys, _ => (keys, none)
  | turns + 1, res, keys, t =>
      match skipWhite t with
      | [] => (keys, none)
      | ']' :: rest => (keys, some (.array res, rest))
      | ch :: rest =>
          match item keys (ch :: rest) with
          | (keys, none) => (keys, none)
          | (keys, some (v, t)) =>
              match skipWhite t with
              | ']' :: rest => (keys, some (.array (res ++ [v]), rest))
              | ',' :: rest => parseArrayKeys item turns (res ++ [v]) keys rest
              | _ => (keys, none)

def parseJsonKeys (item : Reader) : Nat → List (String × Json) → Reader
  | 0, _, keys, _ => (keys, none)
  | turns + 1, res, keys, t =>
      match skipWhite t with
      | '\x7d' :: rest => (keys, some (.object res, rest))
      | '"' :: rest =>
          match readKey rest with
          | none => (keys, none)
          | some (key, t) =>
              let keys := keys.append (key.length + 1)
              match skipWhite t with
              | ':' :: rest =>
                  match item keys (skipWhite rest) with
                  | (keys, none) => (keys, none)
                  | (keys, some (v, t)) =>
                      let res := res ++ [(String.ofList (cString key), v)]
                      match skipWhite t with
                      | '\x7d' :: rest => (keys, some (.object res, rest))
                      | ',' :: rest => parseJsonKeys item turns res keys rest
                      | _ => (keys, none)
              | _ => (keys, none)
      | _ => (keys, none)

variable (doubles : Doubles)

def readValueKeys (keysLen : Nat) : Nat → Reader
  | 0, keys, _ => (keys, none)
  | levels + 1, keys, t =>
      match t with
      | '\x7b' :: rest =>
          parseJsonKeys (readValueKeys keysLen levels) (rest.length + 1) []
            (keys.opened keysLen) rest
      | '[' :: rest =>
          parseArrayKeys (readValueKeys keysLen levels) (rest.length + 1) [] keys rest
      | t => (keys, readValue doubles (levels + 1) t)

/-- `parse_from` with the buffer, which has as many bytes as the text if these are more than
four. -/
def parseFromKeys (s : Text) : Keys × Option Json :=
  let keysLen := if s.length > 4 then s.length else 0
  let none' := { cap := 0, size := 0, moved := false }
  match skipWhite s with
  | [] => (none', none)
  | ch :: rest =>
      if ch = '\x7b' ∨ ch = '[' then
        match readValueKeys doubles keysLen (s.length + 1) none' (ch :: rest) with
        | (keys, some (v, rest)) => (keys, if rest.all isWhiteChar then some v else none)
        | (keys, none) => (keys, none)
      else (none', none)

section Agreement

variable {item : Reader} {plain : Text → Option (Json × Text)}

/-- The reader reads what the plain one does. -/
def Agrees (item : Reader) (plain : Text → Option (Json × Text)) : Prop :=
  ∀ keys t, (item keys t).2 = plain t

theorem parseArray_item {turns : Nat} {res : List Json} {t u : Text} {ch : Char}
    (hSkip : skipWhite t = ch :: u) (hBracket : ch ≠ ']') :
    parseArray plain (turns + 1) res t = (plain (ch :: u)).bind fun r =>
      match skipWhite r.2 with
      | ']' :: rest => some (.array (res ++ [r.1]), rest)
      | ',' :: rest => parseArray plain turns (res ++ [r.1]) rest
      | _ => none := by
  rw [parseArray, hSkip]
  split
  · next hNil => cases hNil
  · next hClose => exact absurd (List.head_eq_of_cons_eq hClose) hBracket
  · next hText =>
      cases hText
      rfl

theorem parseArrayKeys_item {turns : Nat} {res : List Json} {keys : Keys} {t u : Text} {ch : Char}
    (hSkip : skipWhite t = ch :: u) (hBracket : ch ≠ ']') :
    parseArrayKeys item (turns + 1) res keys t =
      match item keys (ch :: u) with
      | (keys, none) => (keys, none)
      | (keys, some (v, t)) =>
          match skipWhite t with
          | ']' :: rest => (keys, some (.array (res ++ [v]), rest))
          | ',' :: rest => parseArrayKeys item turns (res ++ [v]) keys rest
          | _ => (keys, none) := by
  rw [parseArrayKeys, hSkip]
  split
  · next hNil => cases hNil
  · next hClose => exact absurd (List.head_eq_of_cons_eq hClose) hBracket
  · next hText =>
      cases hText
      rfl

theorem parseArrayKeys_agrees (hItem : Agrees item plain) (turns : Nat) (res : List Json) :
    Agrees (parseArrayKeys item turns res) (parseArray plain turns res) := by
  induction turns generalizing res with
  | zero => exact fun keys t => rfl
  | succ turns ih =>
      intro keys t
      cases hSkip : skipWhite t with
      | nil => simp only [parseArrayKeys, parseArray, hSkip]
      | cons ch rest =>
          by_cases hBracket : ch = ']'
          · subst hBracket
            simp only [parseArrayKeys, parseArray, hSkip]
          · rw [parseArrayKeys_item hSkip hBracket, parseArray_item hSkip hBracket,
              ← hItem keys (ch :: rest)]
            cases hRead : item keys (ch :: rest) with
            | mk keys result =>
                cases result with
                | none => rfl
                | some r =>
                    simp only [Option.bind_some]
                    split
                    · rfl
                    · exact ih _ _ _
                    · rfl

/-- The key of a member and the text of its value. -/
def memberStart (t : Text) : Option (Text × Text) :=
  match skipWhite t with
  | '"' :: rest =>
      match readKey rest with
      | none => none
      | some (key, t) =>
          match skipWhite t with
          | ':' :: rest => some (key, skipWhite rest)
          | _ => none
  | _ => none

/-- One turn of the loop over the members, if it is not the end of the object. -/
theorem parseJson_member {turns : Nat} {res : List (String × Json)} {t : Text}
    (hMember : ∀ rest, skipWhite t ≠ '\x7d' :: rest) :
    parseJson plain (turns + 1) res t = (memberStart t).bind fun start =>
      (plain start.2).bind fun r =>
        match skipWhite r.2 with
        | '\x7d' :: rest => some (.object (res ++ [(String.ofList (cString start.1), r.1)]), rest)
        | ',' :: rest =>
            parseJson plain turns (res ++ [(String.ofList (cString start.1), r.1)]) rest
        | _ => none := by
  by_cases hQuote : ∃ rest, skipWhite t = '"' :: rest
  · obtain ⟨rest, hSkip⟩ := hQuote
    simp only [parseJson, memberStart, hSkip]
    cases hKey : readKey rest with
    | none => rfl
    | some start =>
        simp only [Option.bind_eq_bind, Option.bind_some]
        by_cases hColon : ∃ rest, skipWhite start.2 = ':' :: rest
        · obtain ⟨rest, hSkip⟩ := hColon
          rewrite [hSkip]
          rfl
        · have hOther := not_exists.mp hColon
          simp only [Option.bind_none]
  · have hOther := not_exists.mp hQuote
    simp only [parseJson, memberStart, Option.bind_none]

theorem parseJsonKeys_member {turns : Nat} {res : List (String × Json)} {keys : Keys} {t : Text}
    (hMember : ∀ rest, skipWhite t ≠ '\x7d' :: rest) :
    (parseJsonKeys item (turns + 1) res keys t).2 = (memberStart t).bind fun start =>
      match item (keys.append (start.1.length + 1)) start.2 with
      | (_, none) => none
      | (keys, some (v, t)) =>
          match skipWhite t with
          | '\x7d' :: rest => some (.object (res ++ [(String.ofList (cString start.1), v)]), rest)
          | ',' :: rest =>
              (parseJsonKeys item turns (res ++ [(String.ofList (cString start.1), v)]) keys rest).2
          | _ => none := by
  by_cases hQuote : ∃ rest, skipWhite t = '"' :: rest
  · obtain ⟨rest, hSkip⟩ := hQuote
    simp only [parseJsonKeys, memberStart, hSkip]
    cases hKey : readKey rest with
    | none => rfl
    | some start =>
        by_cases hColon : ∃ rest, skipWhite start.2 = ':' :: rest
        · obtain ⟨rest, hSkip⟩ := hColon
          simp only [hSkip, Option.bind_some]
          split
          · rfl
          · split <;> rfl
        · have hOther := not_exists.mp hColon
          simp only [Option.bind_none]
  · have hOther := not_exists.mp hQuote
    simp only [parseJsonKeys, memberStart, Option.bind_none]

theorem parseJsonKeys_agrees (hItem : Agrees item plain) (turns : Nat)
    (res : List (String × Json)) :
    Agrees (parseJsonKeys item turns res) (parseJson plain turns res) := by
  induction turns generalizing res with
  | zero => exact fun keys t => rfl
  | succ turns ih =>
      intro keys t
      by_cases hEnd : ∃ rest, skipWhite t = '\x7d' :: rest
      · obtain ⟨rest, hSkip⟩ := hEnd
        simp only [parseJsonKeys, parseJson, hSkip]
      · have hMember := not_exists.mp hEnd
        rw [parseJsonKeys_member hMember, parseJson_member hMember]
        congr 1
        funext start
        rw [← hItem (keys.append (start.1.length + 1)) start.2]
        cases hRead : item (keys.append (start.1.length + 1)) start.2 with
        | mk keys result =>
            cases result with
            | none => rfl
            | some r =>
                simp only [Option.bind_some]
                split
                · rfl
                · exact ih _ _ _
                · rfl

variable (doubles : Doubles)

theorem readValueKeys_agrees (keysLen levels : Nat) :
    Agrees (readValueKeys doubles keysLen levels) (readValue doubles levels) := by
  induction levels with
  | zero => exact fun keys t => rfl
  | succ levels ih =>
      intro keys t
      match t with
      | [] => rfl
      | ch :: rest =>
          by_cases hBrace : ch = '\x7b'
          · subst hBrace
            exact parseJsonKeys_agrees ih _ _ _ _
          · by_cases hBracket : ch = '['
            · subst hBracket
              exact parseArrayKeys_agrees ih _ _ _ _
            · rw [readValueKeys]
              · exact fun _ hSame => hBrace (List.head_eq_of_cons_eq hSame)
              · exact fun _ hSame => hBracket (List.head_eq_of_cons_eq hSame)

theorem parseFromKeys_agrees (s : Text) : (parseFromKeys doubles s).2 = parseFrom doubles s := by
  have hAgrees := readValueKeys_agrees doubles (if s.length > 4 then s.length else 0)
    (s.length + 1) { cap := 0, size := 0, moved := false }
  rw [parseFromKeys]
  cases hSkip : skipWhite s with
  | nil => simp only [parseFrom, hSkip]
  | cons ch rest =>
      simp only
      by_cases hBegins : ch = '\x7b' ∨ ch = '['
      · rw [if_pos hBegins, parseFrom_eq hSkip hBegins, ← hAgrees (ch :: rest)]
        split
        · next hRead => rw [hRead, Option.bind_some]
        · next hRead => rw [hRead, Option.bind_none]
      · rw [if_neg hBegins]
        cases hParse : parseFrom doubles s with
        | none => rfl
        | some v =>
            obtain ⟨c, t, hStart, hOpens⟩ := parseFrom_begins hParse
            rw [hSkip] at hStart
            cases hStart
            exact absurd hOpens hBegins

end Agreement

section Progress

theorem length_skipWhite {t u : Text} {ch : Char} (hSkip : skipWhite t = ch :: u) :
    u.length + 1 ≤ t.length := by
  have hLess : (skipWhite t).length ≤ t.length := (List.dropWhile_sublist _).length_le
  rw [hSkip] at hLess
  exact hLess

theorem length_readKey {t key rest : Text} (hRead : readKey t = some (key, rest)) :
    t.length = key.length + 1 + rest.length := by
  rw [readKey] at hRead
  have hSplit : (t.takeWhile fun ch => ch ≠ '"') ++ (t.dropWhile fun ch => ch ≠ '"') = t :=
    List.takeWhile_append_dropWhile
  cases hRest : t.dropWhile fun ch => ch ≠ '"' with
  | nil =>
      rw [hRest] at hRead
      cases hRead
  | cons ch u =>
      rw [hRest] at hRead hSplit
      cases hRead
      rw [← hSplit, List.length_append, List.length_cons, hSplit]
      omega

theorem length_readUnicode {t bytes rest : Text} (hRead : readUnicode t = some (bytes, rest)) :
    rest.length ≤ t.length := by
  match t with
  | [] | [_] | [_, _] | [_, _, _] => cases hRead
  | a :: b :: c :: d :: t =>
      rw [readUnicode] at hRead
      obtain ⟨v, -, hRead⟩ := Option.bind_eq_some_iff.mp hRead
      simp only [List.length_cons]
      split at hRead
      · split at hRead
        · obtain ⟨u, -, hRead⟩ := Option.bind_eq_some_iff.mp hRead
          split at hRead
          · cases hRead
            simp only [List.length_cons]
            omega
          · cases hRead
        · cases hRead
      · cases hRead
        omega

theorem length_readString {turns : Nat} {fs t s rest : Text}
    (hRead : readString turns fs t = some (s, rest)) : rest.length ≤ t.length := by
  induction turns generalizing fs t with
  | zero => cases hRead
  | succ turns ih =>
      match t with
      | [] => cases hRead
      | ch :: t =>
          by_cases hQuote : ch = '"'
          · subst hQuote
            cases hRead
            exact Nat.le_succ _
          · by_cases hZero : ch = '\x00'
            · subst hZero
              cases hRead
            · by_cases hSlash : ch = '\\'
              · subst hSlash
                match t with
                | [] => cases hRead
                | letter :: t =>
                    by_cases hUnicode : letter = 'u'
                    · subst hUnicode
                      rw [readString] at hRead
                      obtain ⟨⟨bytes, u⟩, hBytes, hRead⟩ := Option.bind_eq_some_iff.mp hRead
                      have hLess := (ih hRead).trans (length_readUnicode hBytes)
                      simp only [List.length_cons]
                      omega
                    · cases hLetter : unescape letter with
                      | none =>
                          rw [readString, hLetter] at hRead
                          · cases hRead
                          · exact hUnicode
                      | some c =>
                          rw [readString_escape hLetter hUnicode] at hRead
                          have hLess := ih hRead
                          simp only [List.length_cons]
                          omega
              · rw [readString_plain ⟨hQuote, hZero, hSlash⟩] at hRead
                exact (ih hRead).trans (Nat.le_succ _)

variable {doubles : Doubles}

theorem length_readToken {t rest : Text} {ch : Char} {v : Json}
    (hRead : readToken doubles (ch :: t) = some (v, rest)) : rest.length ≤ t.length := by
  rw [readToken] at hRead
  split at hRead
  · cases hRead
  · split at hRead
    · cases hRead
    · obtain ⟨w, -, hPair⟩ := Option.map_eq_some_iff.mp hRead
      cases hPair
      exact (List.dropWhile_sublist _).length_le

/-- A value that is neither an object nor an array ends behind its first character. -/
theorem length_plain {levels : Nat} {t rest : Text} {ch : Char} {v : Json} (hBrace : ch ≠ '\x7b')
    (hBracket : ch ≠ '[') (hRead : readValue doubles (levels + 1) (ch :: t) = some (v, rest)) :
    rest.length ≤ t.length := by
  by_cases hQuote : ch = '"'
  · subst hQuote
    obtain ⟨⟨s, u⟩, hString, hPair⟩ := Option.bind_eq_some_iff.mp hRead
    cases hPair
    exact length_readString hString
  · rw [readValue] at hRead
    · exact length_readToken hRead
    · exact fun _ hSame => hQuote (List.head_eq_of_cons_eq hSame)
    · exact fun _ hSame => hBrace (List.head_eq_of_cons_eq hSame)
    · exact fun _ hSame => hBracket (List.head_eq_of_cons_eq hSame)

/-- A reader that goes on. -/
def Shortens (plain : Text → Option (Json × Text)) : Prop :=
  ∀ t v rest, plain t = some (v, rest) → rest.length < t.length

theorem shortens_parseArray {plain : Text → Option (Json × Text)} (hItem : Shortens plain)
    (turns : Nat) (res : List Json) : Shortens (parseArray plain turns res) := by
  induction turns generalizing res with
  | zero =>
      intro t v rest hRead
      cases hRead
  | succ turns ih =>
      intro t v rest hRead
      rcases parseArray_iff.mp hRead with ⟨hSkip, -⟩ | ⟨ch, u, w, t', hSkip, -, hFirst, hRest⟩
      · exact length_skipWhite hSkip
      · have hBefore := length_skipWhite hSkip
        have hLess := hItem _ _ _ hFirst
        simp only [List.length_cons] at hLess
        rcases hRest with ⟨hEnd, -⟩ | ⟨more, hComma, hRead⟩
        · have hAfter := length_skipWhite hEnd
          omega
        · have hAfter := length_skipWhite hComma
          have hMore := ih _ _ _ _ hRead
          omega

/-- The characters of a member: its key with two quotes, a colon and a value, with what ends it. -/
theorem length_member {plain : Text → Option (Json × Text)} (hItem : Shortens plain)
    {t u key t₁ u₁ t₂ rest : Text} {w : Json} {ch : Char} (hSkip : skipWhite t = '"' :: u)
    (hKey : readKey u = some (key, t₁)) (hColon : skipWhite t₁ = ':' :: u₁)
    (hFirst : plain (skipWhite u₁) = some (w, t₂)) (hEnd : skipWhite t₂ = ch :: rest) :
    (skipWhite u₁).length + key.length + 3 ≤ t.length ∧
      rest.length + 2 ≤ (skipWhite u₁).length := by
  have hBefore := length_skipWhite hSkip
  have hRead := length_readKey hKey
  have hBetween := length_skipWhite hColon
  have hValue : (skipWhite u₁).length ≤ u₁.length := (List.dropWhile_sublist _).length_le
  have hLess := hItem _ _ _ hFirst
  have hAfter := length_skipWhite hEnd
  omega

theorem shortens_parseJson {plain : Text → Option (Json × Text)} (hItem : Shortens plain)
    (turns : Nat) (res : List (String × Json)) : Shortens (parseJson plain turns res) := by
  induction turns generalizing res with
  | zero =>
      intro t v rest hRead
      cases hRead
  | succ turns ih =>
      intro t v rest hRead
      rcases parseJson_iff.mp hRead with ⟨hSkip, -⟩ | ⟨u, key, t₁, u₁, w, t₂, hSkip, hKey, hColon,
        hFirst, ⟨hEnd, -⟩ | ⟨more, hComma, hRead⟩⟩
      · exact length_skipWhite hSkip
      · have hMember := length_member hItem hSkip hKey hColon hFirst hEnd
        omega
      · have hMember := length_member hItem hSkip hKey hColon hFirst hComma
        have hMore := ih _ _ _ _ hRead
        omega

theorem shortens_readValue (levels : Nat) : Shortens (readValue doubles levels) := by
  induction levels with
  | zero =>
      intro t v rest hRead
      cases hRead
  | succ levels ih =>
      intro t v rest hRead
      match t with
      | [] => cases hRead
      | ch :: t =>
          by_cases hBrace : ch = '\x7b'
          · subst hBrace
            exact (shortens_parseJson ih _ _ _ _ _ hRead).trans (Nat.lt_succ_self _)
          · by_cases hBracket : ch = '['
            · subst hBracket
              exact (shortens_parseArray ih _ _ _ _ _ hRead).trans (Nat.lt_succ_self _)
            · exact Nat.lt_succ_of_le (length_plain hBrace hBracket hRead)

end Progress

section Room

variable {item : Reader}

/-- What one turn of the loop over the items has read. -/
theorem parseArrayKeys_cases {turns : Nat} {res : List Json} {keys keys' : Keys} {t rest : Text}
    {v : Json}
    (hRead : parseArrayKeys item (turns + 1) res keys t = (keys', some (v, rest))) :
    (keys' = keys ∧ skipWhite t = ']' :: rest) ∨
      ∃ ch u keys₁ w t', skipWhite t = ch :: u ∧ item keys (ch :: u) = (keys₁, some (w, t')) ∧
        ((keys' = keys₁ ∧ skipWhite t' = ']' :: rest) ∨
          ∃ more, skipWhite t' = ',' :: more ∧
            parseArrayKeys item turns (res ++ [w]) keys₁ more = (keys', some (v, rest))) := by
  cases hSkip : skipWhite t with
  | nil =>
      simp only [parseArrayKeys, hSkip] at hRead
      cases hRead
  | cons ch u =>
      by_cases hBracket : ch = ']'
      · subst hBracket
        simp only [parseArrayKeys, hSkip] at hRead
        cases hRead
        exact Or.inl ⟨rfl, rfl⟩
      · rw [parseArrayKeys_item hSkip hBracket] at hRead
        split at hRead
        · cases hRead
        · next keys₁ w t' hItem =>
            refine Or.inr ⟨ch, u, keys₁, w, t', rfl, hItem, ?_⟩
            split at hRead
            · next hEnd =>
                cases hRead
                exact Or.inl ⟨rfl, hEnd⟩
            · next more hComma => exact Or.inr ⟨more, hComma, hRead⟩
            · cases hRead

/-- What one turn of the loop over the members has read. -/
theorem parseJsonKeys_cases {turns : Nat} {res : List (String × Json)} {keys keys' : Keys}
    {t rest : Text} {v : Json}
    (hRead : parseJsonKeys item (turns + 1) res keys t = (keys', some (v, rest))) :
    (keys' = keys ∧ skipWhite t = '\x7d' :: rest) ∨
      ∃ u key t₁ u₁ keys₁ w t₂, skipWhite t = '"' :: u ∧ readKey u = some (key, t₁) ∧
        skipWhite t₁ = ':' :: u₁ ∧
        item (keys.append (key.length + 1)) (skipWhite u₁) = (keys₁, some (w, t₂)) ∧
        ((keys' = keys₁ ∧ skipWhite t₂ = '\x7d' :: rest) ∨
          ∃ more, skipWhite t₂ = ',' :: more ∧
            parseJsonKeys item turns (res ++ [(String.ofList (cString key), w)]) keys₁ more =
              (keys', some (v, rest))) := by
  rw [parseJsonKeys] at hRead
  split at hRead
  · next hEnd =>
      cases hRead
      exact Or.inl ⟨rfl, hEnd⟩
  · next u hSkip =>
      split at hRead
      · cases hRead
      · next key t₁ hKey =>
          split at hRead
          · next u₁ hColon =>
              dsimp only at hRead
              split at hRead
              · cases hRead
              · next keys₁ w t₂ hItem =>
                  refine Or.inr ⟨u, key, t₁, u₁, keys₁, w, t₂, hSkip, hKey, hColon, hItem, ?_⟩
                  split at hRead
                  · next hEnd =>
                      cases hRead
                      exact Or.inl ⟨rfl, hEnd⟩
                  · next more hComma => exact Or.inr ⟨more, hComma, hRead⟩
                  · cases hRead
          · cases hRead
  · cases hRead

/-- The buffer has not been moved and is large enough for `m` more characters of a text of `n`
characters, as a member takes three more of them than its key takes bytes. -/
def Fits (n : Nat) (keys : Keys) (m : Nat) : Prop :=
  keys.moved = false ∧ ((keys.cap = 0 ∧ keys.size = 0 ∧ m ≤ n) ∨
    (4 < n ∧ keys.cap = n ∧ keys.size + m ≤ n + 3))

/-- The same within an object, for which the buffer has been made if the text is long enough. -/
def Opened (n : Nat) (keys : Keys) (m : Nat) : Prop :=
  keys.moved = false ∧ ((n ≤ 4 ∧ keys.cap = 0 ∧ keys.size = 0 ∧ m < n) ∨
    (4 < n ∧ keys.cap = n ∧ keys.size + m ≤ n + 3))

variable {n : Nat}

theorem Fits.mono {keys : Keys} {m k : Nat} (hFits : Fits n keys m) (hLess : k ≤ m) :
    Fits n keys k := by
  obtain ⟨hStays, ⟨hCap, hSize, hRoom⟩ | ⟨hLong, hCap, hRoom⟩⟩ := hFits
  · exact ⟨hStays, Or.inl ⟨hCap, hSize, by omega⟩⟩
  · exact ⟨hStays, Or.inr ⟨hLong, hCap, by omega⟩⟩

theorem Opened.fits {keys : Keys} {m k : Nat} (hOpened : Opened n keys m) (hLess : k ≤ m) :
    Fits n keys k := by
  obtain ⟨hStays, ⟨hShort, hCap, hSize, hRoom⟩ | ⟨hLong, hCap, hRoom⟩⟩ := hOpened
  · exact ⟨hStays, Or.inl ⟨hCap, hSize, by omega⟩⟩
  · exact ⟨hStays, Or.inr ⟨hLong, hCap, by omega⟩⟩

theorem Fits.opened {keys : Keys} {m : Nat} (hFits : Fits n keys (m + 1)) :
    Opened n (keys.opened (if n > 4 then n else 0)) m := by
  obtain ⟨hStays, ⟨hCap, hSize, hRoom⟩ | ⟨hLong, hCap, hRoom⟩⟩ := hFits
  · by_cases hLong : n > 4
    · rw [if_pos hLong, Keys.opened, if_pos (by omega), if_pos hCap, Keys.append,
        if_neg (by simp only; omega)]
      exact ⟨rfl, Or.inr ⟨hLong, rfl, by simp only; omega⟩⟩
    · rw [if_neg hLong, Keys.opened, if_neg (Nat.lt_irrefl 0)]
      exact ⟨hStays, Or.inl ⟨by omega, hCap, hSize, by omega⟩⟩
  · rw [if_pos hLong, Keys.opened, if_pos (by omega), if_neg (by omega)]
    exact ⟨hStays, Or.inr ⟨hLong, hCap, by omega⟩⟩

/-- The reader leaves the buffer where it is, and does not go back to having none. -/
def Keeps (n : Nat) (item : Reader) : Prop :=
  ∀ keys t keys' v rest, Fits n keys t.length → item keys t = (keys', some (v, rest)) →
    Fits n keys' rest.length ∧ (4 < n → keys.cap = n → keys'.cap = n)

theorem parseArrayKeys_keeps (hKeeps : Keeps n item) (turns : Nat) (res : List Json) :
    Keeps n (parseArrayKeys item turns res) := by
  induction turns generalizing res with
  | zero =>
      intro keys t keys' v rest hFits hRead
      cases hRead
  | succ turns ih =>
      intro keys t keys' v rest hFits hRead
      rcases parseArrayKeys_cases hRead with ⟨rfl, hSkip⟩ | ⟨ch, u, keys₁, w, t', hSkip, hItem,
        hRest⟩
      · have hLess := length_skipWhite hSkip
        exact ⟨hFits.mono (by omega), fun _ hCap => hCap⟩
      · have hBefore := length_skipWhite hSkip
        have hItemFits : Fits n keys (ch :: u).length := hFits.mono hBefore
        obtain ⟨hNext, hStays⟩ := hKeeps _ _ _ _ _ hItemFits hItem
        rcases hRest with ⟨rfl, hEnd⟩ | ⟨more, hComma, hRead⟩
        · have hAfter := length_skipWhite hEnd
          exact ⟨hNext.mono (by omega), hStays⟩
        · have hAfter := length_skipWhite hComma
          obtain ⟨hLast, hStill⟩ := ih _ _ _ _ _ _ (hNext.mono (by omega)) hRead
          exact ⟨hLast, fun hLong hCap => hStill hLong (hStays hLong hCap)⟩

/-- There is room for the key of a member that is read to its end. -/
theorem Opened.append {keys : Keys} {m k r : Nat} (hOpened : Opened n keys m)
    (hMember : k + 5 ≤ m) (hRest : r + k + 3 ≤ m) :
    Fits n (keys.append (k + 1)) r ∧ 4 < n ∧ (keys.append (k + 1)).cap = n := by
  obtain ⟨hStays, ⟨hShort, hCap, hSize, hRoom⟩ | ⟨hLong, hCap, hRoom⟩⟩ := hOpened
  · omega
  · rw [Keys.append, if_neg (by omega)]
    exact ⟨⟨hStays, Or.inr ⟨hLong, hCap, by simp only; omega⟩⟩, hLong, hCap⟩

theorem parseJsonKeys_keeps {plain : Text → Option (Json × Text)} (hKeeps : Keeps n item)
    (hAgrees : Agrees item plain) (hShortens : Shortens plain) (turns : Nat)
    (res : List (String × Json)) {keys keys' : Keys} {t rest : Text} {v : Json}
    (hOpened : Opened n keys t.length)
    (hRead : parseJsonKeys item turns res keys t = (keys', some (v, rest))) :
    Fits n keys' rest.length ∧ (4 < n → keys'.cap = n) := by
  induction turns generalizing res keys t with
  | zero => cases hRead
  | succ turns ih =>
      rcases parseJsonKeys_cases hRead with ⟨rfl, hSkip⟩ | ⟨u, key, t₁, u₁, keys₁, w, t₂, hSkip,
        hKey, hColon, hItem, hRest⟩
      · have hLess := length_skipWhite hSkip
        refine ⟨hOpened.fits (by omega), fun hLong => ?_⟩
        obtain ⟨-, ⟨hShort, -⟩ | ⟨-, hCap, -⟩⟩ := hOpened
        · omega
        · exact hCap
      · have hPlain : plain (skipWhite u₁) = some (w, t₂) := by
          rw [← hAgrees (keys.append (key.length + 1)), hItem]
        have hEnds : ∃ ch more, skipWhite t₂ = ch :: more := by
          rcases hRest with ⟨-, hEnd⟩ | ⟨more, hComma, -⟩
          · exact ⟨_, _, hEnd⟩
          · exact ⟨_, _, hComma⟩
        obtain ⟨ch, more, hEnd⟩ := hEnds
        obtain ⟨hMember, hMore⟩ := length_member hShortens hSkip hKey hColon hPlain hEnd
        obtain ⟨hItemFits, hLong, hCap⟩ := hOpened.append (k := key.length)
          (r := (skipWhite u₁).length) (by omega) (by omega)
        obtain ⟨hNext, hStays⟩ := hKeeps _ _ _ _ _ hItemFits hItem
        have hAfter := length_skipWhite hEnd
        rcases hRest with ⟨rfl, hClose⟩ | ⟨others, hComma, hRead⟩
        · have hLast := length_skipWhite hClose
          exact ⟨hNext.mono (by omega), fun _ => hStays hLong hCap⟩
        · have hLast := length_skipWhite hComma
          refine ih _ ⟨hNext.1, Or.inr ⟨hLong, hStays hLong hCap, ?_⟩⟩ hRead
          obtain ⟨-, ⟨hNone, -⟩ | ⟨-, -, hRoom⟩⟩ := hNext
          · have hSame := hStays hLong hCap
            omega
          · omega

variable {doubles : Doubles}

theorem readValueKeys_keeps (n levels : Nat) :
    Keeps n (readValueKeys doubles (if n > 4 then n else 0) levels) := by
  induction levels with
  | zero =>
      intro keys t keys' v rest hFits hRead
      cases hRead
  | succ levels ih =>
      have hAgrees := readValueKeys_agrees doubles (if n > 4 then n else 0) levels
      have hShortens : Shortens (readValue doubles levels) := shortens_readValue levels
      intro keys t keys' v rest hFits hRead
      match t with
      | [] => cases hRead
      | ch :: t =>
          by_cases hBrace : ch = '\x7b'
          · subst hBrace
            obtain ⟨hNext, hCap⟩ := parseJsonKeys_keeps ih hAgrees hShortens _ _ hFits.opened hRead
            exact ⟨hNext, fun hLong _ => hCap hLong⟩
          · by_cases hBracket : ch = '['
            · subst hBracket
              exact parseArrayKeys_keeps ih _ _ _ _ _ _ _ (hFits.mono (Nat.le_succ _)) hRead
            · rw [readValueKeys] at hRead
              · have hValue : readValue doubles (levels + 1) (ch :: t) = some (v, rest) :=
                  congrArg Prod.snd hRead
                have hKeys : keys = keys' := congrArg Prod.fst hRead
                have hLess := shortens_readValue _ _ _ _ hValue
                rw [← hKeys]
                exact ⟨hFits.mono hLess.le, fun _ hCap => hCap⟩
              · exact fun _ hSame => hBrace (List.head_eq_of_cons_eq hSame)
              · exact fun _ hSame => hBracket (List.head_eq_of_cons_eq hSame)

/-- While a text that is accepted is read, the buffer for the keys is never moved: every pointer
to a key stays valid. A text that ends behind its first key is refused, but not before the buffer
has been moved, and the value that has been begun still points to the old one. -/
theorem keys_stay (doubles : Doubles) :
    (∀ s v, parseFrom doubles s = some v → (parseFromKeys doubles s).1.moved = false) ∧
      ∃ s, parseFrom doubles s = none ∧ (parseFromKeys doubles s).1.moved = true := by
  constructor
  · intro s v hParse
    obtain ⟨ch, t, hSkip, hBegins⟩ := parseFrom_begins hParse
    have hResult := parseFromKeys_agrees doubles s
    rw [hParse] at hResult
    rw [parseFromKeys, hSkip] at hResult ⊢
    simp only [if_pos hBegins] at hResult ⊢
    have hFits : Fits s.length { cap := 0, size := 0, moved := false } (ch :: t).length :=
      ⟨rfl, Or.inl ⟨rfl, rfl, length_skipWhite hSkip⟩⟩
    split
    · next keys w rest hRead =>
        exact (readValueKeys_keeps s.length _ _ _ _ _ _ hFits hRead).1.1
    · next hRead =>
        rw [hRead] at hResult
        cases hResult
  · exact ⟨['\x7b', '"', 'k', 'e', 'y', '"'], rfl, rfl⟩

end Room

end Hengda.CoJson

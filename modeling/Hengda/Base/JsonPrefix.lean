import Hengda.Base.JsonReads

/-! A text that the parser accepts is read to its end and not further, so that only white space
may stand behind it. -/
namespace Hengda.CoJson

open Scanning

/-- What the first reader has read is read by the second one also in front of another text. -/
def Extends {Value : Type} (first second : Text → Option (Value × Text)) : Prop :=
  ∀ t v rest, first t = some (v, rest) → ∀ more, second (t ++ more) = some (v, rest ++ more)

section Strings

/-- A scan that stops before the end stops at the same place in a longer text. -/
theorem takeWhile_append_stopped {kind : Char → Bool} {t rest : Text} {ch : Char}
    (hRest : t.dropWhile kind = ch :: rest) (more : Text) :
    (t ++ more).takeWhile kind = t.takeWhile kind := by
  have hStops : Stops kind (ch :: rest) := hRest ▸ stops_dropWhile t
  have hSplit : t = t.takeWhile kind ++ ch :: rest := by
    rw [← hRest]
    exact List.takeWhile_append_dropWhile.symm
  have hLonger : Stops kind ((ch :: rest) ++ more) := stops_cons.mpr (stops_cons.mp hStops)
  conv_lhs => rw [hSplit, List.append_assoc]
  exact takeWhile_run (run_takeWhile t) hLonger

theorem skipWhite_append {t rest : Text} {ch : Char} (hSkip : skipWhite t = ch :: rest)
    (more : Text) : skipWhite (t ++ more) = ch :: (rest ++ more) := by
  rw [skipWhite] at hSkip ⊢
  rw [List.dropWhile_append, hSkip]
  rfl

theorem readUnicode_extends : Extends readUnicode readUnicode := by
  intro t bytes rest hRead more
  match t with
  | [] | [_] | [_, _] | [_, _, _] => cases hRead
  | a :: b :: c :: d :: t =>
      rw [readUnicode] at hRead
      simp only [List.cons_append]
      rw [readUnicode]
      cases hHex : readHex a b c d with
      | none =>
          rw [hHex] at hRead
          cases hRead
      | some v =>
          rw [hHex] at hRead
          simp only [Option.bind_eq_bind, Option.bind_some] at hRead ⊢
          by_cases hPair : 0xd800 ≤ v ∧ v ≤ 0xdbff
          · rw [if_pos hPair] at hRead ⊢
            split at hRead
            · next e f g h t =>
                simp only [List.cons_append]
                cases hLow : readHex e f g h with
                | none =>
                    rw [hLow] at hRead
                    cases hRead
                | some u =>
                    rw [hLow] at hRead
                    simp only [Option.bind_some] at hRead ⊢
                    by_cases hRange : 0xdc00 ≤ u ∧ u ≤ 0xdfff
                    · rw [if_pos hRange] at hRead ⊢
                      cases hRead
                      rfl
                    · rw [if_neg hRange] at hRead
                      cases hRead
            · cases hRead
          · rw [if_neg hPair] at hRead ⊢
            cases hRead
            rfl

/-- A character that is escaped, if the rest of the string is read alike. -/
theorem escape_extends {turns turns' : Nat} {fs t : Text}
    (ih : ∀ fs, Extends (readString turns fs) (readString turns' fs)) {s rest : Text}
    (hRead : readString (turns + 1) fs ('\\' :: t) = some (s, rest)) (more : Text) :
    readString (turns' + 1) fs (('\\' :: t) ++ more) = some (s, rest ++ more) := by
  match t with
  | [] => cases hRead
  | letter :: t =>
      simp only [List.cons_append]
      by_cases hUnicode : letter = 'u'
      · subst hUnicode
        rw [readString] at hRead ⊢
        cases hBytes : readUnicode t with
        | none =>
            rw [hBytes] at hRead
            cases hRead
        | some r =>
            obtain ⟨bytes, t'⟩ := r
            rw [hBytes] at hRead
            rw [readUnicode_extends t bytes t' hBytes more]
            exact ih (fs ++ bytes) t' s rest hRead more
      · cases hLetter : unescape letter with
        | none =>
            rw [readString, hLetter] at hRead
            · cases hRead
            · exact hUnicode
        | some ch =>
            rw [readString_escape hLetter hUnicode] at hRead ⊢
            exact ih (fs ++ [ch]) t s rest hRead more

theorem readString_extends {turns turns' : Nat} (hTurns : turns ≤ turns') (fs : Text) :
    Extends (readString turns fs) (readString turns' fs) := by
  induction turns generalizing turns' fs with
  | zero =>
      intro t s rest hRead
      cases hRead
  | succ turns ih =>
      obtain ⟨turns', rfl⟩ : ∃ n, turns' = n + 1 := ⟨turns' - 1, by omega⟩
      have hLess : turns ≤ turns' := by omega
      intro t s rest hRead more
      match t with
      | [] => cases hRead
      | ch :: t =>
          by_cases hQuote : ch = '"'
          · subst hQuote
            cases hRead
            rfl
          · by_cases hZero : ch = '\x00'
            · subst hZero
              cases hRead
            · by_cases hSlash : ch = '\\'
              · subst hSlash
                exact escape_extends (ih hLess) hRead more
              · have hPlain := readString_plain ⟨hQuote, hZero, hSlash⟩
                rw [hPlain] at hRead
                rw [List.cons_append, hPlain]
                exact ih hLess (fs ++ [ch]) t s rest hRead more

theorem readKey_extends : Extends readKey readKey := by
  intro t key rest hRead more
  rw [readKey] at hRead ⊢
  cases hQuote : t.dropWhile fun ch => ch ≠ '"' with
  | nil =>
      rw [hQuote] at hRead
      cases hRead
  | cons ch u =>
      rw [hQuote] at hRead
      cases hRead
      have hDrop : (t ++ more).dropWhile (fun ch => ch ≠ '"') = ch :: (rest ++ more) := by
        rw [List.dropWhile_append, hQuote]
        rfl
      rw [hDrop, takeWhile_append_stopped hQuote]

end Strings

section Values

variable {doubles : Doubles}

theorem readToken_extends : Extends (readToken doubles) (readToken doubles) := by
  intro t v rest hRead more
  match t with
  | [] => cases hRead
  | ch :: t =>
      rw [readToken] at hRead
      rw [List.cons_append, readToken]
      cases hRest : t.dropWhile fun ch => !isDelimiter ch with
      | nil =>
          simp only [hRest] at hRead
          split at hRead
          · cases hRead
          · cases hRead
      | cons c u =>
          have hDrop : (t ++ more).dropWhile (fun ch => !isDelimiter ch) = c :: (u ++ more) := by
            rw [List.dropWhile_append, hRest]
            rfl
          simp only [hRest] at hRead
          simp only [hDrop, takeWhile_append_stopped hRest]
          split at hRead
          · cases hRead
          · next hDots =>
              rw [if_neg hDots]
              cases hValue : tokenValue doubles (ch :: t.takeWhile fun ch => !isDelimiter ch) with
              | none =>
                  rw [hValue] at hRead
                  cases hRead
              | some w =>
                  rw [hValue] at hRead
                  cases hRead
                  rfl

section Turns

variable {item : Text → Option (Json × Text)} {turns : Nat} {t rest : Text} {v : Json}

/-- What one turn of `parse_array` has read. -/
theorem parseArray_iff {res : List Json} :
    parseArray item (turns + 1) res t = some (v, rest) ↔
      (skipWhite t = ']' :: rest ∧ v = .array res) ∨
      ∃ ch u w t', skipWhite t = ch :: u ∧ ch ≠ ']' ∧ item (ch :: u) = some (w, t') ∧
        ((skipWhite t' = ']' :: rest ∧ v = .array (res ++ [w])) ∨
          ∃ more, skipWhite t' = ',' :: more ∧
            parseArray item turns (res ++ [w]) more = some (v, rest)) := by
  rw [parseArray]
  constructor
  · intro hRead
    split at hRead
    · cases hRead
    · next hSkip =>
        cases hRead
        exact Or.inl ⟨hSkip, rfl⟩
    · next ch u hBracket hSkip =>
        obtain ⟨⟨w, t'⟩, hItem, hRead⟩ := Option.bind_eq_some_iff.mp hRead
        dsimp only at hRead
        refine Or.inr ⟨ch, u, w, t', hSkip, hBracket, hItem, ?_⟩
        split at hRead
        · next hEnd =>
            cases hRead
            exact Or.inl ⟨hEnd, rfl⟩
        · next more hComma => exact Or.inr ⟨more, hComma, hRead⟩
        · cases hRead
  · rintro (⟨hSkip, rfl⟩ | ⟨ch, u, w, t', hSkip, hBracket, hItem, hRest⟩)
    · simp only [hSkip]
    · rw [hSkip]
      split
      · next hNil => cases hNil
      · next hClose => exact absurd (List.head_eq_of_cons_eq hClose) hBracket
      · next hText =>
          cases hText
          rw [hItem]
          rcases hRest with ⟨hEnd, rfl⟩ | ⟨more, hComma, hRead⟩
          · simp only [Option.bind_eq_bind, Option.bind_some, hEnd]
          · simp only [Option.bind_eq_bind, Option.bind_some, hComma]
            exact hRead

/-- What one turn of `parse_json` has read. -/
theorem parseJson_iff {res : List (String × Json)} :
    parseJson item (turns + 1) res t = some (v, rest) ↔
      (skipWhite t = '\x7d' :: rest ∧ v = .object res) ∨
      ∃ u key t₁ u₁ w t₂, skipWhite t = '"' :: u ∧ readKey u = some (key, t₁) ∧
        skipWhite t₁ = ':' :: u₁ ∧ item (skipWhite u₁) = some (w, t₂) ∧
        ((skipWhite t₂ = '\x7d' :: rest ∧
            v = .object (res ++ [(String.ofList (cString key), w)])) ∨
          ∃ more, skipWhite t₂ = ',' :: more ∧
            parseJson item turns (res ++ [(String.ofList (cString key), w)]) more =
              some (v, rest)) := by
  rw [parseJson]
  constructor
  · intro hRead
    split at hRead
    · next hSkip =>
        cases hRead
        exact Or.inl ⟨hSkip, rfl⟩
    · next u hSkip =>
        obtain ⟨⟨key, t₁⟩, hKey, hRead⟩ := Option.bind_eq_some_iff.mp hRead
        dsimp only at hRead
        split at hRead
        · next u₁ hColon =>
            obtain ⟨⟨w, t₂⟩, hItem, hRead⟩ := Option.bind_eq_some_iff.mp hRead
            dsimp only at hRead
            refine Or.inr ⟨u, key, t₁, u₁, w, t₂, hSkip, hKey, hColon, hItem, ?_⟩
            split at hRead
            · next hEnd =>
                cases hRead
                exact Or.inl ⟨hEnd, rfl⟩
            · next more hComma => exact Or.inr ⟨more, hComma, hRead⟩
            · cases hRead
        · cases hRead
    · cases hRead
  · rintro (⟨hSkip, rfl⟩ | ⟨u, key, t₁, u₁, w, t₂, hSkip, hKey, hColon, hItem, hRest⟩)
    · simp only [hSkip]
    · rw [hSkip]
      simp only [hKey, hColon, hItem, Option.bind_eq_bind, Option.bind_some]
      rcases hRest with ⟨hEnd, rfl⟩ | ⟨more, hComma, hRead⟩
      · simp only [hEnd]
      · simp only [hComma]
        exact hRead

end Turns

variable {first second : Text → Option (Json × Text)}

theorem parseArray_extends (hItem : Extends first second) {turns turns' : Nat}
    (hTurns : turns ≤ turns') (res : List Json) :
    Extends (parseArray first turns res) (parseArray second turns' res) := by
  induction turns generalizing turns' res with
  | zero =>
      intro t v rest hRead
      cases hRead
  | succ turns ih =>
      obtain ⟨turns', rfl⟩ : ∃ n, turns' = n + 1 := ⟨turns' - 1, by omega⟩
      intro t v rest hRead more
      refine parseArray_iff.mpr ?_
      rcases parseArray_iff.mp hRead with ⟨hSkip, hValue⟩ | ⟨ch, u, w, t', hSkip, hToken, hFirst,
        hRest⟩
      · exact Or.inl ⟨skipWhite_append hSkip more, hValue⟩
      · refine Or.inr ⟨ch, u ++ more, w, t' ++ more, skipWhite_append hSkip more, hToken,
          hItem _ _ _ hFirst more, ?_⟩
        rcases hRest with ⟨hEnd, hValue⟩ | ⟨others, hComma, hRead⟩
        · exact Or.inl ⟨skipWhite_append hEnd more, hValue⟩
        · exact Or.inr ⟨others ++ more, skipWhite_append hComma more,
            ih (by omega) (res ++ [w]) others v rest hRead more⟩

theorem parseJson_extends (hItem : Extends first second) (hNothing : first [] = none)
    {turns turns' : Nat} (hTurns : turns ≤ turns') (res : List (String × Json)) :
    Extends (parseJson first turns res) (parseJson second turns' res) := by
  induction turns generalizing turns' res with
  | zero =>
      intro t v rest hRead
      cases hRead
  | succ turns ih =>
      obtain ⟨turns', rfl⟩ : ∃ n, turns' = n + 1 := ⟨turns' - 1, by omega⟩
      intro t v rest hRead more
      refine parseJson_iff.mpr ?_
      rcases parseJson_iff.mp hRead with ⟨hSkip, hValue⟩ | ⟨u, key, t₁, u₁, w, t₂, hSkip, hKey,
        hColon, hFirst, hRest⟩
      · exact Or.inl ⟨skipWhite_append hSkip more, hValue⟩
      · have hBegins : skipWhite (u₁ ++ more) = skipWhite u₁ ++ more := by
          cases hValue : skipWhite u₁ with
          | nil =>
              rw [hValue, hNothing] at hFirst
              cases hFirst
          | cons ch u₂ => exact skipWhite_append hValue more
        refine Or.inr ⟨u ++ more, key, t₁ ++ more, u₁ ++ more, w, t₂ ++ more,
          skipWhite_append hSkip more, readKey_extends _ _ _ hKey more,
          skipWhite_append hColon more, ?_, ?_⟩
        · rw [hBegins]
          exact hItem _ _ _ hFirst more
        · rcases hRest with ⟨hEnd, hValue⟩ | ⟨others, hComma, hRead⟩
          · exact Or.inl ⟨skipWhite_append hEnd more, hValue⟩
          · exact Or.inr ⟨others ++ more, skipWhite_append hComma more,
              ih (by omega) _ others v rest hRead more⟩

theorem readValue_nil (levels : Nat) : readValue doubles levels [] = none := by
  cases levels with
  | zero => rfl
  | succ levels => rfl

theorem readValue_extends {levels levels' : Nat} (hLevels : levels ≤ levels') :
    Extends (readValue doubles levels) (readValue doubles levels') := by
  induction levels generalizing levels' with
  | zero =>
      intro t v rest hRead
      cases hRead
  | succ levels ih =>
      obtain ⟨levels', rfl⟩ : ∃ n, levels' = n + 1 := ⟨levels' - 1, by omega⟩
      intro t v rest hRead more
      match t with
      | [] => cases hRead
      | ch :: t =>
          by_cases hQuote : ch = '"'
          · subst hQuote
            obtain ⟨⟨s, u⟩, hString, hValue⟩ := Option.bind_eq_some_iff.mp hRead
            cases hValue
            have hTurns : t.length + 1 ≤ (t ++ more).length + 1 := by
              rw [List.length_append]
              omega
            rw [List.cons_append, readValue, readString_extends hTurns [] t s rest hString more]
            rfl
          · by_cases hBrace : ch = '\x7b'
            · subst hBrace
              exact parseJson_extends (ih (by omega)) (readValue_nil levels) (by simp) [] t v rest
                hRead more
            · by_cases hBracket : ch = '['
              · subst hBracket
                exact parseArray_extends (ih (by omega)) (by simp) [] t v rest hRead more
              · have hToken : ∀ n u, readValue doubles (n + 1) (ch :: u) =
                    readToken doubles (ch :: u) := by
                  intro n u
                  rw [readValue]
                  · exact fun _ hSame => hQuote (List.head_eq_of_cons_eq hSame)
                  · exact fun _ hSame => hBrace (List.head_eq_of_cons_eq hSame)
                  · exact fun _ hSame => hBracket (List.head_eq_of_cons_eq hSame)
                rw [hToken] at hRead
                rw [List.cons_append, hToken]
                exact readToken_extends _ _ _ hRead more

theorem parseFrom_eq {s t : Text} {ch : Char} (hSkip : skipWhite s = ch :: t)
    (hBegins : ch = '\x7b' ∨ ch = '[') :
    parseFrom doubles s = (readValue doubles (s.length + 1) (ch :: t)).bind fun r =>
      if r.2.all isWhiteChar then some r.1 else none := by
  rcases hBegins with rfl | rfl
  · simp only [parseFrom, hSkip]
    rfl
  · simp only [parseFrom, hSkip]
    rfl

theorem parseFrom_begins {s : Text} {v : Json} (hParse : parseFrom doubles s = some v) :
    ∃ ch t, skipWhite s = ch :: t ∧ (ch = '\x7b' ∨ ch = '[') := by
  rw [parseFrom] at hParse
  split at hParse
  · next t hSkip => exact ⟨_, t, hSkip, Or.inl rfl⟩
  · next t hSkip => exact ⟨_, t, hSkip, Or.inr rfl⟩
  · cases hParse

/-- Behind an accepted text there may be white space, and nothing else. -/
theorem parseFrom_append {s : Text} {v : Json} (hParse : parseFrom doubles s = some v)
    (more : Text) :
    parseFrom doubles (s ++ more) = if more.all isWhiteChar then some v else none := by
  obtain ⟨ch, t, hSkip, hBegins⟩ := parseFrom_begins hParse
  rw [parseFrom_eq hSkip hBegins] at hParse
  obtain ⟨⟨w, rest⟩, hRead, hEnd⟩ := Option.bind_eq_some_iff.mp hParse
  dsimp only at hEnd
  split at hEnd
  · next hWhite =>
      cases hEnd
      have hLevels : s.length + 1 ≤ (s ++ more).length + 1 := by
        rw [List.length_append]
        omega
      have hLonger := readValue_extends hLevels (ch :: t) v rest hRead more
      rw [parseFrom_eq (skipWhite_append hSkip more) hBegins]
      rw [List.cons_append] at hLonger
      rw [hLonger, Option.bind_some, List.all_append, hWhite, Bool.true_and]
  · cases hEnd

end Values

end Hengda.CoJson

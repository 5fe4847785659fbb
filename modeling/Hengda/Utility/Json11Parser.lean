import Hengda.Utility.Json11Grammar

/-! The parser accepts exactly the texts of the grammar, with the values that the
grammar assigns. A text of a list or an object that breaks off is not one of them. -/
namespace Hengda.Json11

open Scanning

section Lists

variable {Value : Text → Json11 → Prop} {item : Text → Parsed Json11}

/-- What may stand behind a value. -/
def EndsValue (t : Text) : Prop :=
  Stops continuesNumber t

/-- A character that a value begins with. -/
def BeginsValue (ch : Char) : Prop :=
  isSpace ch = false ∧ ch ≠ ']'

/-- The parser reads every value of the grammar, with white space before it. -/
structure Accepts (Value : Text → Json11 → Prop) (item : Text → Parsed Json11) : Prop where
  begins : ∀ t v, Value t v → ∃ ch u, t = ch :: u ∧ BeginsValue ch
  reads : ∀ before t v rest, Space before → Value t v → EndsValue rest →
    item (before ++ (t ++ rest)) = .ok (v, rest)

/-- The parser reads nothing but values of the grammar. -/
def Sound (Value : Text → Json11 → Prop) (item : Text → Parsed Json11) : Prop :=
  ∀ t v rest, item t = .ok (v, rest) →
    ∃ before u, t = before ++ (u ++ rest) ∧ Space before ∧ Value u v

theorem getNextToken_eq {before : Text} (hBefore : Space before) {ch : Char}
    (hToken : isSpace ch = false) (rest : Text) :
    getNextToken (before ++ ch :: rest) = .ok (ch, rest) := by
  rw [getNextToken, consumeWhitespace, dropWhile_run hBefore (stops_cons.mpr hToken)]

theorem of_getNextToken {t rest : Text} {ch : Char} (hToken : getNextToken t = .ok (ch, rest)) :
    ∃ before, t = before ++ ch :: rest ∧ Space before ∧ isSpace ch = false := by
  rw [getNextToken] at hToken
  split at hToken
  · cases hToken
  · rename_i hRest
    cases hToken
    have hStops : Stops isSpace (t.dropWhile isSpace) := stops_dropWhile t
    rw [consumeWhitespace] at hRest
    rw [hRest, stops_cons] at hStops
    refine ⟨t.takeWhile isSpace, ?_, run_takeWhile t, hStops⟩
    rw [← hRest, List.takeWhile_append_dropWhile]

theorem getNextToken_shorter {t rest : Text} {ch : Char}
    (hToken : getNextToken t = .ok (ch, rest)) : rest.length < t.length := by
  obtain ⟨before, rfl, -, -⟩ := of_getNextToken hToken
  simp only [List.length_append, List.length_cons]
  omega

theorem endsValue_space {after : Text} (hAfter : Space after) : EndsValue after := by
  intro c hHead
  have hSpace := hAfter c (List.mem_of_mem_head? hHead)
  simp only [isSpace, Bool.or_eq_true, decide_eq_true_eq] at hSpace
  rcases hSpace with ((rfl | rfl) | rfl) | rfl <;> rfl

theorem endsValue_append {after : Text} (hAfter : Space after) {ch : Char}
    (hEnd : continuesNumber ch = false) (rest : Text) : EndsValue (after ++ ch :: rest) :=
  stops_append (endsValue_space hAfter) (stops_cons.mpr hEnd)

/-- One turn of the loop over the values of a list. -/
theorem Accepts.item_turn (accepts : Accepts Value item) {before t after : Text} {v : Json11}
    (hBefore : Space before) (hValue : Value t v) (hAfter : Space after) {ch : Char}
    (hEnd : continuesNumber ch = false) (hToken : isSpace ch = false) (rest : Text) :
    ∃ first u, getNextToken (before ++ (t ++ (after ++ ch :: rest))) = .ok (first, u) ∧
      first ≠ ']' ∧ rest.length ≤ u.length ∧
      ∀ turns data, parseItems item (turns + 1) data (first :: u) =
        if ch = ']' then .ok (data ++ [v], rest)
        else if ch ≠ ',' then .error (.expectedCommaInList ch)
        else (getNextToken rest).bind fun (next, u) =>
          parseItems item turns (data ++ [v]) (next :: u) := by
  obtain ⟨first, u, rfl, hFirst, hBracket⟩ := accepts.begins t v hValue
  have hRead := accepts.reads [] (first :: u) v (after ++ ch :: rest) run_nil hValue
    (endsValue_append hAfter hEnd rest)
  refine ⟨first, u ++ (after ++ ch :: rest), getNextToken_eq hBefore hFirst _, hBracket, ?_, ?_⟩
  · simp only [List.length_append, List.length_cons]
    omega
  intro turns data
  rw [List.nil_append, List.cons_append] at hRead
  rw [parseItems, hRead]
  simp only [bind, Except.bind, getNextToken_eq hAfter hToken]

theorem Accepts.items (accepts : Accepts Value item) {t : Text} {vs : List Json11}
    (hItems : Items Value t vs) (rest : Text) :
    ∃ first u, getNextToken (t ++ ']' :: rest) = .ok (first, u) ∧ first ≠ ']' ∧
      vs.length ≤ u.length + 1 ∧ ∀ turns data, vs.length ≤ turns →
        parseItems item turns data (first :: u) = .ok (data ++ vs, rest) := by
  induction hItems with
  | last hBefore hValue hAfter =>
      obtain ⟨first, u, hToken, hBracket, -, hTurn⟩ :=
        accepts.item_turn hBefore hValue hAfter (show continuesNumber ']' = false from rfl) rfl rest
      refine ⟨first, u, ?_, hBracket, Nat.le_add_left _ _, ?_⟩
      · rw [← hToken]
        simp only [List.append_assoc]
      · intro turns data hTurns
        obtain ⟨turns, rfl⟩ := Nat.exists_eq_add_of_le' hTurns
        rw [List.length_singleton, hTurn, if_pos rfl]
  | @more before t after v more vs hBefore hValue hAfter _ ih =>
      obtain ⟨next, w, hNext, -, hLength, hRest⟩ := ih
      obtain ⟨first, u, hToken, hBracket, hShorter, hTurn⟩ :=
        accepts.item_turn hBefore hValue hAfter (show continuesNumber ',' = false from rfl) rfl
          (more ++ ']' :: rest)
      refine ⟨first, u, ?_, hBracket, ?_, ?_⟩
      · rw [← hToken]
        simp only [List.append_assoc, List.cons_append]
      · have hNextShorter := getNextToken_shorter hNext
        rw [List.length_cons]
        omega
      · intro turns data hTurns
        obtain ⟨turns, rfl⟩ := Nat.exists_eq_add_of_le' (Nat.le_trans (Nat.succ_le_succ
          (Nat.zero_le _)) hTurns)
        rw [hTurn, if_neg (by decide), if_neg (by decide), hNext, Except.bind]
        dsimp only
        rw [hRest turns _ (Nat.le_of_succ_le_succ hTurns), List.append_assoc]
        rfl

/-- Every run of the loop over the values of a list has read the values of the grammar. -/
theorem Sound.items (sound : Sound Value item) {turns : Nat} {data result : List Json11}
    {t before rest : Text} {ch : Char} (hBefore : Space before)
    (hParse : parseItems item turns data (ch :: t) = .ok (result, rest)) :
    ∃ u vs, before ++ ch :: t = u ++ ']' :: rest ∧ Items Value u vs ∧ result = data ++ vs := by
  induction turns generalizing data t ch before with
  | zero => cases hParse
  | succ turns ih =>
      simp only [parseItems, bind_eq_ok, Prod.exists] at hParse
      obtain ⟨v, w, hItem, token, x, hToken, hParse⟩ := hParse
      obtain ⟨space, u, hText, hSpace, hValue⟩ := sound _ _ _ hItem
      obtain ⟨after, rfl, hAfter, -⟩ := of_getNextToken hToken
      have hLeading : Space (before ++ space) := run_append.mpr ⟨hBefore, hSpace⟩
      split_ifs at hParse with hClose hComma
      · cases hParse
        refine ⟨_, _, ?_, .last hLeading hValue hAfter, rfl⟩
        rw [hText, hClose]
        simp only [List.append_assoc]
      · simp only [bind_eq_ok, Prod.exists] at hParse
        obtain ⟨next, y, hNext, hParse⟩ := hParse
        obtain ⟨gap, rfl, hGap, -⟩ := of_getNextToken hNext
        obtain ⟨more, vs, hMore, hItems, rfl⟩ := ih hGap hParse
        refine ⟨_, _, ?_, .more hLeading hValue hAfter hItems, ?_⟩
        · rw [hText, hMore, not_not.mp hComma]
          simp only [List.append_assoc, List.cons_append]
        · rw [List.append_assoc]
          rfl

/-- One turn of the loop over the members of an object. -/
theorem Accepts.member_turn (accepts : Accepts Value item) {t : Text} {m : String × Json11}
    (hMember : Member Value t m) {ch : Char} (hEnd : continuesNumber ch = false)
    (hToken : isSpace ch = false) (rest : Text) :
    ∃ u, getNextToken (t ++ ch :: rest) = .ok ('"', u) ∧ rest.length ≤ u.length ∧
      ∀ turns data, parseMembers item (turns + 1) data '"' u =
        if ch = '\x7d' then .ok (insertMember m.1 m.2 data, rest)
        else if ch ≠ ',' then .error (.expectedCommaInObject ch)
        else (getNextToken rest).bind fun (next, u) =>
          parseMembers item turns (insertMember m.1 m.2 data) next u := by
  obtain ⟨hBefore, hKey, hBetween, hColon, hValue, hAfter⟩ := hMember
  rename_i before k key between colon t after v
  obtain ⟨u, hText, hParse⟩ :=
    hKey.parse (between ++ ':' :: (colon ++ (t ++ (after ++ ch :: rest))))
  refine ⟨u, ?_, ?_, ?_⟩
  · rw [← getNextToken_eq hBefore (show isSpace '"' = false from rfl) u, ← hText]
    simp only [List.append_assoc, List.cons_append]
  · have hLength := congrArg List.length hText
    simp only [List.length_append, List.length_cons] at hLength
    omega
  · intro turns data
    rw [parseMembers, if_neg (not_not.mpr rfl), hParse]
    simp only [bind, Except.bind]
    rw [getNextToken_eq hBetween rfl]
    simp only [ne_eq, not_true_eq_false, if_false]
    rw [accepts.reads colon t v _ hColon hValue (endsValue_append hAfter hEnd rest)]
    simp only [getNextToken_eq hAfter hToken]

theorem Accepts.members (accepts : Accepts Value item) {t : Text} {ms : List (String × Json11)}
    (hMembers : Members Value t ms) (rest : Text) :
    ∃ u, getNextToken (t ++ '\x7d' :: rest) = .ok ('"', u) ∧ ms.length ≤ u.length + 1 ∧
      ∀ turns data, ms.length ≤ turns →
        parseMembers item turns data '"' u = .ok (ofMembers ms data, rest) := by
  induction hMembers with
  | last hMember =>
      obtain ⟨u, hToken, -, hTurn⟩ :=
        accepts.member_turn hMember (show continuesNumber '\x7d' = false from rfl) rfl rest
      refine ⟨u, hToken, Nat.le_add_left _ _, fun turns data hTurns => ?_⟩
      obtain ⟨turns, rfl⟩ := Nat.exists_eq_add_of_le' hTurns
      rw [List.length_singleton, hTurn, if_pos rfl]
      rfl
  | @more t m more ms hMember _ ih =>
      obtain ⟨w, hNext, hLength, hRest⟩ := ih
      obtain ⟨u, hToken, hShorter, hTurn⟩ :=
        accepts.member_turn hMember (show continuesNumber ',' = false from rfl) rfl
          (more ++ '\x7d' :: rest)
      refine ⟨u, ?_, ?_, fun turns data hTurns => ?_⟩
      · rw [← hToken]
        simp only [List.append_assoc, List.cons_append]
      · have hNextShorter := getNextToken_shorter hNext
        rw [List.length_cons]
        omega
      · obtain ⟨turns, rfl⟩ := Nat.exists_eq_add_of_le' (Nat.le_trans (Nat.succ_le_succ
          (Nat.zero_le _)) hTurns)
        rw [hTurn, if_neg (by decide), if_neg (by decide), hNext, Except.bind]
        dsimp only
        rw [hRest turns _ (Nat.le_of_succ_le_succ hTurns)]
        rfl

/-- Every run of the loop over the members of an object has read the members of the grammar. -/
theorem Sound.members (sound : Sound Value item) {turns : Nat}
    {data result : List (String × Json11)} {t before rest : Text} {ch : Char}
    (hBefore : Space before)
    (hParse : parseMembers item turns data ch t = .ok (result, rest)) :
    ∃ u ms, before ++ ch :: t = u ++ '\x7d' :: rest ∧ Members Value u ms ∧
      result = ofMembers ms data := by
  induction turns generalizing data t ch before with
  | zero => cases hParse
  | succ turns ih =>
      rw [parseMembers] at hParse
      split_ifs at hParse with hQuote
      simp only [bind_eq_ok, Prod.exists] at hParse
      obtain ⟨key, v, hKey, token, w, hToken, hParse⟩ := hParse
      obtain ⟨k, hText, hString⟩ := IsString.of_parse hKey
      obtain ⟨between, rfl, hBetween, -⟩ := of_getNextToken hToken
      split_ifs at hParse with hColon
      simp only [bind_eq_ok, Prod.exists] at hParse
      obtain ⟨value, x, hItem, close, y, hClose, hParse⟩ := hParse
      obtain ⟨colon, body, rfl, hSpace, hValue⟩ := sound _ _ _ hItem
      obtain ⟨after, rfl, hAfter, -⟩ := of_getNextToken hClose
      have hMember := Member.intro hBefore hString hBetween hSpace hValue hAfter
      have hWhole : before ++ ch :: t =
          (before ++ (k ++ (between ++ ':' :: (colon ++ (body ++ after))))) ++ close :: y := by
        rw [not_not.mp hQuote, hText, not_not.mp hColon]
        simp only [List.append_assoc, List.cons_append]
      split_ifs at hParse with hEnd hComma
      · cases hParse
        exact ⟨_, _, hEnd ▸ hWhole, .last hMember, rfl⟩
      · simp only [bind_eq_ok, Prod.exists] at hParse
        obtain ⟨next, z, hNext, hParse⟩ := hParse
        obtain ⟨gap, rfl, hGap, -⟩ := of_getNextToken hNext
        obtain ⟨more, ms, hMore, hMembers, rfl⟩ := ih hGap hParse
        refine ⟨_, _, ?_, .more hMember hMembers, rfl⟩
        rw [hWhole, hMore, not_not.mp hComma]
        simp only [List.append_assoc, List.cons_append]

theorem parseList_empty {space : Text} (hSpace : Space space) (rest : Text) :
    parseList item (space ++ ']' :: rest) = .ok (.array [], rest) := by
  rw [parseList, getNextToken_eq hSpace rfl]
  rfl

theorem Accepts.list (accepts : Accepts Value item) {t : Text} {vs : List Json11}
    (hItems : Items Value t vs) (rest : Text) :
    parseList item (t ++ ']' :: rest) = .ok (.array vs, rest) := by
  obtain ⟨first, u, hToken, hBracket, hLength, hParse⟩ := accepts.items hItems rest
  rw [parseList, hToken]
  simp only [bind, Except.bind, if_neg hBracket, hParse _ [] hLength, List.nil_append]

theorem parseObject_empty {space : Text} (hSpace : Space space) (rest : Text) :
    parseObject item (space ++ '\x7d' :: rest) = .ok (.object [], rest) := by
  rw [parseObject, getNextToken_eq hSpace rfl]
  rfl

theorem Accepts.object (accepts : Accepts Value item) {t : Text} {ms : List (String × Json11)}
    (hMembers : Members Value t ms) (rest : Text) :
    parseObject item (t ++ '\x7d' :: rest) = .ok (.object (ofMembers ms []), rest) := by
  obtain ⟨u, hToken, hLength, hParse⟩ := accepts.members hMembers rest
  rw [parseObject, hToken]
  simp only [bind, Except.bind, if_neg (show '"' ≠ '\x7d' by decide), hParse _ [] hLength]

end Lists

section Values

variable (doubles : Doubles) {Inner : Text → Json11 → Prop} {levels : Nat}

theorem Sound.list {item : Text → Parsed Json11} (sound : Sound Inner item) {t rest : Text}
    {v : Json11} (hParse : parseList item t = .ok (v, rest)) :
    ∃ u, '[' :: t = u ++ rest ∧ ValueOver doubles Inner u v := by
  simp only [parseList, bind_eq_ok, Prod.exists] at hParse
  obtain ⟨ch, u, hToken, hParse⟩ := hParse
  obtain ⟨before, rfl, hBefore, -⟩ := of_getNextToken hToken
  split_ifs at hParse with hClose
  · cases hParse
    refine ⟨_, ?_, .emptyArray hBefore⟩
    rw [hClose]
    simp
  · simp only [bind_eq_ok, Prod.exists] at hParse
    obtain ⟨vs, w, hRead, hParse⟩ := hParse
    cases hParse
    obtain ⟨body, vs, hText, hItems, rfl⟩ := sound.items hBefore hRead
    refine ⟨_, ?_, .array hItems⟩
    rw [hText]
    simp

theorem Sound.object {item : Text → Parsed Json11} (sound : Sound Inner item) {t rest : Text}
    {v : Json11} (hParse : parseObject item t = .ok (v, rest)) :
    ∃ u, '\x7b' :: t = u ++ rest ∧ ValueOver doubles Inner u v := by
  simp only [parseObject, bind_eq_ok, Prod.exists] at hParse
  obtain ⟨ch, u, hToken, hParse⟩ := hParse
  obtain ⟨before, rfl, hBefore, -⟩ := of_getNextToken hToken
  split_ifs at hParse with hClose
  · cases hParse
    refine ⟨_, ?_, .emptyObject hBefore⟩
    rw [hClose]
    simp
  · simp only [bind_eq_ok, Prod.exists] at hParse
    obtain ⟨ms, w, hRead, hParse⟩ := hParse
    cases hParse
    obtain ⟨body, ms, hText, hMembers, rfl⟩ := sound.members hBefore hRead
    refine ⟨_, ?_, .object hMembers⟩
    rw [hText]
    simp

/-- `parse_json` from the first character of a value on. -/
theorem parseJson_token {before : Text} (hBefore : Space before) {ch : Char}
    (hToken : isSpace ch = false) (t : Text) :
    parseJson doubles (levels + 1) (before ++ ch :: t) =
      if ch = '-' ∨ isDigit ch then
        (parseNumeral (ch :: t)).bind fun (n, t) => .ok (n.read doubles, t)
      else if ch = 't' then expect trueText (.bool true) (ch :: t)
      else if ch = 'f' then expect falseText (.bool false) (ch :: t)
      else if ch = 'n' then expect nullText .null (ch :: t)
      else if ch = '"' then
        (parseString [] none t).bind fun (out, t) => .ok (.string (String.ofList out), t)
      else if ch = '\x7b' then parseObject (parseJson doubles levels) t
      else if ch = '[' then parseList (parseJson doubles levels) t
      else .error (.expectedValue ch) := by
  change (getNextToken (before ++ ch :: t)).bind _ = _
  rw [getNextToken_eq hBefore hToken]
  rfl

theorem expect_eq {expected t rest : Text} {res v : Json11} :
    expect expected res t = .ok (v, rest) ↔ t = expected ++ rest ∧ v = res := by
  rw [expect]
  constructor
  · intro hParse
    split_ifs at hParse with hTake
    cases hParse
    refine ⟨?_, rfl⟩
    conv_lhs => rw [← List.take_append_drop expected.length t, hTake]
  · rintro ⟨rfl, rfl⟩
    rw [List.take_left, if_pos rfl, List.drop_left]

/-- A number begins with its sign or a digit. -/
theorem beginsValue_number {ch : Char} (hCh : ch = '-' ∨ isDigit ch = true) : BeginsValue ch := by
  rcases hCh with rfl | hDigit
  · exact ⟨rfl, by decide⟩
  · refine ⟨?_, ?_⟩
    · rw [← Bool.not_eq_true]
      intro hSpace
      simp only [isSpace, Bool.or_eq_true, decide_eq_true_eq] at hSpace
      rcases hSpace with ((rfl | rfl) | rfl) | rfl <;> cases hDigit
    · rintro rfl
      cases hDigit

theorem ValueOver.begins {t : Text} {v : Json11} (hValue : ValueOver doubles Inner t v) :
    ∃ ch u, t = ch :: u ∧ BeginsValue ch := by
  cases hValue with
  | null => exact ⟨'n', _, rfl, rfl, by decide⟩
  | true => exact ⟨'t', _, rfl, rfl, by decide⟩
  | false => exact ⟨'f', _, rfl, rfl, by decide⟩
  | number hValid =>
      obtain ⟨ch, u, hText, hCh⟩ := hValid.text_head
      exact ⟨ch, u, hText, beginsValue_number hCh⟩
  | string hString =>
      obtain ⟨units, rfl, -⟩ := hString
      exact ⟨'"', _, rfl, rfl, by decide⟩
  | emptyArray => exact ⟨'[', _, rfl, rfl, by decide⟩
  | array => exact ⟨'[', _, rfl, rfl, by decide⟩
  | emptyObject => exact ⟨'\x7b', _, rfl, rfl, by decide⟩
  | object => exact ⟨'\x7b', _, rfl, rfl, by decide⟩

/-- `is_number` -/
def isNumber : Json11 → Bool
  | .int _ => true
  | .double _ => true
  | _ => false

theorem Numeral.read_isNumber (n : Numeral) : (n.read doubles).isNumber = true := by
  rw [Numeral.read]
  split_ifs <;> rfl

/-- A value other than a number is read whatever stands behind it. -/
theorem Accepts.reads_closed (accepts : Accepts Inner (parseJson doubles levels))
    {before t : Text} {v : Json11} (hBefore : Space before)
    (hValue : ValueOver doubles Inner t v) (rest : Text)
    (hClosed : v.isNumber = false) :
    parseJson doubles (levels + 1) (before ++ (t ++ rest)) = .ok (v, rest) := by
  cases hValue with
  | null =>
      rw [nullText, List.cons_append, parseJson_token doubles hBefore rfl, if_neg (by decide),
        if_neg (by decide), if_neg (by decide), if_pos rfl]
      exact expect_eq.mpr ⟨rfl, rfl⟩
  | true =>
      rw [trueText, List.cons_append, parseJson_token doubles hBefore rfl, if_neg (by decide),
        if_pos rfl]
      exact expect_eq.mpr ⟨rfl, rfl⟩
  | false =>
      rw [falseText, List.cons_append, parseJson_token doubles hBefore rfl, if_neg (by decide),
        if_neg (by decide), if_pos rfl]
      exact expect_eq.mpr ⟨rfl, rfl⟩
  | number =>
      rw [Numeral.read_isNumber] at hClosed
      cases hClosed
  | string hString =>
      obtain ⟨u, hText, hParse⟩ := hString.parse rest
      rw [hText, parseJson_token doubles hBefore rfl]
      simp [isDigit, hParse, Except.bind]
  | emptyArray hSpace =>
      rw [List.cons_append, parseJson_token doubles hBefore rfl, List.append_assoc]
      exact parseList_empty hSpace rest
  | array hItems =>
      rw [List.cons_append, parseJson_token doubles hBefore rfl, List.append_assoc]
      exact accepts.list hItems rest
  | emptyObject hSpace =>
      rw [List.cons_append, parseJson_token doubles hBefore rfl, List.append_assoc]
      exact parseObject_empty hSpace rest
  | object hMembers =>
      rw [List.cons_append, parseJson_token doubles hBefore rfl, List.append_assoc]
      exact accepts.object hMembers rest

theorem reads_number {before rest : Text} (hBefore : Space before) {n : Numeral}
    (hValid : n.Valid) (hRest : EndsValue rest) :
    parseJson doubles (levels + 1) (before ++ (n.text ++ rest)) =
      .ok (n.read doubles, rest) := by
  obtain ⟨ch, u, hText, hCh⟩ := hValid.text_head
  have hParse := hValid.parse hRest
  rw [hText, List.cons_append] at hParse ⊢
  rw [parseJson_token doubles hBefore (beginsValue_number hCh).1, if_pos hCh, hParse, Except.bind]

/-- `parse_json` reads every value that is not nested too deep. -/
theorem accepts_parseJson : ∀ levels, Accepts (IsValue doubles levels) (parseJson doubles levels)
  | 0 => ⟨fun _ _ hValue => hValue.elim, fun _ _ _ _ _ hValue => hValue.elim⟩
  | levels + 1 => by
      have accepts := accepts_parseJson levels
      refine ⟨fun t v hValue => ValueOver.begins doubles hValue, ?_⟩
      intro before t v rest hBefore hValue hRest
      cases hNumber : v.isNumber with
      | false => exact accepts.reads_closed doubles hBefore hValue rest hNumber
      | true =>
          cases hValue with
          | number hValid => exact reads_number doubles hBefore hValid hRest
          | _ => cases hNumber

/-- `parse_json` reads nothing else. -/
theorem sound_parseJson : ∀ levels, Sound (IsValue doubles levels) (parseJson doubles levels)
  | 0 => fun _ _ _ hParse => by cases hParse
  | levels + 1 => by
      have sound := sound_parseJson levels
      intro t v rest hParse
      have hStart : ∃ ch u, getNextToken t = .ok (ch, u) := by
        obtain ⟨⟨ch, u⟩, hToken, -⟩ := bind_eq_ok.mp hParse
        exact ⟨ch, u, hToken⟩
      obtain ⟨ch, u, hToken⟩ := hStart
      obtain ⟨before, rfl, hBefore, hCh⟩ := of_getNextToken hToken
      rw [parseJson_token doubles hBefore hCh] at hParse
      suffices hSuffices : ∃ w, ch :: u = w ++ rest ∧ IsValue doubles (levels + 1) w v by
        obtain ⟨w, hText, hValue⟩ := hSuffices
        exact ⟨before, w, by rw [hText], hBefore, hValue⟩
      split_ifs at hParse with hNumber hTrue hFalse hNull hString hObject hList
      · obtain ⟨⟨n, w⟩, hNumeral, hParse⟩ := bind_eq_ok.mp hParse
        cases hParse
        obtain ⟨hText, hValid⟩ := Numeral.of_parse hNumeral
        exact ⟨_, hText, .number hValid⟩
      · obtain ⟨hText, rfl⟩ := expect_eq.mp hParse
        exact ⟨_, hText, .true⟩
      · obtain ⟨hText, rfl⟩ := expect_eq.mp hParse
        exact ⟨_, hText, .false⟩
      · obtain ⟨hText, rfl⟩ := expect_eq.mp hParse
        exact ⟨_, hText, .null⟩
      · obtain ⟨⟨out, w⟩, hOut, hParse⟩ := bind_eq_ok.mp hParse
        cases hParse
        obtain ⟨k, hText, hValue⟩ := IsString.of_parse hOut
        exact ⟨k, hString ▸ hText, .string hValue⟩
      · exact hObject ▸ sound.object doubles hParse
      · exact hList ▸ sound.list doubles hParse

theorem document_eq_ok {t : Text} {v : Json11} :
    document doubles t = .ok v ↔
      ∃ rest, parseJson doubles (maxDepth + 1) t = .ok (v, rest) ∧ Space rest := by
  simp only [document, bind_eq_ok, Prod.exists]
  constructor
  · rintro ⟨result, rest, hJson, hParse⟩
    split at hParse
    · rename_i hEnd
      cases hParse
      have hRest : rest.takeWhile isSpace ++ consumeWhitespace rest = rest :=
        List.takeWhile_append_dropWhile
      rw [hEnd, List.append_nil] at hRest
      exact ⟨rest, hJson, hRest ▸ run_takeWhile rest⟩
    · cases hParse
  · rintro ⟨rest, hJson, hRest⟩
    have hRun := dropWhile_run hRest (stops_nil : Stops isSpace [])
    rw [List.append_nil] at hRun
    refine ⟨v, rest, hJson, ?_⟩
    rw [consumeWhitespace, hRun]

/-- The texts that json11 reads are the texts of the grammar, and it reads them as the
values that the grammar says. -/
theorem document_iff {t : Text} {v : Json11} :
    document doubles t = .ok v ↔ IsDocument doubles t v := by
  rw [document_eq_ok]
  constructor
  · rintro ⟨rest, hParse, hRest⟩
    obtain ⟨before, body, rfl, hBefore, hValue⟩ := sound_parseJson doubles _ _ _ _ hParse
    exact ⟨before, body, rest, rfl, hBefore, hRest, hValue⟩
  · rintro ⟨before, body, after, rfl, hBefore, hAfter, hValue⟩
    exact ⟨after, (accepts_parseJson doubles _).reads _ _ _ _ hBefore hValue
      (endsValue_space hAfter), hAfter⟩

/-- A value of a text is a number exactly if the text begins like one. -/
theorem isNumber_of_begins {ch : Char} (hCh : ch = '-' ∨ isDigit ch = true) {before t : Text}
    (hBefore : Space before) {v : Json11} {rest : Text}
    (hParse : parseJson doubles (levels + 1) (before ++ ch :: t) = .ok (v, rest)) :
    v.isNumber = true := by
  rw [parseJson_token doubles hBefore (beginsValue_number hCh).1, if_pos hCh] at hParse
  obtain ⟨⟨n, w⟩, -, hParse⟩ := bind_eq_ok.mp hParse
  cases hParse
  exact Numeral.read_isNumber doubles n

/-- Where the whole text is read as anything but a number, no part of it that leaves out
more than white space is read at all. -/
theorem document_unfinished {part missing : Text} {v : Json11}
    (hWhole : document doubles (part ++ missing) = .ok v) (hClosed : v.isNumber = false)
    (hMissing : ¬Space missing) : (document doubles part).isOk = false := by
  cases hPart : document doubles part with
  | error failure => rfl
  | ok w =>
      exfalso
      obtain ⟨rest, hParse, hRest⟩ := (document_eq_ok doubles).mp hWhole
      obtain ⟨before, body, after, rfl, hBefore, -, hValue⟩ := (document_iff doubles).mp hPart
      rw [List.append_assoc, List.append_assoc] at hParse
      cases hNumber : w.isNumber with
      | false =>
          have hRead := (accepts_parseJson doubles maxDepth).reads_closed doubles hBefore hValue
            (after ++ missing) hNumber
          rw [hParse, Except.ok.injEq, Prod.mk.injEq] at hRead
          rw [hRead.2] at hRest
          exact hMissing (run_append.mp hRest).2
      | true =>
          obtain ⟨n, hValid, rfl⟩ : ∃ n : Numeral, n.Valid ∧ body = n.text := by
            cases hValue with
            | number hValid => exact ⟨_, hValid, rfl⟩
            | _ => cases hNumber
          obtain ⟨ch, u, hText, hCh⟩ := hValid.text_head
          rw [hText] at hParse
          rw [isNumber_of_begins doubles hCh hBefore hParse] at hClosed
          cases hClosed

/-- The parser reads the texts of the grammar and no others; it gives one value for each of
them, the one that the grammar says; and it notices when the end is missing. -/
theorem document_exact (t : Text) :
    (∀ v, document doubles t = .ok v ↔ IsDocument doubles t v) ∧
      (∀ v w, IsDocument doubles t v → IsDocument doubles t w → v = w) ∧
      ∀ part missing v, t = part ++ missing → IsDocument doubles t v → v.isNumber = false →
        ¬Space missing → (document doubles part).isOk = false := by
  refine ⟨fun v => document_iff doubles, ?_, ?_⟩
  · intro v w hFirst hSecond
    have hRead := (document_iff doubles).mpr hFirst
    rw [(document_iff doubles).mpr hSecond, Except.ok.injEq] at hRead
    exact hRead.symm
  · rintro part missing v rfl hDocument hClosed hMissing
    exact document_unfinished doubles ((document_iff doubles).mpr hDocument) hClosed hMissing

end Values

section Failures

theorem append_ne_empty {s : String} (hText : s ≠ "") (t : String) : s ++ t ≠ "" := by
  rw [Ne, String.append_eq_empty_iff]
  exact fun hBoth => hText hBoth.1

theorem ParseFailure.message_ne_empty (failure : ParseFailure) : failure.message ≠ "" := by
  cases failure with
  | unescaped ch => exact append_ne_empty (append_ne_empty (by decide) _) _
  | invalidNumber ch => exact append_ne_empty (append_ne_empty (by decide) _) _
  | expected text got =>
      exact append_ne_empty (append_ne_empty (append_ne_empty (by decide) _) _) _
  | badEscape text => exact append_ne_empty (by decide) _
  | invalidEscape ch => exact append_ne_empty (by decide) _
  | expectedValue ch => exact append_ne_empty (by decide) _
  | expectedKey ch => exact append_ne_empty (by decide) _
  | expectedColon ch => exact append_ne_empty (by decide) _
  | expectedCommaInObject ch => exact append_ne_empty (by decide) _
  | expectedCommaInList ch => exact append_ne_empty (by decide) _
  | trailing ch => exact append_ne_empty (by decide) _
  | _ => decide

/-- The callers look at the message alone to see whether there is a value. -/
theorem parse_error_ne_nil (doubles : Doubles) {t err : Text}
    (hError : parse doubles t = .error err) : err ≠ [] := by
  rw [parse] at hError
  split at hError
  · cases hError
  · cases hError
    rw [Ne, String.toList_eq_nil_iff]
    exact ParseFailure.message_ne_empty _

end Failures

end Hengda.Json11

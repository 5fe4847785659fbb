import Hengda.Base.JsonReads

/-! What the parser makes of a printed value, with or without line breaks: the same value,
if its doubles can be told from whole numbers by their texts. -/
namespace Hengda.CoJson

open Scanning

section Values

variable (doubles : Doubles)

mutual

/-- A value that C strings and 64 bits can hold. -/
def Storable : Json → Prop
  | .int n => -9223372036854775808 ≤ n ∧ n < 9223372036854775808
  | .string s => ∀ ch ∈ s.toList, ch ≠ '\x00'
  | .array items => StorableItems items
  | .object members => StorableMembers members
  | _ => True

def StorableItems : List Json → Prop
  | [] => True
  | v :: rest => Storable v ∧ StorableItems rest

def StorableMembers : List (String × Json) → Prop
  | [] => True
  | (key, v) :: rest => (IsKey key.toList ∧ Storable v) ∧ StorableMembers rest

end

mutual

/-- What a printed value is read back as. A double comes back as whatever its text is, which
may be a whole number, and where that is no value the document is not read at all. -/
def reread : Json → Option Json
  | .double q => tokenValue doubles (doubles.print q)
  | .array items => (rereadItems items).map .array
  | .object members => (rereadMembers members).map .object
  | v => some v

def rereadItems : List Json → Option (List Json)
  | [] => some []
  | v :: rest => (reread v).bind fun v => (rereadItems rest).map fun vs => v :: vs

def rereadMembers : List (String × Json) → Option (List (String × Json))
  | [] => some []
  | (key, v) :: rest =>
      (reread v).bind fun v => (rereadMembers rest).map fun ms => (key, v) :: ms

end

/-- A value whose text closes itself. -/
def isClosed : Json → Bool
  | .string _ => true
  | .array _ => true
  | .object _ => true
  | _ => false

variable {doubles}

theorem reads_word {ch : Char} {body : Text} (hBegins : BeginsToken ch)
    (hBody : Run (fun c => !isDelimiter c) body) (hPoints : body.count '.' ≤ 1) {v : Json}
    (hValue : tokenValue doubles (ch :: body) = some v) :
    Reads doubles false (ch :: body) (some v) := by
  rw [← hValue]
  exact .token hBegins hBody hPoints

theorem reads_null : Reads doubles false nullText (some .null) :=
  reads_word ⟨rfl, by decide, by decide, by decide, by decide⟩ (by simp; decide) (by decide) rfl

theorem reads_bool (b : Bool) : Reads doubles false (strBool b) (some (.bool b)) := by
  cases b with
  | false =>
      exact reads_word ⟨rfl, by decide, by decide, by decide, by decide⟩ (by simp; decide)
        (by decide) rfl
  | true =>
      exact reads_word ⟨rfl, by decide, by decide, by decide, by decide⟩ (by simp; decide)
        (by decide) rfl

theorem reads_double (plain : doubles.Plain) (q : ℚ) :
    Reads doubles false (doubles.print q) (tokenValue doubles (doubles.print q)) := by
  obtain ⟨ch, body, hPrint, hSign, hBody, hPoints⟩ := plain.head q
  rw [hPrint]
  exact .number hSign hBody hPoints

theorem bind_nil {v : Option Json} :
    (v.bind fun v => (some []).map fun vs => v :: vs) = v.map fun v => [v] := by
  cases v <;> rfl

theorem bind_nil_member {key : String} {v : Option Json} :
    (v.bind fun v => (some []).map fun ms => (key, v) :: ms) = v.map fun v => [(key, v)] := by
  cases v <;> rfl

theorem white_nil : White [] := run_nil

mutual

theorem reads_str (plain : doubles.Plain) : ∀ v, Storable v →
    Reads doubles (isClosed v) (str doubles v) (reread doubles v)
  | .null, _ => reads_null
  | .bool b, _ => reads_bool b
  | .int n, hRange => .int hRange
  | .double q, _ => reads_double plain q
  | .string s, hZero => .string hZero
  | .array items, hItems => by
      by_cases hNil : items = []
      · rw [hNil]
        exact .array readsItems_nil
      · exact .array (reads_strItems plain items hNil hItems)
  | .object members, hMembers => by
      by_cases hNil : members = []
      · rw [hNil]
        exact .object readsMembers_nil
      · exact .object (reads_strMembers plain members hNil hMembers)

theorem reads_strItems (plain : doubles.Plain) : ∀ items, items ≠ [] → StorableItems items →
    ReadsItems doubles (strItems doubles items ++ [']']) (rereadItems doubles items)
  | [], hNil, _ => absurd rfl hNil
  | [v], _, hItems => by
      have hLast := (reads_str plain v hItems.1).last_item white_nil white_nil
      rw [rereadItems, rereadItems, bind_nil]
      exact hLast
  | v :: w :: rest, _, hItems => by
      have hMore := (reads_str plain v hItems.1).more_items
        (reads_strItems plain (w :: rest) (List.cons_ne_nil w rest) hItems.2) white_nil white_nil
      rw [rereadItems, strItems, List.append_assoc]
      exact hMore

theorem reads_strMembers (plain : doubles.Plain) : ∀ members, members ≠ [] →
    StorableMembers members →
    ReadsMembers doubles (strMembers doubles members ++ ['\x7d']) (rereadMembers doubles members)
  | [], hNil, _ => absurd rfl hNil
  | [(key, v)], _, hMembers => by
      have hLast := (reads_str plain v hMembers.1.2).last_member hMembers.1.1 white_nil white_nil
        white_nil
      rw [String.ofList_toList] at hLast
      rw [rereadMembers, rereadMembers, bind_nil_member, strMembers, strKey]
      simp only [List.append_assoc, List.cons_append, List.nil_append] at hLast ⊢
      exact hLast
  | (key, v) :: m :: rest, _, hMembers => by
      have hMore := (reads_str plain v hMembers.1.2).more_members hMembers.1.1
        (reads_strMembers plain (m :: rest) (List.cons_ne_nil m rest) hMembers.2) white_nil
        white_nil white_nil
      rw [String.ofList_toList] at hMore
      rw [rereadMembers, strMembers, strKey]
      simp only [List.append_assoc, List.cons_append, List.nil_append] at hMore ⊢
      exact hMore

end

theorem white_spaces (n : Nat) : White (List.replicate n ' ') := by
  intro ch hMem
  rw [List.eq_of_mem_replicate hMem]
  rfl

theorem white_line (n : Nat) : White ('\n' :: List.replicate n ' ') :=
  run_cons.mpr ⟨rfl, white_spaces n⟩

mutual

theorem reads_pretty (plain : doubles.Plain) (indent : Nat) : ∀ v, Storable v → ∀ current,
    Reads doubles (isClosed v) (pretty doubles indent current v) (reread doubles v)
  | .null, _, _ => reads_null
  | .bool b, _, _ => reads_bool b
  | .int n, hRange, _ => .int hRange
  | .double q, _, _ => reads_double plain q
  | .string s, hZero, _ => .string hZero
  | .array items, hItems, current => by
      by_cases hNil : items = []
      · rw [hNil]
        exact .array readsItems_nil
      · rw [pretty, if_neg (by rwa [List.isEmpty_iff])]
        exact .array (reads_prettyItems plain indent items hNil hItems current _)
  | .object members, hMembers, current => by
      by_cases hNil : members = []
      · rw [hNil]
        exact .object readsMembers_nil
      · rw [pretty, if_neg (by rwa [List.isEmpty_iff])]
        exact .object (reads_prettyMembers plain indent members hNil hMembers current _)

theorem reads_prettyItems (plain : doubles.Plain) (indent : Nat) : ∀ items, items ≠ [] →
    StorableItems items → ∀ current last,
    ReadsItems doubles ('\n' :: (prettyItems doubles indent current items ++
      ('\n' :: (List.replicate last ' ' ++ [']'])))) (rereadItems doubles items)
  | [], hNil, _, _, _ => absurd rfl hNil
  | [v], _, hItems, current, last => by
      have hLast := (reads_pretty plain indent v hItems.1 (current + indent)).last_item
        (white_line current) (white_line last)
      rw [rereadItems, rereadItems, bind_nil, prettyItems]
      exact hLast
  | v :: w :: rest, _, hItems, current, last => by
      have hMore := (reads_pretty plain indent v hItems.1 (current + indent)).more_items
        (reads_prettyItems plain indent (w :: rest) (List.cons_ne_nil w rest) hItems.2 current last)
        (white_line current) white_nil
      rw [rereadItems, prettyItems]
      simp only [List.append_assoc, List.cons_append, List.nil_append] at hMore ⊢
      exact hMore

theorem reads_prettyMembers (plain : doubles.Plain) (indent : Nat) : ∀ members, members ≠ [] →
    StorableMembers members → ∀ current last,
    ReadsMembers doubles ('\n' :: (prettyMembers doubles indent current members ++
      ('\n' :: (List.replicate last ' ' ++ ['\x7d'])))) (rereadMembers doubles members)
  | [], hNil, _, _, _ => absurd rfl hNil
  | [(key, v)], _, hMembers, current, last => by
      have hLast := (reads_pretty plain indent v hMembers.1.2 (current + indent)).last_member
        hMembers.1.1 (white_line current) (white_spaces 1) (white_line last)
      rw [String.ofList_toList] at hLast
      rw [rereadMembers, rereadMembers, bind_nil_member, prettyMembers, strKey]
      simp only [List.append_assoc, List.cons_append, List.nil_append, List.replicate_one]
        at hLast ⊢
      exact hLast
  | (key, v) :: m :: rest, _, hMembers, current, last => by
      have hMore := (reads_pretty plain indent v hMembers.1.2 (current + indent)).more_members
        hMembers.1.1
        (reads_prettyMembers plain indent (m :: rest) (List.cons_ne_nil m rest) hMembers.2 current
          last) (white_line current) (white_spaces 1) white_nil
      rw [String.ofList_toList] at hMore
      rw [rereadMembers, prettyMembers, strKey]
      simp only [List.append_assoc, List.cons_append, List.nil_append, List.replicate_one]
        at hMore ⊢
      exact hMore

end

/-- A document is one list or object with white space around it. -/
theorem Reads.document {t : Text} {v : Option Json} (reads : Reads doubles true t v)
    (hHead : t.head? = some '\x7b' ∨ t.head? = some '[') {before after : Text}
    (hBefore : White before) (hAfter : White after) :
    parseFrom doubles (before ++ t ++ after) = v := by
  have hRead := reads.reads ((before ++ t ++ after).length + 1) after
    (by simp only [List.length_append]; omega) (endsValue_white hAfter) (fun _ => rfl)
  have hEnd : after.all isWhiteChar = true := List.all_eq_true.mpr hAfter
  obtain ⟨ch, u, rfl, hToken, -⟩ := reads.begins
  rw [parseFrom]
  simp only [List.append_assoc, List.cons_append, skipWhite_eq hBefore hToken] at hRead ⊢
  rcases hHead with hHead | hHead
  · cases hHead
    simp only [hRead]
    cases v with
    | none => rfl
    | some v => simp only [Option.map_some, Option.bind_eq_bind, Option.bind_some, hEnd, if_true]
  · cases hHead
    simp only [hRead]
    cases v with
    | none => rfl
    | some v => simp only [Option.map_some, Option.bind_eq_bind, Option.bind_some, hEnd, if_true]

/-- A value that can stand on its own in a document. -/
def IsContainer : Json → Prop
  | .array _ => True
  | .object _ => True
  | _ => False

theorem parseFrom_str (plain : doubles.Plain) {v : Json} (hStorable : Storable v)
    (hContainer : IsContainer v) : parseFrom doubles (str doubles v) = reread doubles v := by
  have hStr := reads_str plain v hStorable
  cases v with
  | array items =>
      have hRead := hStr.document (Or.inr rfl) white_nil white_nil
      rwa [List.nil_append, List.append_nil] at hRead
  | object members =>
      have hRead := hStr.document (Or.inl rfl) white_nil white_nil
      rwa [List.nil_append, List.append_nil] at hRead
  | _ => exact hContainer.elim

end Values

section Again

variable {doubles : Doubles}

/-- What seven digits keep. A number without a point is printed as the whole number that it
is read as, and what is read from a printed number is printed like it. -/
structure Doubles.Lawful (doubles : Doubles) : Prop extends doubles.Plain where
  whole : ∀ q n, fastatoi (doubles.print q) = some n → doubles.print q = (toString n).toList
  again : ∀ q r, doubles.toDouble (doubles.print q) = some r → doubles.print r = doubles.print q

/-- Halves, as far as they are needed. -/
def sampleDoubles : Doubles where
  print q := if q = 1 / 2 then ['0', '.', '5'] else ['7']
  toDouble t := if t = ['0', '.', '5'] then some (1 / 2) else none

theorem sampleDoubles_lawful : sampleDoubles.Lawful where
  head := by
    intro q
    by_cases hHalf : q = 1 / 2
    · exact ⟨'0', ['.', '5'], if_pos hHalf, Or.inr rfl, by simp; decide, by decide⟩
    · exact ⟨'7', [], if_neg hHalf, Or.inr rfl, run_nil, by decide⟩
  whole := by
    intro q n hWhole
    by_cases hHalf : q = 1 / 2
    · rw [show sampleDoubles.print q = ['0', '.', '5'] from if_pos hHalf] at hWhole
      exact absurd hWhole (by simp [fastatoi])
    · rw [show sampleDoubles.print q = ['7'] from if_neg hHalf] at hWhole ⊢
      have hSeven : fastatoi ['7'] = some 7 := by decide
      rw [hSeven, Option.some.injEq] at hWhole
      rw [← hWhole]
      decide
  again := by
    intro q r hAgain
    by_cases hHalf : q = 1 / 2
    · rw [show sampleDoubles.print q = ['0', '.', '5'] from if_pos hHalf] at hAgain ⊢
      cases hAgain
      exact if_pos rfl
    · rw [show sampleDoubles.print q = ['7'] from if_neg hHalf] at hAgain
      exact absurd hAgain (by simp [sampleDoubles])

theorem reread_double (lawful : doubles.Lawful) {q : ℚ} {w : Json}
    (hRead : tokenValue doubles (doubles.print q) = some w) :
    str doubles w = doubles.print q ∧ reread doubles w = some w := by
  obtain ⟨ch, body, hPrint, hSign, hBody, hPoints⟩ := lawful.head q
  by_cases hPoint : ∀ c ∈ body, c ≠ '.'
  · rw [tokenValue_whole (by rw [hPrint]; rfl) hSign (by rwa [hPrint]),
      Option.map_eq_some_iff] at hRead
    obtain ⟨n, hWhole, rfl⟩ := hRead
    exact ⟨(lawful.whole q n hWhole).symm, rfl⟩
  · have hDouble : tokenValue doubles (doubles.print q) =
        (doubles.toDouble (doubles.print q)).map .double := by
      rw [tokenValue_number (by rw [hPrint]; rfl) hSign, if_neg]
      rw [hPrint]
      intro hAll
      exact hPoint fun c hMem => of_decide_eq_true (List.all_eq_true.mp hAll c hMem)
    rw [hDouble, Option.map_eq_some_iff] at hRead
    obtain ⟨r, hAgain, rfl⟩ := hRead
    have hSame : doubles.print r = doubles.print q := lawful.again q r hAgain
    refine ⟨hSame, ?_⟩
    rw [reread, hSame, hDouble, hAgain]
    rfl

theorem rereadItems_cons {v : Json} {rest ws : List Json} :
    rereadItems doubles (v :: rest) = some ws ↔
      ∃ w more, ws = w :: more ∧ reread doubles v = some w ∧
        rereadItems doubles rest = some more := by
  simp only [rereadItems, Option.bind_eq_some_iff, Option.map_eq_some_iff]
  constructor
  · rintro ⟨w, hValue, more, hRest, rfl⟩
    exact ⟨w, more, rfl, hValue, hRest⟩
  · rintro ⟨w, more, rfl, hValue, hRest⟩
    exact ⟨w, hValue, more, hRest, rfl⟩

theorem rereadMembers_cons {key : String} {v : Json} {rest ms : List (String × Json)} :
    rereadMembers doubles ((key, v) :: rest) = some ms ↔
      ∃ w more, ms = (key, w) :: more ∧ reread doubles v = some w ∧
        rereadMembers doubles rest = some more := by
  simp only [rereadMembers, Option.bind_eq_some_iff, Option.map_eq_some_iff]
  constructor
  · rintro ⟨w, hValue, more, hRest, rfl⟩
    exact ⟨w, more, rfl, hValue, hRest⟩
  · rintro ⟨w, more, rfl, hValue, hRest⟩
    exact ⟨w, hValue, more, hRest, rfl⟩

mutual

/-- What has been read back once has the same text and does not change any more. -/
theorem reread_settles (lawful : doubles.Lawful) : ∀ v w, reread doubles v = some w →
    str doubles w = str doubles v ∧ reread doubles w = some w
  | .null, w, hRead => by
      cases hRead
      exact ⟨rfl, rfl⟩
  | .bool b, w, hRead => by
      cases hRead
      exact ⟨rfl, rfl⟩
  | .int n, w, hRead => by
      cases hRead
      exact ⟨rfl, rfl⟩
  | .double q, w, hRead => reread_double lawful hRead
  | .string s, w, hRead => by
      cases hRead
      exact ⟨rfl, rfl⟩
  | .array items, w, hRead => by
      obtain ⟨ws, hItems, rfl⟩ := Option.map_eq_some_iff.mp hRead
      obtain ⟨hText, hAgain⟩ := reread_items_settle lawful items ws hItems
      rw [str, str, hText, reread, hAgain]
      exact ⟨rfl, rfl⟩
  | .object members, w, hRead => by
      obtain ⟨ms, hMembers, rfl⟩ := Option.map_eq_some_iff.mp hRead
      obtain ⟨hText, hAgain⟩ := reread_members_settle lawful members ms hMembers
      rw [str, str, hText, reread, hAgain]
      exact ⟨rfl, rfl⟩

theorem reread_items_settle (lawful : doubles.Lawful) : ∀ items ws,
    rereadItems doubles items = some ws →
    strItems doubles ws = strItems doubles items ∧ rereadItems doubles ws = some ws
  | [], ws, hRead => by
      cases hRead
      exact ⟨rfl, rfl⟩
  | [v], ws, hRead => by
      obtain ⟨w, more, rfl, hValue, hRest⟩ := rereadItems_cons.mp hRead
      obtain ⟨hText, hAgain⟩ := reread_settles lawful v w hValue
      cases hRest
      refine ⟨?_, rereadItems_cons.mpr ⟨w, [], rfl, hAgain, rfl⟩⟩
      rw [strItems, strItems, hText]
  | v :: u :: rest, ws, hRead => by
      obtain ⟨w, more, rfl, hValue, hRest⟩ := rereadItems_cons.mp hRead
      obtain ⟨hText, hAgain⟩ := reread_settles lawful v w hValue
      obtain ⟨hTexts, hMore⟩ := reread_items_settle lawful (u :: rest) more hRest
      refine ⟨?_, rereadItems_cons.mpr ⟨w, more, rfl, hAgain, hMore⟩⟩
      obtain ⟨x, others, rfl, -, -⟩ := rereadItems_cons.mp hRest
      rw [strItems, strItems, hText, hTexts]

theorem reread_members_settle (lawful : doubles.Lawful) : ∀ members ms,
    rereadMembers doubles members = some ms →
    strMembers doubles ms = strMembers doubles members ∧ rereadMembers doubles ms = some ms
  | [], ms, hRead => by
      cases hRead
      exact ⟨rfl, rfl⟩
  | [(key, v)], ms, hRead => by
      obtain ⟨w, more, rfl, hValue, hRest⟩ := rereadMembers_cons.mp hRead
      obtain ⟨hText, hAgain⟩ := reread_settles lawful v w hValue
      cases hRest
      refine ⟨?_, rereadMembers_cons.mpr ⟨w, [], rfl, hAgain, rfl⟩⟩
      rw [strMembers, strMembers, hText]
  | (key, v) :: m :: rest, ms, hRead => by
      obtain ⟨w, more, rfl, hValue, hRest⟩ := rereadMembers_cons.mp hRead
      obtain ⟨hText, hAgain⟩ := reread_settles lawful v w hValue
      obtain ⟨hTexts, hMore⟩ := reread_members_settle lawful (m :: rest) more hRest
      refine ⟨?_, rereadMembers_cons.mpr ⟨w, more, rfl, hAgain, hMore⟩⟩
      obtain ⟨x, others, rfl, -, -⟩ := rereadMembers_cons.mp hRest
      rw [strMembers, strMembers, hText, hTexts]

end

end Again

section Exact

variable (doubles : Doubles)

mutual

/-- Every double is read from its own text. -/
def Exact : Json → Prop
  | .double q => tokenValue doubles (doubles.print q) = some (.double q)
  | .array items => ExactItems items
  | .object members => ExactMembers members
  | _ => True

def ExactItems : List Json → Prop
  | [] => True
  | v :: rest => Exact v ∧ ExactItems rest

def ExactMembers : List (String × Json) → Prop
  | [] => True
  | (_, v) :: rest => Exact v ∧ ExactMembers rest

end

variable {doubles}

mutual

theorem reread_iff : ∀ v, reread doubles v = some v ↔ Exact doubles v
  | .null => iff_of_true rfl trivial
  | .bool _ => iff_of_true rfl trivial
  | .int _ => iff_of_true rfl trivial
  | .double _ => Iff.rfl
  | .string _ => iff_of_true rfl trivial
  | .array items => by
      rw [reread, Exact, ← rereadItems_iff items, Option.map_eq_some_iff]
      simp only [Json.array.injEq, exists_eq_right]
  | .object members => by
      rw [reread, Exact, ← rereadMembers_iff members, Option.map_eq_some_iff]
      simp only [Json.object.injEq, exists_eq_right]

theorem rereadItems_iff : ∀ items, rereadItems doubles items = some items ↔
    ExactItems doubles items
  | [] => iff_of_true rfl trivial
  | v :: rest => by
      rw [rereadItems_cons, ExactItems, ← reread_iff v, ← rereadItems_iff rest]
      constructor
      · rintro ⟨w, more, hSame, hValue, hRest⟩
        cases hSame
        exact ⟨hValue, hRest⟩
      · rintro ⟨hValue, hRest⟩
        exact ⟨v, rest, rfl, hValue, hRest⟩

theorem rereadMembers_iff : ∀ members, rereadMembers doubles members = some members ↔
    ExactMembers doubles members
  | [] => iff_of_true rfl trivial
  | (key, v) :: rest => by
      rw [rereadMembers_cons, ExactMembers, ← reread_iff v, ← rereadMembers_iff rest]
      constructor
      · rintro ⟨w, more, hSame, hValue, hRest⟩
        cases hSame
        exact ⟨hValue, hRest⟩
      · rintro ⟨hValue, hRest⟩
        exact ⟨v, rest, rfl, hValue, hRest⟩

end

end Exact

end Hengda.CoJson

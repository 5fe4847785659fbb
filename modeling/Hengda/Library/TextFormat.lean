import Hengda.Library.Run
import Mathlib.Algebra.BigOperators.Group.List.Basic

/-! The text format of protocol messages, as far as fields with a word or a
quoted string and nested messages go. A scanner cuts the text into tokens, one
character at a time; a parser finds the fields; last, the escapes in strings
are replaced. Strings cannot be made of nothing: all of them together are never
longer than the text they come from. -/
namespace TextFormat

/-- A string still has its escapes. -/
inductive Token
  | symbol (c : Char)
  | word (text : String)
  | string (raw : String)
deriving DecidableEq, Repr

/-- What the scanner has in front of the next character. -/
inductive Mode
  | between
  | word (taken : List Char)
  | inString (taken : List Char)
  | escape (taken : List Char)
  | failed
deriving DecidableEq, Repr

structure Scan where
  mode : Mode := .between
  tokens : List Token := []
deriving DecidableEq, Repr

/-- Braces and the colon. -/
def isSymbol (c : Char) : Bool :=
  c = '\x7b' || c = '\x7d' || c = ':'

def isWordChar (c : Char) : Bool :=
  c.isAlphanum || c = '_'

namespace Scan

/-- A character outside words and strings. -/
def start (tokens : List Token) (c : Char) : Scan :=
  if c = '"' then ⟨.inString [], tokens⟩
  else if c.isWhitespace then ⟨.between, tokens⟩
  else if isSymbol c then ⟨.between, tokens ++ [.symbol c]⟩
  else if isWordChar c then ⟨.word [c], tokens⟩
  else ⟨.failed, tokens⟩

/-- A string ends at the first quote that is not escaped and has no newline. -/
def next (s : Scan) (c : Char) : Scan :=
  match s.mode with
  | .between => start s.tokens c
  | .word taken =>
      if isWordChar c then ⟨.word (taken ++ [c]), s.tokens⟩
      else start (s.tokens ++ [.word (String.ofList taken)]) c
  | .inString taken =>
      if c = '"' then ⟨.between, s.tokens ++ [.string (String.ofList taken)]⟩
      else if c = '\n' then ⟨.failed, s.tokens⟩
      else if c = '\\' then ⟨.escape (taken ++ [c]), s.tokens⟩
      else ⟨.inString (taken ++ [c]), s.tokens⟩
  | .escape taken =>
      if c = '\n' then ⟨.failed, s.tokens⟩ else ⟨.inString (taken ++ [c]), s.tokens⟩
  | .failed => s

def prepend (before : List Token) (s : Scan) : Scan :=
  { s with tokens := before ++ s.tokens }

@[simp]
theorem prepend_mode (before : List Token) (s : Scan) : (s.prepend before).mode = s.mode := rfl

end Scan

/-- The scanner after a text. -/
def scan (s : Scan) (text : List Char) : Scan :=
  Machine.run Scan.next s text

def tokens (text : List Char) : Option (List Token) :=
  match scan {} text with
  | ⟨.between, found⟩ => some found
  | ⟨.word taken, found⟩ => some (found ++ [.word (String.ofList taken)])
  | _ => none

inductive Value
  | word (text : String)
  | string (text : String)
deriving DecidableEq, Repr

/-- The fields of a message, in order. -/
inductive Message
  | empty
  | scalar (name : String) (value : Value) (rest : Message)
  | nested (name : String) (fields rest : Message)
deriving DecidableEq, Repr

/-- The fields up to the next token that does not begin one, and what follows. -/
def fields : Nat → List Token → Option (Message × List Token)
  | 0, _ => none
  | fuel + 1, .word name :: .symbol ':' :: .word text :: rest =>
      (fields fuel rest).map fun (m, after) => (.scalar name (.word text) m, after)
  | fuel + 1, .word name :: .symbol ':' :: .string raw :: rest =>
      (fields fuel rest).map fun (m, after) => (.scalar name (.string raw) m, after)
  | fuel + 1, .word name :: .symbol '\x7b' :: rest =>
      (fields fuel rest).bind fun (inner, after) =>
        match after with
        | .symbol '\x7d' :: after =>
            (fields fuel after).map fun (m, last) => (.nested name inner m, last)
        | _ => none
  | _ + 1, rest => some (.empty, rest)

/-- Every call but the last takes a token away. -/
def parse (found : List Token) : Option Message :=
  (fields (found.length + 1) found).bind fun (m, after) => if after = [] then some m else none

/-- What stands for the escapes of a string. Nothing but a backslash begins an
escape, and an escape is longer than the character it stands for. -/
structure Escapes where
  decode : String → Option String
  plain : ∀ raw, '\\' ∉ raw.toList → decode raw = some raw
  shorter : ∀ raw text, '\\' ∈ raw.toList → decode raw = some text → text.length < raw.length

namespace Message

/-- The message with all escapes replaced. -/
def decode (escapes : Escapes) : Message → Option Message
  | .empty => some .empty
  | .scalar name (.word text) rest => (decode escapes rest).map (.scalar name (.word text))
  | .scalar name (.string raw) rest =>
      (escapes.decode raw).bind fun text =>
        (decode escapes rest).map (.scalar name (.string text))
  | .nested name inner rest =>
      (decode escapes inner).bind fun inner => (decode escapes rest).map (.nested name inner)

/-- The strings in a message, in order. -/
def strings : Message → List String
  | .empty => []
  | .scalar _ (.word _) rest => strings rest
  | .scalar _ (.string text) rest => text :: strings rest
  | .nested _ inner rest => strings inner ++ strings rest

end Message

def readMessage (escapes : Escapes) (text : List Char) : Option Message :=
  ((tokens text).bind parse).bind (Message.decode escapes)

def strings (found : List Token) : List String :=
  found.filterMap fun token =>
    match token with
    | .string raw => some raw
    | _ => none

@[simp]
theorem strings_append (first second : List Token) :
    strings (first ++ second) = strings first ++ strings second :=
  List.filterMap_append

@[simp]
theorem strings_cons_symbol (c : Char) (rest : List Token) :
    strings (.symbol c :: rest) = strings rest := rfl

@[simp]
theorem strings_cons_word (text : String) (rest : List Token) :
    strings (.word text :: rest) = strings rest := rfl

@[simp]
theorem strings_cons_string (raw : String) (rest : List Token) :
    strings (.string raw :: rest) = raw :: strings rest := rfl

@[simp]
theorem strings_nil : strings [] = [] := rfl

/-- Characters in all strings together. -/
def total : List String → Nat
  | [] => 0
  | text :: rest => text.length + total rest

@[simp]
theorem total_nil : total [] = 0 := rfl

@[simp]
theorem total_cons (text : String) (rest : List String) :
    total (text :: rest) = text.length + total rest := rfl

@[simp]
theorem total_append (first second : List String) :
    total (first ++ second) = total first + total second := by
  induction first with
  | nil => exact (Nat.zero_add _).symm
  | cons text rest ih => rw [List.cons_append, total_cons, total_cons, ih, Nat.add_assoc]

/-! Scanning one part of a text after the other. -/

theorem scan_append (s : Scan) (first second : List Char) :
    scan s (first ++ second) = scan (scan s first) second :=
  List.foldl_append

theorem Scan.start_prepend (before found : List Token) (c : Char) :
    start (before ++ found) c = (start found c).prepend before := by
  unfold start prepend
  split_ifs <;> simp

theorem Scan.next_prepend (before : List Token) (s : Scan) (c : Char) :
    (s.prepend before).next c = (s.next c).prepend before := by
  obtain ⟨mode, found⟩ := s
  cases mode with
  | between => exact start_prepend before found c
  | word taken =>
      unfold next prepend
      dsimp only
      rw [List.append_assoc, start_prepend]
      split_ifs <;> rfl
  | inString taken =>
      unfold next prepend
      dsimp only
      split_ifs <;> simp
  | escape taken =>
      unfold next prepend
      dsimp only
      split_ifs <;> rfl
  | failed => rfl

/-- What has been found before does not matter for what comes. -/
theorem scan_prepend (before : List Token) (s : Scan) (text : List Char) :
    scan (s.prepend before) text = (scan s text).prepend before :=
  List.foldl_hom (Scan.prepend before) (fun s c => Scan.next_prepend before s c)

theorem scan_failed (s : Scan) (hFailed : s.mode = .failed) (text : List Char) :
    (scan s text).mode = .failed := by
  have hNext : ∀ c, s.next c = s := by
    intro c
    rw [Scan.next, hFailed]
  induction text with
  | nil => exact hFailed
  | cons c rest ih =>
      change (scan (s.next c) rest).mode = .failed
      rw [hNext]
      exact ih

/-- A part of a text that ends between tokens adds its own tokens. -/
theorem scan_between {new : List Token} {text : List Char}
    (hText : scan {} text = ⟨.between, new⟩) (rest : List Char) :
    scan {} (text ++ rest) = (scan {} rest).prepend new := by
  have hStart : (⟨.between, new⟩ : Scan) = Scan.prepend new {} := by
    simp [Scan.prepend]
  rw [scan_append, hText, hStart, scan_prepend]

/-- A failure in the middle of a text stays. -/
theorem mode_of_scan_append {first second : List Char} {s : Scan}
    (hMode : (scan s (first ++ second)).mode ≠ .failed) : (scan s first).mode ≠ .failed := by
  intro hFailed
  rw [scan_append] at hMode
  exact hMode (scan_failed _ hFailed second)

theorem scan_both {firstTokens secondTokens : List Token} {first second : List Char}
    (hFirst : scan {} first = ⟨.between, firstTokens⟩)
    (hSecond : scan {} second = ⟨.between, secondTokens⟩) :
    scan {} (first ++ second) = ⟨.between, firstTokens ++ secondTokens⟩ := by
  rw [scan_between hFirst, hSecond]
  rfl

/-- Each line with its end. -/
def unlines (lines : List (List Char)) : List Char :=
  lines.flatMap fun line => line ++ ['\n']

@[simp]
theorem unlines_append (first second : List (List Char)) :
    unlines (first ++ second) = unlines first ++ unlines second :=
  List.flatMap_append

/-- Lines that are scanned one by one can be scanned together. -/
theorem scan_unlines {lines : List (List Char)} {found : List (List Token)}
    (hLines : lines.map (fun line => scan {} (line ++ ['\n'])) = found.map (Scan.mk .between)) :
    scan {} (unlines lines) = ⟨.between, found.flatten⟩ := by
  induction lines generalizing found with
  | nil =>
      cases found with
      | nil => rfl
      | cons new rest => cases hLines
  | cons line lines ih =>
      cases found with
      | nil => cases hLines
      | cons new rest =>
          rw [List.map_cons, List.map_cons, List.cons.injEq] at hLines
          obtain ⟨hLine, hRest⟩ := hLines
          exact scan_both hLine (ih hRest)

theorem Scan.start_word {c : Char} (hWord : isWordChar c = true) (found : List Token) :
    start found c = ⟨.word [c], found⟩ := by
  have hQuote : c ≠ '"' := by
    rintro rfl
    simp [isWordChar] at hWord
  have hSpace : c.isWhitespace = false := by
    rw [Bool.eq_false_iff]
    intro hSpace
    simp only [Char.isWhitespace, Bool.or_eq_true, decide_eq_true_eq] at hSpace
    rcases hSpace with ((rfl | rfl) | rfl) | rfl <;> simp [isWordChar] at hWord
  have hSymbol : isSymbol c = false := by
    rw [Bool.eq_false_iff]
    intro hSymbol
    simp only [isSymbol, Bool.or_eq_true, decide_eq_true_eq] at hSymbol
    rcases hSymbol with (rfl | rfl) | rfl <;> simp [isWordChar] at hWord
  simp [start, hQuote, hSpace, hSymbol, hWord]

/-- A word at the end of a line. -/
theorem scan_word {text : String} (hText : text.toList ≠ [])
    (hWord : ∀ c ∈ text.toList, isWordChar c = true) :
    scan {} (text.toList ++ ['\n']) = ⟨.between, [.word text]⟩ := by
  have hTaken : ∀ taken chars : List Char, (∀ c ∈ chars, isWordChar c = true) →
      scan ⟨.word taken, []⟩ chars = ⟨.word (taken ++ chars), []⟩ := by
    intro taken chars
    induction chars generalizing taken with
    | nil => simp [scan]
    | cons c rest ih =>
        intro hChars
        have hHere : Scan.next ⟨.word taken, []⟩ c = ⟨.word (taken ++ [c]), []⟩ := by
          simp [Scan.next, hChars c (by simp)]
        change scan (Scan.next ⟨.word taken, []⟩ c) rest = _
        rw [hHere, ih _ (fun c' mem => hChars c' (List.mem_cons_of_mem _ mem))]
        simp
  cases hChars : text.toList with
  | nil => exact absurd hChars hText
  | cons c rest =>
      rw [hChars] at hWord
      have hFirst : Scan.start [] c = ⟨.word [c], []⟩ := Scan.start_word (hWord c (by simp)) []
      change scan (Scan.start [] c) (rest ++ ['\n']) = _
      rw [hFirst, scan_append, hTaken _ _ (fun c' mem => hWord c' (List.mem_cons_of_mem _ mem))]
      change (⟨.between, [.word (String.ofList ([c] ++ rest))]⟩ : Scan) = _
      rw [List.singleton_append, ← hChars, String.ofList_toList]

/-! A text between quotes. -/

/-- A text that can stand between quotes as it is. -/
def Plain (text : List Char) : Prop :=
  ∀ c ∈ text, c ≠ '"' ∧ c ≠ '\\' ∧ c ≠ '\n'

instance (text : List Char) : Decidable (Plain text) :=
  inferInstanceAs (Decidable (∀ c ∈ text, _))

def Mode.pending : Mode → List Char
  | .inString taken => taken
  | .escape taken => taken
  | _ => []

/-- Characters in the strings, the unfinished one included. -/
def Scan.weight (s : Scan) : Nat :=
  total (strings s.tokens) + s.mode.pending.length

theorem Scan.start_weight (found : List Token) (c : Char) :
    (start found c).weight = total (strings found) := by
  unfold start weight
  split_ifs <;> simp [Mode.pending]

/-- A character lengthens the strings by one character at most. -/
theorem Scan.next_weight (s : Scan) (c : Char) : (s.next c).weight ≤ s.weight + 1 := by
  obtain ⟨mode, found⟩ := s
  cases mode with
  | between =>
      change (start found c).weight ≤ _
      rw [start_weight]
      simp [weight]
      omega
  | word taken =>
      unfold next
      dsimp only
      split_ifs
      · simp [weight, Mode.pending]
      · rw [start_weight]
        simp [weight]
        omega
  | inString taken =>
      unfold next
      dsimp only
      split_ifs <;> simp [weight, Mode.pending] <;> omega
  | escape taken =>
      unfold next
      dsimp only
      split_ifs <;> simp [weight, Mode.pending] <;> omega
  | failed => exact Nat.le_succ _

/-- What the scanner has made of a text behind an opening quote: it is all in
the unfinished string, or some of it is lost. -/
inductive Quoting (text : List Char) (s : Scan) : Prop
  | failed (hMode : s.mode = .failed)
  | plain (hScan : s = ⟨.inString text, []⟩) (hPlain : Plain text)
  | escaped (hScan : s = ⟨.inString text, []⟩ ∨ s = ⟨.escape text, []⟩) (hEscape : '\\' ∈ text)
  | shortened (hWeight : s.weight < text.length)

theorem Quoting.next {text : List Char} {s : Scan} (quoting : Quoting text s) (c : Char) :
    Quoting (text ++ [c]) (s.next c) := by
  cases quoting with
  | failed hMode =>
      apply Quoting.failed
      rw [Scan.next, hMode]
      exact hMode
  | plain hScan hPlain =>
      subst hScan
      unfold Scan.next
      dsimp only
      split_ifs with hQuote hNewline hEscape
      · exact .shortened (by simp [Scan.weight, Mode.pending])
      · exact .failed rfl
      · exact .escaped (Or.inr rfl) (by simp [hEscape])
      · refine .plain rfl ?_
        intro c' mem
        rcases List.mem_append.mp mem with mem | mem
        · exact hPlain c' mem
        · rw [List.mem_singleton.mp mem]
          exact ⟨hQuote, hEscape, hNewline⟩
  | escaped hScan hEscape =>
      have hMem : '\\' ∈ text ++ [c] := List.mem_append_left _ hEscape
      rcases hScan with rfl | rfl
      · unfold Scan.next
        dsimp only
        split_ifs with hQuote hNewline hBackslash
        · exact .shortened (by simp [Scan.weight, Mode.pending])
        · exact .failed rfl
        · exact .escaped (Or.inr rfl) hMem
        · exact .escaped (Or.inl rfl) hMem
      · unfold Scan.next
        dsimp only
        split_ifs with hNewline
        · exact .failed rfl
        · exact .escaped (Or.inl rfl) hMem
  | shortened hWeight =>
      have hNext := s.next_weight c
      exact .shortened (by simp; omega)

theorem quoting_scan (text : List Char) : Quoting text (scan ⟨.inString [], []⟩ text) := by
  induction text using List.reverseRecOn with
  | nil => exact .plain rfl (by simp [Plain])
  | append_singleton text c ih =>
      rw [scan_append]
      exact ih.next c

/-- The outcomes of a quoted text at the end of a line. -/
inductive Quoted (text : String) (s : Scan) : Prop
  | failed (hMode : s.mode = .failed)
  | plain (hScan : s = ⟨.between, [.string text]⟩) (hPlain : Plain text.toList)
  | escaped (hScan : s = ⟨.between, [.string text]⟩) (hEscape : '\\' ∈ text.toList)
  | shortened (hMode : s.mode = .between) (hTotal : total (strings s.tokens) < text.length)

/-- The text between quotes, and the end of the line. -/
def quotedLine (text : String) : List Char :=
  '"' :: (text.toList ++ ['"', '\n'])

theorem scan_quotedLine_eq (text : String) :
    scan {} (quotedLine text) =
      ((scan ⟨.inString [], []⟩ text.toList).next '"').next '\n' := by
  change scan ⟨.inString [], []⟩ (text.toList ++ ['"', '\n']) = _
  rw [scan_append]
  rfl

theorem quoted_scan (text : String) : Quoted text (scan {} (quotedLine text)) := by
  rw [scan_quotedLine_eq]
  have hClose : ∀ taken found,
      (Scan.next ⟨.inString taken, found⟩ '"').next '\n' =
        ⟨.between, found ++ [.string (String.ofList taken)]⟩ := fun _ _ => rfl
  cases quoting_scan text.toList with
  | failed hMode =>
      apply Quoted.failed
      have hNext : ∀ s : Scan, s.mode = .failed → ∀ c, s.next c = s := by
        intro s hFailed c
        rw [Scan.next, hFailed]
      rw [hNext _ hMode, hNext _ hMode]
      exact hMode
  | plain hScan hPlain =>
      rw [hScan, hClose, String.ofList_toList]
      exact .plain rfl hPlain
  | escaped hScan hEscape =>
      rcases hScan with hScan | hScan
      · rw [hScan, hClose, String.ofList_toList]
        exact .escaped rfl hEscape
      · rw [hScan]
        exact .failed rfl
  | shortened hWeight =>
      generalize scan ⟨.inString [], []⟩ text.toList = s at hWeight
      obtain ⟨mode, found⟩ := s
      cases mode with
      | between => exact .failed rfl
      | word taken => exact .failed rfl
      | inString taken =>
          rw [hClose]
          refine .shortened rfl ?_
          rw [String.length_toList] at hWeight
          simpa [Scan.weight, Mode.pending] using hWeight
      | escape taken => exact .failed rfl
      | failed => exact .failed rfl

/-- Only a plain text comes out as long as it is. -/
theorem Quoted.bounded {text : String} {s : Scan} (quoted : Quoted text s)
    (hMode : s.mode ≠ .failed) :
    s.mode = .between ∧ total (strings s.tokens) ≤ text.length ∧
      (total (strings s.tokens) = text.length →
        (∀ raw ∈ strings s.tokens, '\\' ∉ raw.toList) → Plain text.toList) := by
  cases quoted with
  | failed hFailed => exact absurd hFailed hMode
  | plain hScan hPlain =>
      rw [hScan]
      exact ⟨rfl, by simp, fun _ _ => hPlain⟩
  | escaped hScan hEscape =>
      rw [hScan]
      refine ⟨rfl, by simp, ?_⟩
      intro _ hRaw
      exact absurd hEscape (hRaw text (by simp))
  | shortened hBetween hTotal =>
      exact ⟨hBetween, Nat.le_of_lt hTotal, fun hEq => absurd hEq (Nat.ne_of_lt hTotal)⟩

theorem scan_quotedLine_between {text : String}
    (hMode : (scan {} (quotedLine text)).mode ≠ .failed) :
    scan {} (quotedLine text) = ⟨.between, (scan {} (quotedLine text)).tokens⟩ := by
  have hBetween := ((quoted_scan text).bounded hMode).1
  exact congrArg (fun mode => Scan.mk mode (scan {} (quotedLine text)).tokens) hBetween

/-- The tokens of a text with two quoted lines in it. -/
theorem tokens_spliced {firstTokens middleTokens lastTokens found : List Token}
    {first middle last : List Char} (hFirst : scan {} first = ⟨.between, firstTokens⟩)
    (hMiddle : scan {} middle = ⟨.between, middleTokens⟩)
    (hLast : scan {} last = ⟨.between, lastTokens⟩) {one two : String}
    (hTokens : tokens (first ++ (quotedLine one ++ (middle ++ (quotedLine two ++ last)))) =
      some found) :
    (scan {} (quotedLine one)).mode ≠ .failed ∧ (scan {} (quotedLine two)).mode ≠ .failed ∧
      found = firstTokens ++ ((scan {} (quotedLine one)).tokens ++
        (middleTokens ++ ((scan {} (quotedLine two)).tokens ++ lastTokens))) := by
  have hMode : (scan {} (first ++ (quotedLine one ++ (middle ++
      (quotedLine two ++ last))))).mode ≠ .failed := by
    intro hFailed
    rw [tokens] at hTokens
    split at hTokens
    · simp_all
    · simp_all
    · cases hTokens
  rw [scan_between hFirst, Scan.prepend_mode] at hMode
  have hOne := mode_of_scan_append hMode
  rw [scan_between (scan_quotedLine_between hOne), Scan.prepend_mode, scan_between hMiddle,
    Scan.prepend_mode] at hMode
  have hTwo := mode_of_scan_append hMode
  have hScan := scan_both hFirst (scan_both (scan_quotedLine_between hOne)
    (scan_both hMiddle (scan_both (scan_quotedLine_between hTwo) hLast)))
  rw [tokens, hScan] at hTokens
  exact ⟨hOne, hTwo, (Option.some.inj hTokens).symm⟩

/-- A plain text is read back as it was written. -/
theorem scan_quotedLine {text : String} (hPlain : Plain text.toList) :
    scan {} (quotedLine text) = ⟨.between, [.string text]⟩ := by
  rw [scan_quotedLine_eq]
  have hScan : ∀ chars : List Char, Plain chars →
      scan ⟨.inString [], []⟩ chars = ⟨.inString chars, []⟩ := by
    intro chars
    induction chars using List.reverseRecOn with
    | nil =>
        intro _
        rfl
    | append_singleton chars c ih =>
        intro hChars
        have hRest := ih (fun c' mem => hChars c' (List.mem_append_left _ mem))
        obtain ⟨hQuote, hEscape, hNewline⟩ := hChars c (by simp)
        rw [scan_append, hRest]
        change Scan.next ⟨.inString chars, []⟩ c = _
        simp [Scan.next, hQuote, hEscape, hNewline]
  rw [hScan _ hPlain]
  change (⟨.between, [.string (String.ofList text.toList)]⟩ : Scan) = _
  rw [String.ofList_toList]

/-! Parsing keeps the strings, and decoding does not lengthen them. -/

theorem fields_strings {fuel : Nat} {found after : List Token} {m : Message}
    (hFields : fields fuel found = some (m, after)) :
    strings found = m.strings ++ strings after := by
  induction fuel, found using fields.induct generalizing after m with
  | case1 found => cases hFields
  | case2 fuel name text rest ih =>
      rw [fields] at hFields
      obtain ⟨⟨inner, last⟩, hRest, hEq⟩ := Option.map_eq_some_iff.mp hFields
      cases hEq
      simpa [Message.strings] using ih hRest
  | case3 fuel name raw rest ih =>
      rw [fields] at hFields
      obtain ⟨⟨inner, last⟩, hRest, hEq⟩ := Option.map_eq_some_iff.mp hFields
      cases hEq
      simpa [Message.strings] using ih hRest
  | case4 fuel name rest ih ihAfter =>
      rw [fields] at hFields
      obtain ⟨⟨inner, middle⟩, hRest, hBind⟩ := Option.bind_eq_some_iff.mp hFields
      dsimp only at hBind
      split at hBind
      · obtain ⟨⟨others, last⟩, hAfter, hEq⟩ := Option.map_eq_some_iff.mp hBind
        cases hEq
        have hInner := ih hRest
        have hOthers := ihAfter _ hAfter
        simp only [strings_cons_word, strings_cons_symbol] at hInner ⊢
        rw [hInner, hOthers, Message.strings, List.append_assoc]
      · cases hBind
  | case5 fuel found hWord hString hNested =>
      rw [fields] at hFields
      · cases hFields
        rfl
      · exact hWord
      · exact hString
      · exact hNested

theorem parse_strings {found : List Token} {m : Message} (hParse : parse found = some m) :
    m.strings = strings found := by
  obtain ⟨⟨inner, after⟩, hFields, hEnd⟩ := Option.bind_eq_some_iff.mp hParse
  dsimp only at hEnd
  split_ifs at hEnd with hAfter
  cases hEnd
  rw [fields_strings hFields, hAfter]
  simp

theorem Message.decode_plain (escapes : Escapes) {m : Message}
    (hPlain : ∀ raw ∈ m.strings, '\\' ∉ raw.toList) : m.decode escapes = some m := by
  induction m with
  | empty => rfl
  | scalar name value rest ih =>
      cases value with
      | word text =>
          rw [decode, ih hPlain, Option.map_some]
      | string raw =>
          have hRaw := escapes.plain raw (hPlain raw (by simp [strings]))
          have hRest := ih (fun raw mem => hPlain raw (by simp [strings, mem]))
          rw [decode, hRaw, hRest]
          rfl
  | nested name inner rest ihInner ihRest =>
      have hInner := ihInner (fun raw mem => hPlain raw (by simp [strings, mem]))
      have hRest := ihRest (fun raw mem => hPlain raw (by simp [strings, mem]))
      rw [decode, hInner, hRest]
      rfl

theorem Escapes.decode_length (escapes : Escapes) {raw text : String}
    (hDecode : escapes.decode raw = some text) :
    text.length ≤ raw.length ∧ (text.length = raw.length → '\\' ∉ raw.toList) := by
  by_cases hEscape : '\\' ∈ raw.toList
  · have hShorter := escapes.shorter raw text hEscape hDecode
    exact ⟨Nat.le_of_lt hShorter, fun hEq => absurd hEq (Nat.ne_of_lt hShorter)⟩
  · rw [escapes.plain raw hEscape, Option.some.injEq] at hDecode
    rw [hDecode]
    exact ⟨Nat.le_refl _, fun _ => hDecode ▸ hEscape⟩

/-- Decoding keeps the number of characters only where there are no escapes. -/
theorem Message.decode_total (escapes : Escapes) {m decoded : Message}
    (hDecode : m.decode escapes = some decoded) :
    total decoded.strings ≤ total m.strings ∧
      (total decoded.strings = total m.strings → ∀ raw ∈ m.strings, '\\' ∉ raw.toList) := by
  induction m generalizing decoded with
  | empty =>
      cases hDecode
      simp [strings]
  | scalar name value rest ih =>
      cases value with
      | word text =>
          obtain ⟨rest', hRest, rfl⟩ := Option.map_eq_some_iff.mp hDecode
          have hTotal := ih hRest
          simpa only [strings] using hTotal
      | string raw =>
          obtain ⟨text, hText, hMap⟩ := Option.bind_eq_some_iff.mp hDecode
          obtain ⟨rest', hRest, rfl⟩ := Option.map_eq_some_iff.mp hMap
          obtain ⟨hLength, hRaw⟩ := escapes.decode_length hText
          obtain ⟨hTotal, hOthers⟩ := ih hRest
          simp only [strings, total_cons, List.forall_mem_cons]
          exact ⟨by omega, fun hEq => ⟨hRaw (by omega), hOthers (by omega)⟩⟩
  | nested name inner rest ihInner ihRest =>
      obtain ⟨inner', hInner, hMap⟩ := Option.bind_eq_some_iff.mp hDecode
      obtain ⟨rest', hRest, rfl⟩ := Option.map_eq_some_iff.mp hMap
      obtain ⟨hTotal, hPlain⟩ := ihInner hInner
      obtain ⟨hTotalRest, hPlainRest⟩ := ihRest hRest
      simp only [strings, total_append, List.forall_mem_append]
      exact ⟨by omega, fun hEq => ⟨hPlain (by omega), hPlainRest (by omega)⟩⟩

/-! The escapes that consist of one character behind the backslash. -/

def escaped (c : Char) : Option Char :=
  [('n', '\n'), ('t', '\t'), ('r', '\r'), ('\\', '\\'), ('"', '"'), ('\x27', '\x27'),
    ('?', '?')].lookup c

def unescape : List Char → Option (List Char)
  | [] => some []
  | ['\\'] => none
  | '\\' :: c :: rest =>
      (escaped c).bind fun c => (unescape rest).map (c :: ·)
  | c :: rest => (unescape rest).map (c :: ·)

theorem unescape_plain {raw : List Char} (hPlain : '\\' ∉ raw) : unescape raw = some raw := by
  induction raw using unescape.induct with
  | case1 => rfl
  | case2 => simp at hPlain
  | case3 c rest ih => simp at hPlain
  | case4 c rest hEnd hEscape ih =>
      rw [unescape, ih (fun mem => hPlain (List.mem_cons_of_mem _ mem)), Option.map_some]
      · exact hEnd
      · exact hEscape

theorem unescape_length {raw text : List Char} (hText : unescape raw = some text) :
    text.length ≤ raw.length ∧ ('\\' ∈ raw → text.length < raw.length) := by
  induction raw using unescape.induct generalizing text with
  | case1 =>
      cases hText
      simp
  | case2 => cases hText
  | case3 c rest ih =>
      rw [unescape] at hText
      obtain ⟨d, _, hMap⟩ := Option.bind_eq_some_iff.mp hText
      obtain ⟨rest', hRest, rfl⟩ := Option.map_eq_some_iff.mp hMap
      have hLength := (ih hRest).1
      simp only [List.length_cons]
      omega
  | case4 c rest hEnd hEscape ih =>
      rw [unescape] at hText
      · obtain ⟨rest', hRest, rfl⟩ := Option.map_eq_some_iff.mp hText
        obtain ⟨hLength, hShorter⟩ := ih hRest
        have hNot : c ≠ '\\' := by
          intro hBackslash
          cases rest with
          | nil => exact hEnd hBackslash rfl
          | cons e rest => exact hEscape e rest hBackslash rfl
        simp only [List.length_cons, List.mem_cons]
        refine ⟨by omega, ?_⟩
        intro hMem
        rcases hMem with hMem | hMem
        · exact absurd hMem.symm hNot
        · have hLt := hShorter hMem
          omega
      · exact hEnd
      · exact hEscape

def Escapes.single : Escapes where
  decode raw := (unescape raw.toList).map String.ofList
  plain raw hPlain := by
    rw [unescape_plain hPlain, Option.map_some, String.ofList_toList]
  shorter raw text hEscape hText := by
    obtain ⟨chars, hChars, rfl⟩ := Option.map_eq_some_iff.mp hText
    have hShorter := (unescape_length hChars).2 hEscape
    rw [String.length_toList] at hShorter
    rwa [String.length_ofList]

end TextFormat

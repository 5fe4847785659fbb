import Hengda.Base.JsonRoundTrip
import Hengda.Utility.BordersLoader
import Hengda.Utility.Json11RoundTrip

/-! The border files with the two libraries as they are. What json11 has read it prints in
such a way that the detector gets the same borders from the file, and none of them as long
as a part of the text is missing. -/
namespace Hengda.Json11

variable {doubles : Doubles}

/-- Equal values that can be in memory. -/
def Alike (doubles : Doubles) (v w : Json11) : Prop :=
  ∃ levels, Held doubles levels v ∧ Held doubles levels w ∧ equal w v = true

theorem Alike.null : Alike doubles .null .null :=
  ⟨1, trivial, trivial, rfl⟩

theorem equal_isNumber {v w : Json11} (hEqual : equal w v = true) :
    w.isNumber = v.isNumber ∧ w.numberValue = v.numberValue := by
  cases w with
  | int n =>
      rw [equal, Bool.and_eq_true, decide_eq_true_eq] at hEqual
      exact ⟨hEqual.1.symm, hEqual.2⟩
  | double q =>
      rw [equal, Bool.and_eq_true, decide_eq_true_eq] at hEqual
      exact ⟨hEqual.1.symm, hEqual.2⟩
  | _ => cases v <;> first | exact ⟨rfl, rfl⟩ | cases hEqual

theorem Held.intValue {levels : Nat} {v : Json11} (held : Held doubles levels v) :
    v.intValue =
      if v.isNumber then
        if IsInt32 (truncate v.numberValue) then truncate v.numberValue else -2147483648
      else 0 := by
  cases levels with
  | zero => exact held.elim
  | succ levels =>
      cases v with
      | int n =>
          have hTruncate : truncate (n : ℚ) = n := by simp [truncate]
          have hRange : IsInt32 n := held
          rw [isNumber, if_pos rfl, numberValue, hTruncate, if_pos hRange]
          rfl
      | double q => rfl
      | _ => rfl

theorem Alike.intValue {v w : Json11} (alike : Alike doubles v w) : w.intValue = v.intValue := by
  obtain ⟨levels, hV, hW, hEqual⟩ := alike
  obtain ⟨hNumber, hValue⟩ := equal_isNumber hEqual
  rw [hV.intValue, hW.intValue, hNumber, hValue]

theorem alike_items {levels : Nat} {vs ws : List Json11}
    (hV : ∀ v ∈ vs, Held doubles levels v) (hW : ∀ w ∈ ws, Held doubles levels w)
    (hEqual : equalItems ws vs = true) : List.Forall₂ (Alike doubles) vs ws := by
  induction ws generalizing vs with
  | nil =>
      cases vs with
      | nil => exact .nil
      | cons => cases hEqual
  | cons w ws ih =>
      cases vs with
      | nil => cases hEqual
      | cons v vs =>
          rw [equalItems, Bool.and_eq_true] at hEqual
          obtain ⟨hFirstV, hRestV⟩ := List.forall_mem_cons.mp hV
          obtain ⟨hFirstW, hRestW⟩ := List.forall_mem_cons.mp hW
          exact .cons ⟨levels, hFirstV, hFirstW, hEqual.1⟩ (ih hRestV hRestW hEqual.2)

theorem Alike.arrayItems {v w : Json11} (alike : Alike doubles v w) :
    List.Forall₂ (Alike doubles) v.arrayItems w.arrayItems := by
  obtain ⟨levels, hV, hW, hEqual⟩ := alike
  cases levels with
  | zero => exact hV.elim
  | succ levels =>
      cases w with
      | array ws =>
          cases v with
          | array vs => exact alike_items hV hW hEqual
          | _ => cases hEqual
      | _ =>
          cases v with
          | array => simp [equal, isNumber] at hEqual
          | _ => exact .nil

theorem alike_lookup {levels : Nat} {vs ws : List (String × Json11)}
    (hV : ∀ m ∈ vs, Held doubles levels m.2) (hW : ∀ m ∈ ws, Held doubles levels m.2)
    (hEqual : equalMembers ws vs = true) (key : String) :
    Alike doubles (lookup .null key vs) (lookup .null key ws) := by
  induction ws generalizing vs with
  | nil =>
      cases vs with
      | nil => exact Alike.null
      | cons => cases hEqual
  | cons w ws ih =>
      cases vs with
      | nil => cases hEqual
      | cons v vs =>
          rw [equalMembers, Bool.and_eq_true, Bool.and_eq_true, decide_eq_true_eq] at hEqual
          obtain ⟨⟨hKey, hFirst⟩, hRest⟩ := hEqual
          obtain ⟨hFirstV, hRestV⟩ := List.forall_mem_cons.mp hV
          obtain ⟨hFirstW, hRestW⟩ := List.forall_mem_cons.mp hW
          by_cases hFound : v.1 = key
          · simp only [lookup, List.find?_cons, hKey, hFound, decide_true]
            exact ⟨levels, hFirstV, hFirstW, hFirst⟩
          · simp only [lookup, List.find?_cons, hKey, hFound, decide_false]
            exact ih hRestV hRestW hRest

theorem Alike.member {v w : Json11} (alike : Alike doubles v w) (key : String) :
    Alike doubles (v.member key) (w.member key) := by
  obtain ⟨levels, hV, hW, hEqual⟩ := alike
  cases levels with
  | zero => exact hV.elim
  | succ levels =>
      cases w with
      | object ws =>
          cases v with
          | object vs => exact alike_lookup hV.2 hW.2 hEqual key
          | _ => cases hEqual
      | _ =>
          cases v with
          | object => simp [equal, isNumber] at hEqual
          | _ => exact Alike.null

theorem Alike.item {v w : Json11} (alike : Alike doubles v w) (i : Nat) :
    Alike doubles (v.item i) (w.item i) := by
  have hItems := alike.arrayItems
  have hItem : ∀ v : Json11, v.item i = v.arrayItems[i]?.getD .null := by
    intro v
    cases v <;> simp [Json11.item, Json11.arrayItems]
  rw [hItem, hItem]
  clear hItem
  generalize v.arrayItems = vs, w.arrayItems = ws at hItems
  induction hItems generalizing i with
  | nil => simpa using Alike.null
  | cons hFirst _ ih =>
      cases i with
      | zero => exact hFirst
      | succ i => exact ih i

theorem Alike.map_eq {Result : Type} {convert : Json11 → Result}
    (single : ∀ v w, Alike doubles v w → convert w = convert v) {vs ws : List Json11}
    (hAll : List.Forall₂ (Alike doubles) vs ws) : ws.map convert = vs.map convert := by
  induction hAll with
  | nil => rfl
  | cons hFirst _ ih => rw [List.map_cons, List.map_cons, single _ _ hFirst, ih]

theorem Alike.toPoint {v w : Json11} (alike : Alike doubles v w) : w.toPoint = v.toPoint := by
  rw [Json11.toPoint, Json11.toPoint, (alike.item 0).intValue, (alike.item 1).intValue]

theorem Alike.toBorder {v w : Json11} (alike : Alike doubles v w) : w.toBorder = v.toBorder := by
  rw [Json11.toBorder, Json11.toBorder, (alike.member "type").intValue,
    Alike.map_eq (fun _ _ => Alike.toPoint) (alike.member "points").arrayItems]

/-- What the detector makes of two equal values is the same. -/
theorem Alike.toBorders {v w : Json11} (alike : Alike doubles v w) :
    w.toBorders = v.toBorders :=
  Alike.map_eq (fun _ _ => Alike.toBorder) alike.arrayItems

end Hengda.Json11

namespace Hengda

open Json11

/-- The two libraries as they are. What becomes of doubles in a text is left open. -/
def libraries (printed : CoJson.Doubles) (doubles : Doubles) : JsonText where
  str := CoJson.str printed
  parse := Json11.parse doubles
  dump := Json11.dump doubles

section Libraries

variable {printed : CoJson.Doubles} {doubles : Doubles}

theorem parse_eq_ok {t : Text} {v : Json11} :
    Json11.parse doubles t = .ok v ↔ document doubles t = .ok v := by
  rw [Json11.parse]
  cases document doubles t <;> simp

theorem toBorders_of_closed {v : Json11} (hNumber : v.isNumber = true) : v.toBorders = [] := by
  cases v with
  | int => rfl
  | double => rfl
  | _ => cases hNumber

/-- Whatever is left of the text of a number, the detector gets no borders from it. -/
theorem toBorders_of_number {borders v : Json11} (lawful : doubles.Lawful)
    (hNumber : borders.isNumber = true) (held : Held doubles (maxDepth + 1) borders) {n : Nat}
    (hRead : document doubles ((dump doubles borders).take n) = .ok v) : v.toBorders = [] := by
  obtain ⟨w, hWhole, rereads⟩ := document_dump lawful held
  have hValue := rereads.value
  have hAgain : w.isNumber = true := (equal_isNumber rereads.equal).1.trans hNumber
  obtain ⟨ch, u, hText, hCh⟩ : ∃ ch u, dump doubles borders = ch :: u ∧
      (ch = '-' ∨ isDigit ch = true) := by
    generalize dump doubles borders = text at hValue
    cases hValue with
    | number hValid => exact hValid.text_head
    | _ => cases hAgain
  obtain ⟨rest, hParse, -⟩ := (document_eq_ok doubles).mp hRead
  cases n with
  | zero =>
      rw [List.take_zero] at hRead
      cases hRead
  | succ n =>
      rw [hText, List.take_succ_cons, ← List.nil_append (ch :: _)] at hParse
      exact toBorders_of_closed (isNumber_of_begins doubles hCh Scanning.run_nil hParse)

theorem load_save_part (borders : Json11) (filename : String) (n : Nat) (s : BordersLoader) :
    ((s.save (libraries printed doubles) borders filename (.written n)).files filename).getD [] =
      (dump doubles borders).take n := by
  change (Function.update s.files filename (some ((dump doubles borders).take n))
    filename).getD [] = _
  rw [Function.update_self, Option.getD_some]

/-- A file with the whole text of borders that have been read gives them to the detector, and
a file with less gives it none. -/
theorem load_saved (lawful : doubles.Lawful) {t : Text} {borders : Json11}
    (hRead : document doubles t = .ok borders) (hFinite : borders.finite = true)
    (filename : String) (n : Nat) (s : BordersLoader) :
    ((s.save (libraries printed doubles) borders filename (.written n)).load
        (libraries printed doubles) filename).1 =
      if (dump doubles borders).length ≤ n then borders.toBorders else [] := by
  obtain ⟨_, _, _, _, _, _, hValue⟩ := (document_iff doubles).mp hRead
  have held := hValue.held lawful hFinite
  split_ifs with hWhole
  · obtain ⟨w, hReread, rereads⟩ := document_dump lawful held
    have hParse : (libraries printed doubles).parse (((s.save (libraries printed doubles) borders
        filename (.written n)).files filename).getD []) = .ok w := by
      rw [load_save_part, List.take_of_length_le hWhole]
      exact parse_eq_ok.mpr hReread
    rw [BordersLoader.load_of_parse _ hParse]
    exact Alike.toBorders ⟨_, held, rereads.held, rereads.equal⟩
  · cases hPart : document doubles ((dump doubles borders).take n) with
    | error failure =>
        refine BordersLoader.load_of_unreadable _ ?_
        rw [load_save_part]
        change (Json11.parse doubles _).isOk = false
        rw [Json11.parse, hPart]
        rfl
    | ok v =>
        have hParse : (libraries printed doubles).parse (((s.save (libraries printed doubles)
            borders filename (.written n)).files filename).getD []) = .ok v := by
          rw [load_save_part]
          exact parse_eq_ok.mpr hPart
        rw [BordersLoader.load_of_parse _ hParse]
        cases hNumber : borders.isNumber with
        | true => exact toBorders_of_number lawful hNumber held hPart
        | false =>
            have hRefused := dump_unfinished lawful held hNumber (Nat.lt_of_not_le hWhole)
            rw [hPart] at hRefused
            cases hRefused

end Libraries

end Hengda

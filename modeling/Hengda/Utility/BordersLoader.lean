import Hengda.Utility.Json
import Mathlib.Logic.Function.Basic

/-! The borders of a camera live in a file that `save` overwrites and `load`
reads on every frame. Neither reports what goes wrong with the file. -/
namespace Hengda

/-- The fate of a file that is opened for output: it cannot be opened and stays
as it is, or the first `n` characters of the text reach it. -/
inductive WriteOutcome
  | openFails
  | written (n : Nat)
deriving DecidableEq, Repr

/-- `borders` is the member `borders_` of the one loader; `files` has the text
of each file that can be opened. -/
structure BordersLoader where
  borders : Json11 := .null
  files : String → Option Text := fun _ => none

def Json11.toPoint (point : Json11) : Point where
  x := (point.item 0).intValue
  y := (point.item 1).intValue

def Json11.toBorder (stack : Json11) : Border where
  graph := (stack.member "type").intValue
  points := (stack.member "points").arrayItems.map toPoint

/-- The loops of `load`. -/
def Json11.toBorders (borders : Json11) : List Border :=
  borders.arrayItems.map toBorder

namespace BordersLoader

variable (text : JsonText)

def save (borders : Json11) (filename : String) (outcome : WriteOutcome) (s : BordersLoader) :
    BordersLoader :=
  { borders := borders
    files :=
      match outcome with
      | .openFails => s.files
      | .written n => Function.update s.files filename (some ((text.dump borders).take n)) }

def load (filename : String) (s : BordersLoader) : List Border × BordersLoader :=
  let borders :=
    match text.parse ((s.files filename).getD []) with
    | .ok borders => borders
    | .error _ => .array []
  (borders.toBorders, { s with borders := borders })

theorem load_of_parse {filename : String} {s : BordersLoader} {borders : Json11}
    (hParse : text.parse ((s.files filename).getD []) = .ok borders) :
    (load text filename s).1 = borders.toBorders := by
  rw [load, hParse]

theorem load_of_unreadable {filename : String} {s : BordersLoader}
    (hParse : (text.parse ((s.files filename).getD [])).isOk = false) :
    (load text filename s).1 = [] := by
  rw [load]
  cases hText : text.parse ((s.files filename).getD []) with
  | ok borders =>
      rw [hText] at hParse
      cases hParse
  | error err => rfl

/-- The files of all cameras have this text. -/
def ofFile (kept : Text) : BordersLoader :=
  { files := fun _ => some kept }

end BordersLoader

/-- The libraries where they come across one text only, which stands for this value. -/
def JsonText.ofFile (kept : Text) (value : Json11) : JsonText where
  str := fun _ => kept
  dump := fun _ => kept
  parse := fun t => if t = kept then .ok value else .error "unexpected end of input".toList

theorem BordersLoader.load_ofFile (kept : Text) (value : Json11) (filename : String) :
    ((ofFile kept).load (JsonText.ofFile kept value) filename).1 = value.toBorders :=
  load_of_parse _ (if_pos rfl)

/-- A JSON value that stands for a point, a border and a list of borders. -/
def IsPoint (v : Json) (p : Point) : Prop :=
  v = .array [.int p.x, .int p.y] ∧ IsInt32 p.x ∧ IsInt32 p.y

def IsBorder (v : Json) (b : Border) : Prop :=
  ∃ members points, v = .object members ∧
    lookup .null "type" members = .int b.graph ∧ IsInt32 b.graph ∧
    lookup .null "points" members = .array points ∧ List.Forall₂ IsPoint points b.points

def IsBorders (v : Json) (bs : List Border) : Prop :=
  ∃ items, v = .array items ∧ List.Forall₂ IsBorder items bs

theorem IsPoint.toPoint {v : Json} {p : Point} (point : IsPoint v p) {j : Json11}
    (same : Same v j) : j.toPoint = p := by
  obtain ⟨rfl, hX, hY⟩ := point
  cases same with
  | array items =>
      cases items with
      | cons first rest =>
          cases rest with
          | cons second _ =>
              have hFirst := first.intValue hX
              have hSecond := second.intValue hY
              exact congrArg₂ Point.mk hFirst hSecond

/-- Converting two lists item by item gives the same results as soon as it
does for the items that belong together. -/
theorem map_of_forall₂ {Value : Type*} {means : Json → Value → Prop} {convert : Json11 → Value}
    (single : ∀ v x j, means v x → Same v j → convert j = x)
    {vs : List Json} {xs : List Value} {js : List Json11}
    (hMeans : List.Forall₂ means vs xs) (hSame : List.Forall₂ Same vs js) :
    js.map convert = xs := by
  induction hMeans generalizing js with
  | nil =>
      cases hSame
      rfl
  | cons hHead _ ih =>
      cases hSame with
      | cons hSameHead hSameTail =>
          rw [List.map_cons, single _ _ _ hHead hSameHead, ih hSameTail]

theorem IsBorder.toBorder {v : Json} {b : Border} (border : IsBorder v b) {j : Json11}
    (same : Same v j) : j.toBorder = b := by
  obtain ⟨members, points, rfl, hType, hRange, hPoints, hAll⟩ := border
  have hSameType := same.member "type"
  have hSamePoints := same.member "points"
  rw [hType] at hSameType
  rw [hPoints] at hSamePoints
  have hGraph := hSameType.intValue hRange
  have hList : (j.member "points").arrayItems.map Json11.toPoint = b.points :=
    map_of_forall₂ (fun _ _ _ point same => point.toPoint same) hAll hSamePoints.arrayItems
  exact congrArg₂ Border.mk hGraph hList

/-- Decoding gives back the borders that the value stands for. -/
theorem IsBorders.toBorders {v : Json} {bs : List Border} (borders : IsBorders v bs) {j : Json11}
    (same : Same v j) : j.toBorders = bs := by
  obtain ⟨items, rfl, hAll⟩ := borders
  exact map_of_forall₂ (fun _ _ _ border same => border.toBorder same) hAll same.arrayItems

end Hengda

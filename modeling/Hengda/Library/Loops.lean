import Mathlib.Data.List.Basic

/-! Loops that read and write vectors at computed positions. A round that leaves
a vector has no result, and neither has a loop that does not come to an end. -/
namespace Loops

section Vectors

variable {Value : Type*}

/-- The element at a position, which may be in front of the vector as well. -/
def read (vector : List Value) (i : Int) : Option Value :=
  if 0 ≤ i then vector[i.toNat]? else none

def write (vector : List Value) (i : Int) (value : Value) : Option (List Value) :=
  if 0 ≤ i ∧ i < vector.length then some (vector.set i.toNat value) else none

@[simp]
theorem read_natCast (vector : List Value) (i : Nat) : read vector i = vector[i]? :=
  if_pos (Int.natCast_nonneg i)

theorem write_natCast {vector : List Value} {i : Nat} (hi : i < vector.length) (value : Value) :
    write vector i value = some (vector.set i value) :=
  if_pos ⟨Int.natCast_nonneg i, Int.ofNat_lt.mpr hi⟩

theorem read_map {Image : Type*} (f : Value → Image) (vector : List Value) (i : Int) :
    read (vector.map f) i = (read vector i).map f := by
  unfold read
  split_ifs
  · rw [List.getElem?_map]
  · rfl

/-- Inside the vector there is an element, the first of what is left from there. -/
theorem exists_read {vector : List Value} {i : Int} (hLow : 0 ≤ i) (hHigh : i < vector.length) :
    ∃ value, read vector i = some value ∧
      vector.drop i.toNat = value :: vector.drop (i + 1).toNat := by
  have hInside : i.toNat < vector.length := by omega
  have hNext : (i + 1).toNat = i.toNat + 1 := by omega
  refine ⟨vector[i.toNat], ?_, ?_⟩
  · unfold read
    rw [if_pos hLow, List.getElem?_eq_getElem hInside]
  · rw [hNext]
    exact List.drop_eq_getElem_cons hInside

end Vectors

variable {State Result : Type*}

/-- What a round leads to: a further round, or the end of the loop. -/
inductive Round (State Result : Type*)
  | again (next : State)
  | leave (result : Result)

/-- At most `fuel` rounds. -/
def run (body : State → Option (Round State Result)) : Nat → State → Option Result
  | 0, _ => none
  | fuel + 1, s =>
      match body s with
      | none => none
      | some (.again next) => run body fuel next
      | some (.leave result) => some result

/-- With enough fuel the computation has this outcome. Without an outcome it
leaves a vector, or does not end. -/
def Settles (computation : Nat → Option Result) (outcome : Option Result) : Prop :=
  ∃ enough, ∀ fuel, enough ≤ fuel → computation fuel = outcome

theorem Settles.unique {computation : Nat → Option Result} {first second : Option Result}
    (left : Settles computation first) (right : Settles computation second) : first = second := by
  obtain ⟨n, hLeft⟩ := left
  obtain ⟨k, hRight⟩ := right
  exact (hLeft (max n k) (Nat.le_max_left n k)).symm.trans (hRight (max n k) (Nat.le_max_right n k))

/-- The rule for loops that end, with an invariant as the motive. `value` is what the
rest of the loop will come to; a round either comes to it at once or leaves it as it
is, with a measure that gets smaller. -/
theorem run_of_measure {body : State → Option (Round State Result)} {motive : State → Prop}
    (measure : State → Nat) (value : State → Option Result)
    (single : ∀ s, motive s →
      (body s = none ∧ value s = none) ∨
      (∃ result, body s = some (.leave result) ∧ value s = some result) ∨
      ∃ next, body s = some (.again next) ∧ motive next ∧ measure next < measure s ∧
        value next = value s)
    {fuel : Nat} {s : State} (start : motive s) (hFuel : measure s < fuel) :
    run body fuel s = value s := by
  induction fuel generalizing s with
  | zero => exact absurd hFuel (Nat.not_lt_zero _)
  | succ fuel ih =>
      unfold run
      rcases single s start with
        ⟨hBody, hValue⟩ | ⟨result, hBody, hValue⟩ | ⟨next, hBody, hNext, hLess, hValue⟩
      · rw [hBody, hValue]
      · rw [hBody, hValue]
      · rw [hBody]
        dsimp only
        rw [ih hNext (by omega), hValue]

end Loops

import Mathlib.Data.List.Basic

/-! A scanner takes as many symbols of one kind as there are. Two texts that are
written one behind the other are cut apart again if the second begins with
another kind of symbol. -/
namespace Scanning

variable {Symbol : Type*} {kind : Symbol → Bool}

/-- A text that a scanner takes as a whole. -/
def Run (kind : Symbol → Bool) (t : List Symbol) : Prop :=
  ∀ c ∈ t, kind c = true

/-- A text that a scanner takes nothing of. -/
def Stops (kind : Symbol → Bool) (t : List Symbol) : Prop :=
  ∀ c ∈ t.head?, kind c = false

@[simp]
theorem run_nil : Run kind [] := by simp [Run]

@[simp]
theorem run_cons {c : Symbol} {t : List Symbol} :
    Run kind (c :: t) ↔ kind c = true ∧ Run kind t :=
  List.forall_mem_cons

theorem run_append {first second : List Symbol} :
    Run kind (first ++ second) ↔ Run kind first ∧ Run kind second :=
  List.forall_mem_append

@[simp]
theorem stops_nil : Stops kind [] := by simp [Stops]

@[simp]
theorem stops_cons {c : Symbol} {t : List Symbol} : Stops kind (c :: t) ↔ kind c = false := by
  simp [Stops]

/-- What stands behind a text of another kind decides only where that text is empty. -/
theorem stops_append {first second : List Symbol} (hFirst : Stops kind first)
    (hSecond : Stops kind second) : Stops kind (first ++ second) := by
  cases first with
  | nil => exact hSecond
  | cons c t => exact hFirst

theorem takeWhile_stops {t : List Symbol} (hStops : Stops kind t) : t.takeWhile kind = [] := by
  cases t with
  | nil => rfl
  | cons c t => rw [List.takeWhile_cons, stops_cons.mp hStops, if_neg Bool.false_ne_true]

theorem dropWhile_stops {t : List Symbol} (hStops : Stops kind t) : t.dropWhile kind = t := by
  cases t with
  | nil => rfl
  | cons c t => rw [List.dropWhile_cons, stops_cons.mp hStops, if_neg Bool.false_ne_true]

theorem takeWhile_run {first second : List Symbol} (hRun : Run kind first)
    (hStops : Stops kind second) : (first ++ second).takeWhile kind = first := by
  rw [List.takeWhile_append_of_pos hRun, takeWhile_stops hStops, List.append_nil]

theorem dropWhile_run {first second : List Symbol} (hRun : Run kind first)
    (hStops : Stops kind second) : (first ++ second).dropWhile kind = second := by
  rw [List.dropWhile_append_of_pos hRun, dropWhile_stops hStops]

theorem takeWhile_all {t : List Symbol} (hRun : Run kind t) : t.takeWhile kind = t := by
  rw [← List.append_nil t, takeWhile_run hRun stops_nil, List.append_nil]

theorem run_takeWhile (t : List Symbol) : Run kind (t.takeWhile kind) :=
  List.all_eq_true.mp List.all_takeWhile

theorem stops_dropWhile (t : List Symbol) : Stops kind (t.dropWhile kind) := by
  intro c hHead
  have hNot := List.head?_dropWhile_not kind t
  rw [Option.mem_def.mp hHead] at hNot
  exact hNot

/-- Every text is cut at the end of the scan. -/
theorem cut (t : List Symbol) : ∃ run rest, t = run ++ rest ∧ Run kind run ∧ Stops kind rest :=
  ⟨_, _, List.takeWhile_append_dropWhile.symm, run_takeWhile t, stops_dropWhile t⟩

/-- A step of a parser that has not failed has had a result to go on with. -/
theorem bind_eq_ok {Failure Value Result : Type} {first : Except Failure Value}
    {next : Value → Except Failure Result} {result : Result} :
    first >>= next = .ok result ↔ ∃ value, first = .ok value ∧ next value = .ok result := by
  cases first with
  | error failure => simp [bind, Except.bind]
  | ok value => simp [bind, Except.bind]

end Scanning

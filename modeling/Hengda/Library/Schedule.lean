import Mathlib.Data.List.Basic
import Mathlib.Data.List.Induction

/-! Several threads that take turns, as a partial step function: a move that no
thread can make in a state has no result. A schedule is a list of moves, first
move first, and a run is a schedule all of whose moves are possible. -/
namespace Schedule

variable {State Move : Type*}

/-- The state after all moves, or `none` if one of them is impossible where it
stands. -/
def run (step : State → Move → Option State) (start : State) (moves : List Move) :
    Option State :=
  moves.foldlM step start

/-- A state that some schedule leads to. -/
def Reachable (step : State → Move → Option State) (start state : State) : Prop :=
  ∃ moves, run step start moves = some state

variable {step : State → Move → Option State} {start : State}

@[simp]
theorem run_nil : run step start [] = some start := rfl

@[simp]
theorem run_cons (move : Move) (rest : List Move) :
    run step start (move :: rest) = (step start move).bind fun state => run step state rest :=
  rfl

theorem run_append (first second : List Move) :
    run step start (first ++ second) =
      (run step start first).bind fun state => run step state second := by
  induction first generalizing start with
  | nil => rfl
  | cons move rest ih =>
      rw [List.cons_append, run_cons, run_cons, Option.bind_assoc]
      congr 1
      funext state
      exact ih

theorem run_concat (moves : List Move) (move : Move) :
    run step start (moves ++ [move]) =
      (run step start moves).bind fun state => step state move := by
  rw [run_append]
  congr 1
  funext state
  rw [run_cons]
  simp

/-- What is known about a part of a run: the state in front of each move exists. -/
theorem exists_of_run_append {first second : List Move} {state : State}
    (hRun : run step start (first ++ second) = some state) :
    ∃ middle, run step start first = some middle ∧ run step middle second = some state := by
  rw [run_append, Option.bind_eq_some_iff] at hRun
  exact hRun

/-- A property of the schedule so far and the state it has led to holds for
every run as soon as it holds at the start and each possible move extends it. -/
theorem run_rule {motive : List Move → State → Prop} (initial : motive [] start)
    (extend : ∀ past state move after, motive past state → step state move = some after →
      motive (past ++ [move]) after)
    {moves : List Move} {state : State} (hRun : run step start moves = some state) :
    motive moves state := by
  induction moves using List.reverseRecOn generalizing state with
  | nil =>
      cases hRun
      exact initial
  | append_singleton past move ih =>
      rw [run_concat, Option.bind_eq_some_iff] at hRun
      obtain ⟨before, hPast, hStep⟩ := hRun
      exact extend past before move state (ih hPast) hStep

/-- The moves of a run with the states in front of them. It ends with a move that is
impossible. -/
def history (step : State → Move → Option State) (start : State) :
    List Move → List (State × Move)
  | [] => []
  | move :: rest =>
      (start, move) ::
        match step start move with
        | some state => history step state rest
        | none => []

theorem history_append {first second : List Move} {middle : State}
    (hRun : run step start first = some middle) :
    history step start (first ++ second) =
      history step start first ++ history step middle second := by
  induction first generalizing start with
  | nil =>
      cases hRun
      rfl
  | cons move rest ih =>
      rw [run_cons, Option.bind_eq_some_iff] at hRun
      obtain ⟨state, hStep, hRest⟩ := hRun
      rw [List.cons_append, history, history, hStep]
      dsimp only
      rw [ih hRest, List.cons_append]

theorem history_concat {moves : List Move} {state : State}
    (hRun : run step start moves = some state) (move : Move) :
    history step start (moves ++ [move]) = history step start moves ++ [(state, move)] := by
  rw [history_append hRun, history]
  cases step state move <;> rfl

/-- An inductive invariant holds in every reachable state. -/
theorem Reachable.invariant {invariant : State → Prop} {state : State}
    (reached : Reachable step start state) (initial : invariant start)
    (preserve : ∀ before move after, invariant before → step before move = some after →
      invariant after) :
    invariant state := by
  obtain ⟨moves, hRun⟩ := reached
  exact run_rule (motive := fun _ state => invariant state) initial
    (fun _ before move after h hStep => preserve before move after h hStep) hRun

end Schedule

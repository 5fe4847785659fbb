import Mathlib.Data.List.Basic
import Mathlib.Data.List.Induction

/-! Deterministic machines driven by a list of inputs. A run is a left fold of
the step function and its history keeps every transition, oldest first. The
rules below turn facts about one transition into facts about whole runs. -/
namespace Machine

variable {State Input : Type*}

/-- One executed transition, with the state on either side of it. -/
structure Transition (State Input : Type*) where
  before : State
  input : Input
  after : State

/-- The state after all inputs, the first one being consumed first. -/
def run (step : State → Input → State) (start : State) (inputs : List Input) : State :=
  inputs.foldl step start

/-- The transitions of a run. Nothing is dropped, also when a transition
leaves the state as it was. -/
def history (step : State → Input → State) (start : State) :
    List Input → List (Transition State Input)
  | [] => []
  | input :: rest =>
      ⟨start, input, step start input⟩ :: history step (step start input) rest

/-- A state that some run from `start` ends in. -/
def Reachable (step : State → Input → State) (start state : State) : Prop :=
  ∃ inputs, run step start inputs = state

variable (step : State → Input → State) (start : State)

@[simp]
theorem run_nil : run step start [] = start := rfl

@[simp]
theorem run_cons (input : Input) (rest : List Input) :
    run step start (input :: rest) = run step (step start input) rest := rfl

theorem run_concat (inputs : List Input) (input : Input) :
    run step start (inputs ++ [input]) = step (run step start inputs) input := by
  simp [run]

theorem history_append (first second : List Input) :
    history step start (first ++ second) =
      history step start first ++ history step (run step start first) second := by
  induction first generalizing start with
  | nil => rfl
  | cons input rest ih => simp [history, ih]

theorem history_concat (inputs : List Input) (input : Input) :
    history step start (inputs ++ [input]) = history step start inputs ++
      [⟨run step start inputs, input, step (run step start inputs) input⟩] :=
  history_append step start inputs [input]

@[simp]
theorem history_length (inputs : List Input) :
    (history step start inputs).length = inputs.length := by
  induction inputs generalizing start with
  | nil => rfl
  | cons input rest ih => simp [history, ih]

/-- The transition at position `k` leads from the state after `k` inputs to
the state after `k + 1` inputs. -/
theorem history_getElem? (inputs : List Input) (k : Nat) :
    (history step start inputs)[k]? = inputs[k]?.map (fun input =>
      ⟨run step start (inputs.take k), input, run step start (inputs.take (k + 1))⟩) := by
  induction inputs generalizing start k with
  | nil => simp [history]
  | cons input rest ih =>
      cases k with
      | zero => simp [history]
      | succ k => simp [history, ih]

theorem history_take (inputs : List Input) (k : Nat) :
    (history step start inputs).take k = history step start (inputs.take k) := by
  induction inputs generalizing start k with
  | nil => simp [history]
  | cons input rest ih =>
      cases k with
      | zero => simp [history]
      | succ k => simp [history, ih]

theorem Reachable.refl : Reachable step start start :=
  ⟨[], rfl⟩

variable {step start}

theorem Reachable.next {state : State} (reached : Reachable step start state) (input : Input) :
    Reachable step start (step state input) := by
  obtain ⟨inputs, rfl⟩ := reached
  exact ⟨inputs ++ [input], run_concat step start inputs input⟩

/-- A property of the history so far and the current state holds after every
run as soon as it holds at the start and one transition extends it. -/
theorem history_rule {motive : List (Transition State Input) → State → Prop}
    (initial : motive [] start)
    (extend : ∀ past state input, motive past state →
      motive (past ++ [⟨state, input, step state input⟩]) (step state input))
    (inputs : List Input) :
    motive (history step start inputs) (run step start inputs) := by
  induction inputs using List.reverseRecOn with
  | nil => exact initial
  | append_singleton inputs input ih =>
      rw [history_concat, run_concat]
      exact extend _ _ input ih

/-- An inductive invariant holds in every reachable state. -/
theorem Reachable.invariant {invariant : State → Prop} {state : State}
    (reached : Reachable step start state) (initial : invariant start)
    (preserve : ∀ state input, invariant state → invariant (step state input)) :
    invariant state := by
  obtain ⟨inputs, rfl⟩ := reached
  exact history_rule (motive := fun _ state => invariant state) initial
    (fun _ state input h => preserve state input h) inputs

/-- Every transition of a run starts in a reachable state and is a step. -/
theorem mem_history {inputs : List Input} {transition : Transition State Input}
    (mem : transition ∈ history step start inputs) :
    Reachable step start transition.before ∧ transition.input ∈ inputs ∧
      transition.after = step transition.before transition.input := by
  induction inputs using List.reverseRecOn with
  | nil => cases mem
  | append_singleton inputs input ih =>
      rw [history_concat, List.mem_append, List.mem_singleton] at mem
      rcases mem with mem | rfl
      · obtain ⟨reached, hInput, hAfter⟩ := ih mem
        exact ⟨reached, List.mem_append_left _ hInput, hAfter⟩
      · exact ⟨⟨inputs, rfl⟩, by simp, rfl⟩

/-- A relation that composes holds between the ends of a fold as soon as it
holds for each step of it. -/
theorem foldl_relation (relation : State → State → Prop) {items : List Input}
    (reflexive : ∀ state, relation state state)
    (transitive : ∀ first second third, relation first second → relation second third →
      relation first third)
    (single : ∀ state, ∀ item ∈ items, relation state (step state item)) :
    relation start (items.foldl step start) := by
  induction items generalizing start with
  | nil => exact reflexive start
  | cons item rest ih =>
      have hRest : relation (step start item) (rest.foldl step (step start item)) :=
        ih (fun state other mem => single state other (List.mem_cons_of_mem _ mem))
      exact transitive _ _ _ (single start item (by simp)) hRest

end Machine

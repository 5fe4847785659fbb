import Mathlib.Data.List.Basic
import Mathlib.Data.List.TakeWhile

/-! One variable that holds a resource at a time. Filling it and making it blank
both forget what it held, so that a resource has to be released in between. -/
namespace Slot

variable {Resource : Type*}

inductive Event (Resource : Type*)
  | blank
  | fill (r : Resource)
  | release
deriving DecidableEq, Repr

def Event.isBlank : Event Resource → Bool
  | .blank => true
  | _ => false

def Event.isFill : Event Resource → Bool
  | .fill _ => true
  | _ => false

def Event.isRelease : Event Resource → Bool
  | .release => true
  | _ => false

def fills (trace : List (Event Resource)) : Nat :=
  trace.countP Event.isFill

def releases (trace : List (Event Resource)) : Nat :=
  trace.countP Event.isRelease

/-- The events before the variable is made blank the next time. -/
def untilBlank (trace : List (Event Resource)) : List (Event Resource) :=
  trace.takeWhile fun e => !e.isBlank

/-- Each resource is released exactly once before the variable is made blank again,
and none is left. -/
structure Released (trace : List (Event Resource)) : Prop where
  once : ∀ before r after, trace = before ++ .fill r :: after → releases (untilBlank after) = 1
  balanced : fills trace = releases trace

/-- Traces of a disciplined user. -/
inductive Settled : List (Event Resource) → Prop
  | nil : Settled []
  | blank {trace : List (Event Resource)} (settled : Settled trace) : Settled (trace ++ [.blank])
  | use {trace : List (Event Resource)} (settled : Settled trace) (r : Resource) :
      Settled (trace ++ [.blank, .fill r, .release])

theorem untilBlank_append (trace rest : List (Event Resource)) :
    untilBlank (trace ++ .blank :: rest) = untilBlank trace := by
  induction trace with
  | nil => rfl
  | cons e trace ih =>
      unfold untilBlank at ih ⊢
      cases hBlank : e.isBlank with
      | true => simp [hBlank]
      | false => simp [hBlank, ih]

/-- What was filled before the variable is made blank has been dealt with by then. -/
theorem once_append {trace rest : List (Event Resource)}
    (hTrace : ∀ before r after, trace = before ++ .fill r :: after →
      releases (untilBlank after) = 1)
    (hRest : ∀ before r after, rest = before ++ .fill r :: after →
      releases (untilBlank after) = 1) :
    ∀ before r after, trace ++ .blank :: rest = before ++ .fill r :: after →
      releases (untilBlank after) = 1 := by
  intro before r after hSplit
  rcases List.append_eq_append_iff.mp hSplit with
    ⟨between, _, hLater⟩ | ⟨between, hEarlier, hLater⟩
  · cases between with
    | nil => cases hLater
    | cons first others =>
        rw [List.cons_append, List.cons.injEq] at hLater
        exact hRest others r after hLater.2
  · cases between with
    | nil => cases hLater
    | cons first others =>
        rw [List.cons_append, List.cons.injEq] at hLater
        obtain ⟨rfl, rfl⟩ := hLater
        rw [untilBlank_append]
        exact hTrace before r others hEarlier

theorem Settled.released {trace : List (Event Resource)} (settled : Settled trace) :
    Released trace := by
  induction settled with
  | nil => exact ⟨fun before r after hSplit => by simp at hSplit, rfl⟩
  | blank settled ih =>
      refine ⟨once_append ih.once (fun before r after hSplit => by simp at hSplit), ?_⟩
      have hBalanced := ih.balanced
      unfold fills releases at hBalanced ⊢
      rw [List.countP_append, List.countP_append, hBalanced]
      rfl
  | use settled r ih =>
      refine ⟨once_append ih.once ?_, ?_⟩
      · intro before other after hSplit
        cases before with
        | nil =>
            cases hSplit
            rfl
        | cons first others =>
            rw [List.cons_append, List.cons.injEq] at hSplit
            cases others with
            | nil => cases hSplit.2
            | cons second last => simp at hSplit
      · have hBalanced := ih.balanced
        unfold fills releases at hBalanced ⊢
        rw [List.countP_append, List.countP_append, hBalanced]
        rfl

/-- A resource that is still in the variable is missing in the balance. -/
theorem Settled.not_released {trace : List (Event Resource)} (settled : Settled trace)
    (r : Resource) : ¬ Released (trace ++ [.blank, .fill r]) := by
  intro released
  have hBefore := settled.released.balanced
  have hAfter := released.balanced
  unfold fills releases at hBefore hAfter
  rw [List.countP_append, List.countP_append, hBefore] at hAfter
  have hFill : List.countP Event.isFill [.blank, .fill r] = 1 := rfl
  have hRelease : List.countP Event.isRelease [.blank, .fill r] = 0 := rfl
  omega

end Slot

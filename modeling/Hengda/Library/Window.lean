import Mathlib.Data.List.DropRight

/-! Sliding windows over a growing history. A window of capacity `cap` is a
queue that is pushed at the back and loses its oldest entry when it becomes
too long; it then holds the newest `cap` entries of everything pushed. -/
namespace Window

variable {α β : Type*}

/-- Push an entry and drop the oldest one beyond the capacity. -/
def push (cap : Nat) (window : List α) (entry : α) : List α :=
  if cap < (window ++ [entry]).length then (window ++ [entry]).tail else window ++ [entry]

theorem rtake_length (history : List α) (cap : Nat) :
    (history.rtake cap).length = min history.length cap := by
  unfold List.rtake
  rw [List.length_drop]
  omega

/-- The newest `cap` entries after a push are what the window then holds. -/
theorem push_rtake (cap : Nat) (history : List α) (entry : α) :
    push cap (history.rtake cap) entry = (history ++ [entry]).rtake cap := by
  have hLength := rtake_length history cap
  unfold push
  simp only [List.length_append, List.length_singleton, hLength]
  unfold List.rtake
  simp only [List.length_append, List.length_singleton]
  by_cases hFull : cap ≤ history.length
  · rw [if_pos (by omega), List.drop_append_of_le_length (by omega) |>.symm, ← List.drop_one,
      List.drop_drop]
    congr 1
    omega
  · rw [if_neg (by omega), show history.length - cap = 0 by omega,
      show history.length + 1 - cap = 0 by omega]
    rfl

/-- The entry at a position of a full window, counted in the history. -/
theorem rtake_getElem? (history : List α) (cap k : Nat) :
    (history.rtake cap)[k]? = history[history.length - cap + k]? := by
  unfold List.rtake
  rw [List.getElem?_drop]

/-- Overwriting the entry that was just pushed is pushing the other entry. -/
theorem push_overwrite {cap : Nat} (hCap : 0 < cap) (window : List α) (first second : α) :
    (push cap window first).dropLast ++ [second] = push cap window second := by
  unfold push
  simp only [List.length_append, List.length_singleton]
  by_cases hFull : cap < window.length + 1
  · rw [if_pos hFull, if_pos hFull]
    cases window with
    | nil =>
        rw [List.length_nil] at hFull
        omega
    | cons entry rest => simp
  · rw [if_neg hFull, if_neg hFull, List.dropLast_concat]

end Window

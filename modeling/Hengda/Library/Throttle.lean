import Mathlib.Data.Nat.ModEq
import Mathlib.Data.List.Range

/-! Throttling by a counter. The counter is increased at every hit, wraps
around at `modulus`, and a hit is let through when the counter then leaves the
rest `phase` modulo `period`. -/
namespace Throttle

variable (modulus period phase : Nat)

/-- The hit that takes the counter from `value` to its successor passes. -/
def Passes (value : Nat) : Prop :=
  (value + 1) % modulus % period = phase

instance (value : Nat) : Decidable (Passes modulus period phase value) :=
  inferInstanceAs (Decidable (_ = _))

/-- How many of `hits` hits pass when the counter starts at `start`. -/
def passed (start hits : Nat) : Nat :=
  (List.range hits).countP (fun j => Passes modulus period phase (start + j))

@[simp]
theorem passed_zero (start : Nat) : passed modulus period phase start 0 = 0 := rfl

theorem passed_one (start : Nat) : passed modulus period phase start 1 =
    if Passes modulus period phase start then 1 else 0 := by
  simp [passed, List.countP_singleton]

theorem passes_mod (value : Nat) :
    Passes modulus period phase (value % modulus) ↔ Passes modulus period phase value := by
  unfold Passes
  rw [Nat.mod_add_mod]

/-- Hits pass one after the other: the second group finds the counter where
the first one left it, wrapped around or not. -/
theorem passed_add (start first second : Nat) :
    passed modulus period phase start (first + second) =
      passed modulus period phase start first +
        passed modulus period phase ((start + first) % modulus) second := by
  unfold passed
  rw [List.range_add, List.countP_append, List.countP_map]
  congr 1
  apply List.countP_congr
  intro j _
  have hSame := passes_mod modulus period phase (start + first + j)
  rw [← Nat.mod_add_mod, passes_mod] at hSame
  simp only [Function.comp_apply, decide_eq_true_eq, Nat.add_assoc] at hSame ⊢
  exact hSame.symm

theorem passed_pos_iff (start hits : Nat) : 0 < passed modulus period phase start hits ↔
    ∃ j < hits, Passes modulus period phase (start + j) := by
  simp [passed, List.countP_pos_iff]

theorem passed_mono (start : Nat) {fewer more : Nat} (h : fewer ≤ more) :
    passed modulus period phase start fewer ≤ passed modulus period phase start more := by
  obtain ⟨extra, rfl⟩ := Nat.exists_eq_add_of_le h
  rw [passed_add]
  exact Nat.le_add_right _ _

end Throttle

import Mathlib.Data.List.Basic
import Mathlib.Data.List.Induction
import Mathlib.Order.Lattice

/-! Serial numbers that are handed out along a list of events. `f` lists the
numbers of one event; over all events they are sorted, so that later events
have larger numbers and the last number handed out is the largest one. -/
namespace Serial

variable {Event Number : Type*}

/-- What was handed out by the first `m + 1` events. -/
theorem mem_take_flatMap (f : Event → List Number) (events : List Event) (m : Nat) (v : Number) :
    v ∈ (events.take (m + 1)).flatMap f ↔
      ∃ t, t ≤ m ∧ ∃ e, events[t]? = some e ∧ v ∈ f e := by
  rw [List.mem_flatMap]
  constructor
  · rintro ⟨e, mem, hv⟩
    obtain ⟨t, hGet⟩ := List.getElem?_of_mem mem
    have hLess := (List.getElem?_eq_some_iff.mp hGet).1
    rw [List.length_take] at hLess
    rw [List.getElem?_take_of_lt (by omega)] at hGet
    exact ⟨t, by omega, e, hGet, hv⟩
  · rintro ⟨t, hLe, e, hGet, hv⟩
    refine ⟨e, ?_, hv⟩
    apply List.mem_of_getElem? (i := t)
    rw [List.getElem?_take_of_lt (by omega), hGet]

theorem flatMap_order {R : Number → Number → Prop} {f : Event → List Number}
    {events : List Event} (sorted : (events.flatMap f).Pairwise R) {i j : Nat} {e e' : Event}
    (hFirst : events[i]? = some e) (hSecond : events[j]? = some e') (hLess : i < j)
    {v w : Number} (hv : v ∈ f e) (hw : w ∈ f e') : R v w := by
  obtain ⟨hi, rfl⟩ := List.getElem?_eq_some_iff.mp hFirst
  obtain ⟨hj, rfl⟩ := List.getElem?_eq_some_iff.mp hSecond
  have hApart := (List.pairwise_flatMap.mp sorted).2
  exact List.pairwise_iff_getElem.mp hApart i j hi hj hLess v hv w hw

/-- In a sorted list the last entry is the one that no entry exceeds. -/
theorem getLast?_iff [LinearOrder Number] {numbers : List Number}
    (sorted : numbers.Pairwise (· < ·)) (v : Number) :
    numbers.getLast? = some v ↔ v ∈ numbers ∧ ∀ w ∈ numbers, w ≤ v := by
  induction numbers using List.reverseRecOn with
  | nil => simp
  | append_singleton numbers last _ =>
      have hBelow : ∀ w ∈ numbers, w < last := by
        intro w mem
        exact (List.pairwise_append.mp sorted).2.2 w mem last (List.mem_singleton_self _)
      rw [List.getLast?_concat, Option.some.injEq]
      constructor
      · rintro rfl
        refine ⟨by simp, ?_⟩
        intro w mem
        rcases List.mem_append.mp mem with mem | mem
        · exact le_of_lt (hBelow w mem)
        · exact le_of_eq (List.mem_singleton.mp mem)
      · rintro ⟨mem, hMax⟩
        rcases List.mem_append.mp mem with mem | mem
        · exact absurd (hMax last (by simp)) (not_le_of_gt (hBelow v mem))
        · exact (List.mem_singleton.mp mem).symm

end Serial

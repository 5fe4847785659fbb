import Mathlib.Data.Finset.Card
import Mathlib.Data.List.Nodup

/-! Tables of bounded length that forget what has not been used for the longest time. The items
stand in the order of their last use, the newest one first. -/
namespace Recency

variable {K V : Type*} [DecidableEq K]

abbrev Items (K V : Type*) := List (K × V)

/-- A use of the table. A key that is there already is not inserted again, and this is not a
use of it either. -/
inductive Use (K V : Type*) where
  | find (k : K)
  | insert (k : K) (v : V)
  | erase (k : K)
  | clear

def keys (items : Items K V) : List K :=
  items.map Prod.fst

def without (k : K) (items : Items K V) : Items K V :=
  items.filter fun item => item.1 ≠ k

/-- The items after one use. -/
def step (capacity : Nat) (items : Items K V) : Use K V → Items K V
  | .find k =>
      match items.lookup k with
      | some v => (k, v) :: without k items
      | none => items
  | .insert k v =>
      match items.lookup k with
      | some _ => items
      | none => ((k, v) :: items).take capacity
  | .erase k => without k items
  | .clear => []

/-- What is found. -/
def answer (items : Items K V) : Use K V → Option V
  | .find k => items.lookup k
  | _ => none

/-- The key that a use puts in front. -/
def Use.key : Use K V → Option K
  | .find k => some k
  | .insert k _ => some k
  | .erase _ => none
  | .clear => none

/-- No key twice, and not too many of them. -/
structure Proper (capacity : Nat) (items : Items K V) : Prop where
  nodup : (keys items).Nodup
  bound : items.length ≤ capacity

section Lookup

theorem lookup_without_self (k : K) (items : Items K V) : (without k items).lookup k = none := by
  rw [List.lookup_eq_none_iff]
  intro item hMem
  have hOther : item.1 ≠ k := of_decide_eq_true (List.mem_filter.mp hMem).2
  exact bne_iff_ne.mpr (Ne.symm hOther)

theorem lookup_without_ne {k j : K} (hNe : j ≠ k) (items : Items K V) :
    (without k items).lookup j = items.lookup j := by
  induction items with
  | nil => rfl
  | cons item items ih =>
      obtain ⟨i, v⟩ := item
      by_cases hSame : i = k
      · subst hSame
        have hOther : (j == i) = false := beq_eq_false_iff_ne.mpr hNe
        rw [List.lookup_cons, hOther]
        simpa [without] using ih
      · have hKept : without k ((i, v) :: items) = (i, v) :: without k items := by
          simp [without, hSame]
        rw [hKept, List.lookup_cons, List.lookup_cons, ih]

theorem lookup_isSome (k : K) (items : Items K V) : (items.lookup k).isSome ↔ k ∈ keys items := by
  simp [keys, List.lookup_isSome_iff]

theorem lookup_eq_none (k : K) (items : Items K V) : items.lookup k = none ↔ k ∉ keys items := by
  rw [← lookup_isSome]
  cases items.lookup k <;> simp

theorem mem_of_lookup {k : K} {v : V} {items : Items K V} (hFound : items.lookup k = some v) :
    (k, v) ∈ items := by
  obtain ⟨front, rest, hItems, -⟩ := List.lookup_eq_some_iff.mp hFound
  rw [hItems]
  exact List.mem_append_right _ (List.mem_cons_self ..)

theorem keys_without (k : K) (items : Items K V) :
    keys (without k items) = (keys items).filter fun j => j ≠ k := by
  rw [keys, without, keys, List.filter_map]
  rfl

/-- An item that is there after a use was there before, or it has been inserted. -/
theorem mem_step {capacity : Nat} {items : Items K V} {use : Use K V} {k : K} {v : V}
    (hMem : (k, v) ∈ step capacity items use) : (k, v) ∈ items ∨ use = .insert k v := by
  cases use with
  | find j =>
      rw [step] at hMem
      cases hFound : items.lookup j with
      | none =>
          rw [hFound] at hMem
          exact Or.inl hMem
      | some w =>
          rw [hFound] at hMem
          rcases List.mem_cons.mp hMem with hSame | hMem
          · rw [hSame]
            exact Or.inl (mem_of_lookup hFound)
          · exact Or.inl (List.mem_filter.mp hMem).1
  | insert j w =>
      rw [step] at hMem
      cases hFound : items.lookup j with
      | some u =>
          rw [hFound] at hMem
          exact Or.inl hMem
      | none =>
          rw [hFound] at hMem
          rcases List.mem_cons.mp (List.mem_of_mem_take hMem) with hSame | hMem
          · cases hSame
            exact Or.inr rfl
          · exact Or.inl hMem
  | erase j => exact Or.inl (List.mem_filter.mp hMem).1
  | clear => exact absurd hMem List.not_mem_nil

theorem without_of_not_mem {k : K} {items : Items K V} (hAbsent : k ∉ keys items) :
    without k items = items := by
  refine List.filter_eq_self.mpr fun item hMem => decide_eq_true ?_
  rintro rfl
  exact hAbsent (List.mem_map_of_mem hMem)

theorem without_cons_self (k : K) (v : V) (items : Items K V) :
    without k ((k, v) :: items) = without k items := by
  simp [without]

/-- The last item is dropped as any other item with its key. -/
theorem without_concat {k : K} {v : V} {items : Items K V} (hAbsent : k ∉ keys items) :
    without k (items ++ [(k, v)]) = items := by
  rw [without, List.filter_append]
  have hLast : List.filter (fun item : K × V => item.1 ≠ k) [(k, v)] = [] := by simp
  rw [hLast, List.append_nil]
  exact without_of_not_mem hAbsent

theorem length_without {k : K} {items : Items K V} (hMem : k ∈ keys items) :
    (without k items).length < items.length := by
  obtain ⟨item, hItem, hKey⟩ := List.mem_map.mp hMem
  apply List.length_filter_lt_length_iff_exists.mpr
  exact ⟨item, hItem, by simp [hKey]⟩

end Lookup

section Steps

variable {capacity : Nat} {items : Items K V}

/-- The item is there, and only keys of the set have been used after it. -/
def Kept (k : K) (v : V) (names : Finset K) (items : Items K V) : Prop :=
  ∃ front rest, items = front ++ (k, v) :: rest ∧ ∀ j ∈ keys front, j ∈ names

theorem Kept.lookup {k : K} {v : V} {names : Finset K} (hProper : Proper capacity items)
    (hKept : Kept k v names items) : items.lookup k = some v := by
  obtain ⟨front, rest, rfl, -⟩ := hKept
  have hNodup := hProper.nodup
  rw [keys, List.map_append, List.nodup_append] at hNodup
  refine List.lookup_eq_some_iff.mpr ⟨front, rest, rfl, ?_⟩
  intro item hMem
  refine bne_iff_ne.mpr (Ne.symm ?_)
  exact hNodup.2.2 item.1 (List.mem_map_of_mem hMem) k (List.mem_cons_self ..)

theorem Kept.without {k j : K} {v : V} {names : Finset K} (hNe : j ≠ k)
    (hKept : Kept k v names items) : Kept k v names (without j items) := by
  obtain ⟨front, rest, rfl, hFront⟩ := hKept
  refine ⟨Recency.without j front, Recency.without j rest, ?_, ?_⟩
  · simp [Recency.without, List.filter_append, Ne.symm hNe]
  · intro i hMem
    rw [keys_without] at hMem
    exact hFront i (List.mem_filter.mp hMem).1

/-- The keys other than `k` that the uses put in front. -/
def others (k : K) (uses : List (Use K V)) : Finset K :=
  (uses.filterMap Use.key).toFinset.erase k

end Steps

end Recency

import Mathlib.Data.List.Basic

/-! A list of writes into a memory. What a cell holds afterwards does not depend
on their order where those to one cell agree about its value. -/
namespace Writes

variable {Value : Type*}

/-- One write; an address outside the memory is passed over. -/
def put (memory : List Value) (write : Int × Value) : List Value :=
  if 0 ≤ write.1 then memory.set write.1.toNat write.2 else memory

def putAll (memory : List Value) (writes : List (Int × Value)) : List Value :=
  writes.foldl put memory

theorem put_getElem? (memory : List Value) (write : Int × Value) (i : Nat) :
    (put memory write)[i]? =
      if write.1 = i then memory[i]?.map (fun _ => write.2) else memory[i]? := by
  unfold put
  split_ifs with hNonneg hHere hHere
  · have hIndex : write.1.toNat = i := by omega
    rw [hIndex, List.getElem?_set, if_pos rfl]
    split_ifs with hInside
    · rw [List.getElem?_eq_getElem hInside]
      rfl
    · rw [List.getElem?_eq_none (by omega)]
      rfl
  · exact List.getElem?_set_ne (by omega)
  · omega
  · rfl

/-- A cell that no write names keeps its value. -/
theorem putAll_of_untouched {memory : List Value} {writes : List (Int × Value)} {i : Nat}
    (hUntouched : ∀ w ∈ writes, w.1 ≠ i) : (putAll memory writes)[i]? = memory[i]? := by
  unfold putAll
  induction writes generalizing memory with
  | nil => rfl
  | cons w rest ih =>
      rw [List.foldl_cons, ih (fun other mem => hUntouched other (List.mem_cons_of_mem _ mem)),
        put_getElem?, if_neg (hUntouched w List.mem_cons_self)]

/-- A cell whose writes all have the same value has that value afterwards. -/
theorem putAll_of_agree {memory : List Value} {writes : List (Int × Value)} {i : Nat}
    {value : Value} (hNamed : ∃ w ∈ writes, w.1 = i)
    (hAgree : ∀ w ∈ writes, w.1 = i → w.2 = value) :
    (putAll memory writes)[i]? = memory[i]?.map (fun _ => value) := by
  unfold putAll
  induction writes generalizing memory with
  | nil =>
      obtain ⟨w, mem, _⟩ := hNamed
      cases mem
  | cons w rest ih =>
      rw [List.foldl_cons]
      have hRest : ∀ other ∈ rest, other.1 = i → other.2 = value :=
        fun other mem => hAgree other (List.mem_cons_of_mem _ mem)
      by_cases hLater : ∃ other ∈ rest, other.1 = i
      · rw [ih hLater hRest, put_getElem?]
        split_ifs
        · rw [Option.map_map]
          rfl
        · rfl
      · -- this is the last write to the cell
        have hUntouched : ∀ other ∈ rest, other.1 ≠ i := by
          intro other mem hSame
          exact hLater ⟨other, mem, hSame⟩
        have hHere : w.1 = i := by
          obtain ⟨other, mem, hSame⟩ := hNamed
          rcases List.mem_cons.mp mem with rfl | mem
          · exact hSame
          · exact absurd hSame (hUntouched other mem)
        have hKept : (rest.foldl put (put memory w))[i]? = (put memory w)[i]? :=
          putAll_of_untouched hUntouched
        rw [hKept, put_getElem?, if_pos hHere, hAgree w List.mem_cons_self hHere]

end Writes

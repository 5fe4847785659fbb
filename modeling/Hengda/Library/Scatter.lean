import Mathlib.Data.List.Basic

/-! Updates that are scattered over a list of slots, each to the slot that it
names. A slot sees its own updates, in their order, and no others. -/
namespace Scatter

variable {Update Slot : Type*} (target : Update → Option Nat) (apply : Update → Slot → Slot)

def scatterOne (slots : List Slot) (u : Update) : List Slot :=
  match target u with
  | some i => slots.modify i (apply u)
  | none => slots

def scatter (slots : List Slot) (updates : List Update) : List Slot :=
  updates.foldl (scatterOne target apply) slots

/-- The updates of the slot at position `k`. -/
def own (updates : List Update) (k : Nat) : List Update :=
  updates.filter (fun u => target u = some k)

theorem scatterOne_getElem? (slots : List Slot) (u : Update) (k : Nat) :
    (scatterOne target apply slots u)[k]? =
      if target u = some k then slots[k]?.map (apply u) else slots[k]? := by
  unfold scatterOne
  cases hTarget : target u with
  | none => simp
  | some i =>
      rw [List.getElem?_modify]
      by_cases hHere : i = k
      · simp [hHere]
      · simp [hHere]

theorem scatter_getElem? (slots : List Slot) (updates : List Update) (k : Nat) :
    (scatter target apply slots updates)[k]? =
      slots[k]?.map (fun slot =>
        (own target updates k).foldl (fun slot u => apply u slot) slot) := by
  induction updates generalizing slots with
  | nil => simp [scatter, own]
  | cons u rest ih =>
      have hStep : scatter target apply slots (u :: rest) =
          scatter target apply (scatterOne target apply slots u) rest := rfl
      rw [hStep, ih, scatterOne_getElem?]
      by_cases hHere : target u = some k
      · have hOwn : own target (u :: rest) k = u :: own target rest k :=
          List.filter_cons_of_pos (by simp [hHere])
        rw [if_pos hHere, Option.map_map, hOwn]
        rfl
      · have hOwn : own target (u :: rest) k = own target rest k :=
          List.filter_cons_of_neg (by simp [hHere])
        rw [if_neg hHere, hOwn]

end Scatter

import Mathlib.Data.List.Rotate
import Mathlib.Data.List.Zip

/-! Closed chains. The edges of a cyclic list are its items, each paired with the
one in front of it, where the last item is in front of the first one. What is
counted over the edges does not depend on where the list starts, and reading the
list backwards turns every edge around. -/
namespace Cyclic

variable {α : Type*}

def edges (items : List α) : List (α × α) :=
  items.zip (items.rotate (items.length - 1))

/-- The number of edges with a property. -/
def countEdges (p : α × α → Bool) (items : List α) : Nat :=
  (edges items).countP p

theorem zip_rotate {first second : List α} (hLength : first.length = second.length) (k : Nat) :
    (first.zip second).rotate k = (first.rotate k).zip (second.rotate k) :=
  List.zipWith_rotate_distrib Prod.mk first second k hLength

theorem edges_rotate (items : List α) (k : Nat) :
    edges (items.rotate k) = (edges items).rotate k := by
  unfold edges
  rw [zip_rotate (List.length_rotate _ _).symm, List.length_rotate, List.rotate_rotate,
    List.rotate_rotate, Nat.add_comm]

theorem countEdges_rotated (p : α × α → Bool) {items other : List α}
    (hRotated : other.IsRotated items) : countEdges p other = countEdges p items := by
  obtain ⟨k, rfl⟩ := hRotated
  rw [countEdges, countEdges, edges_rotate]
  exact ((edges other).rotate_perm k).symm.countP_eq p

/-- Backwards the item behind each one is in front of it. -/
theorem edges_reverse (items : List α) :
    (edges items.reverse).Perm ((edges items).map Prod.swap) := by
  cases items with
  | nil => exact List.Perm.refl _
  | cons first rest =>
      have hForward : ((edges (first :: rest)).map Prod.swap).rotate 1 =
          (first :: rest).zip ((first :: rest).rotate 1) := by
        have hRound : (first :: rest).length - 1 + 1 = (first :: rest).length := by simp
        rw [edges, List.zip_swap, zip_rotate (List.length_rotate _ _), List.rotate_rotate, hRound,
          List.rotate_length]
      have hBackward : edges (first :: rest).reverse =
          ((first :: rest).zip ((first :: rest).rotate 1)).reverse := by
        have hStep : (first :: rest).length - ((first :: rest).length - 1) %
            (first :: rest).length = 1 := by
          rw [List.length_cons, Nat.add_sub_cancel, Nat.mod_eq_of_lt (Nat.lt_succ_self _)]
          omega
        rw [edges, List.length_reverse, List.rotate_reverse, hStep]
        exact (List.reverse_zipWith (List.length_rotate _ _).symm).symm
      rw [hBackward, ← hForward]
      exact (List.reverse_perm _).trans (List.rotate_perm _ _)

theorem countEdges_reverse (p : α × α → Bool) (items : List α) :
    countEdges p items.reverse = countEdges (p ∘ Prod.swap) items := by
  rw [countEdges, (edges_reverse items).countP_eq, List.countP_map, countEdges]

/-- The edges of a list that is not empty, its last item put in front. -/
theorem edges_of_getLast {items : List α} {last : α} (hLast : items.getLast? = some last) :
    edges items = items.zip (last :: items) := by
  obtain ⟨rest, rfl⟩ := List.getLast?_eq_some_iff.mp hLast
  have hCut : (rest ++ [last] ++ []).zip (last :: rest ++ [last]) =
      (rest ++ [last]).zip (last :: rest) ++ [].zip [last] := List.zip_append (by simp)
  rw [List.append_nil, List.zip_nil_left, List.append_nil] at hCut
  have hRotate : (rest ++ [last]).rotate ((rest ++ [last]).length - 1) = last :: rest := by
    rw [List.length_append, List.length_singleton, Nat.add_sub_cancel,
      List.rotate_append_length_eq]
    rfl
  rw [edges, hRotate]
  exact hCut.symm

theorem countEdges_eq_zero {p : α × α → Bool} {items : List α}
    (hNone : ∀ e ∈ edges items, p e = false) : countEdges p items = 0 :=
  List.countP_eq_zero.mpr (fun e mem => by simp [hNone e mem])

/-- What has one property has another one, and the rest of that is counted apart. -/
theorem countEdges_add {p whole part : α × α → Bool} (hPart : ∀ e, part e = true → whole e = true)
    (hRest : ∀ e, p e = true ↔ whole e = true ∧ part e = false) (items : List α) :
    countEdges p items + countEdges part items = countEdges whole items := by
  unfold countEdges
  induction edges items with
  | nil => rfl
  | cons e rest ih =>
      rw [List.countP_cons, List.countP_cons, List.countP_cons, ← ih]
      cases hWhole : whole e with
      | false =>
          have hNot : part e = false :=
            Bool.eq_false_iff.mpr (fun h => by simp [hPart e h] at hWhole)
          have hNone : p e = false :=
            Bool.eq_false_iff.mpr (fun h => by simp [((hRest e).mp h).1] at hWhole)
          simp [hNot, hNone]
      | true =>
          cases hHere : part e with
          | false =>
              have hTrue : p e = true := (hRest e).mpr ⟨hWhole, hHere⟩
              simp only [hTrue, if_true, Bool.false_eq_true, if_false]
              omega
          | true =>
              have hNone : p e = false :=
                Bool.eq_false_iff.mpr (fun h => by simp [((hRest e).mp h).2] at hHere)
              simp only [hNone, if_true, Bool.false_eq_true, if_false]
              omega

end Cyclic

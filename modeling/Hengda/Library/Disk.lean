import Mathlib.Data.List.Basic
import Mathlib.Data.List.Induction
import Mathlib.Logic.Function.Basic

/-! Files as a map from names to contents, and what remains of a list of whole
file writes: the newest content of each name. -/
namespace Disk

variable {Name Content Item : Type*} [DecidableEq Name]

def writeAll (disk : Name → Option Content) (writes : List (Name × Content)) :
    Name → Option Content :=
  writes.foldl (fun disk w => Function.update disk w.1 (some w.2)) disk

variable (disk : Name → Option Content)

theorem writeAll_append (first second : List (Name × Content)) :
    writeAll disk (first ++ second) = writeAll (writeAll disk first) second :=
  List.foldl_append

/-- A file that is not written keeps its content. -/
theorem writeAll_of_not_mem {name : Name} {writes : List (Name × Content)}
    (other : ∀ w ∈ writes, w.1 ≠ name) : writeAll disk writes name = disk name := by
  induction writes generalizing disk with
  | nil => rfl
  | cons w rest ih =>
      have hRest := ih (Function.update disk w.1 (some w.2))
        (fun w' mem => other w' (List.mem_cons_of_mem _ mem))
      change writeAll (Function.update disk w.1 (some w.2)) rest name = disk name
      rw [hRest, Function.update_of_ne (Ne.symm (other w (by simp)))]

/-- Every content on the disk was there before or comes from one of the writes. -/
theorem writeAll_cases {name : Name} {writes : List (Name × Content)} {content : Content}
    (hContent : writeAll disk writes name = some content) :
    disk name = some content ∨ (name, content) ∈ writes := by
  induction writes using List.reverseRecOn with
  | nil => exact Or.inl hContent
  | append_singleton rest w ih =>
      rw [writeAll_append] at hContent
      change Function.update (writeAll disk rest) w.1 (some w.2) name = some content at hContent
      by_cases hName : name = w.1
      · rw [hName, Function.update_self, Option.some.injEq] at hContent
        apply Or.inr
        rw [hName, ← hContent]
        simp
      · rw [Function.update_of_ne hName] at hContent
        rcases ih hContent with hOld | mem
        · exact Or.inl hOld
        · exact Or.inr (List.mem_append_left _ mem)

/-- A numbered series of files holds the items in order. -/
theorem writeAll_numbered (nameOf : Nat → Name) (hName : Function.Injective nameOf)
    (contentOf : Item → Content) (items : List Item) (start j : Nat) (hj : j < items.length) :
    writeAll disk ((items.zipIdx start).map (fun p => (nameOf p.2, contentOf p.1)))
      (nameOf (start + j)) = items[j]?.map contentOf := by
  induction items generalizing disk start j with
  | nil => cases hj
  | cons item rest ih =>
      change writeAll (Function.update disk (nameOf start) (some (contentOf item)))
        ((rest.zipIdx (start + 1)).map (fun p => (nameOf p.2, contentOf p.1)))
        (nameOf (start + j)) = _
      cases j with
      | zero =>
          rw [writeAll_of_not_mem]
          · simp
          · intro w mem
            obtain ⟨p, hp, rfl⟩ := List.mem_map.mp mem
            have hLe := (List.mem_zipIdx hp).1
            intro hSame
            have hEq : p.2 = start + 0 := hName hSame
            omega
      | succ j =>
          have hRest := ih (Function.update disk (nameOf start) (some (contentOf item)))
            (start + 1) j (by simpa using hj)
          rw [show start + (j + 1) = start + 1 + j by omega, hRest, List.getElem?_cons_succ]

end Disk

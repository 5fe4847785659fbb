import Hengda.DstEngine.BestMatch
import Hengda.Library.Schedule
import Mathlib.Data.List.Infix

/-! The states that a trail can be in. The points, the box, the age and the flag
are rewritten by different operations; what they say about each other holds in
any order of them. -/
namespace Hengda

/-- The foot that stands for a box. -/
def Rectangle.foot (box : Rectangle) : Point :=
  Hengda.foot box.anchorLt box.anchorRb

namespace Trail

/-- The operations after the constructor. -/
inductive Op
  | insert (a b : Point)
  | clear
  | updateStatesCommon
deriving DecidableEq, Repr

/-- A trail is aged only while `check_states` holds; otherwise it is erased. -/
def step (t : Trail) : Op → Option Trail
  | .insert a b => some (t.insert a b)
  | .clear => some t.clear
  | .updateStatesCommon => if t.checkStates then some t.updateStatesCommon else none

/-- The boxes of the insertions. -/
def inserted (ops : List Op) : List Rectangle :=
  ops.filterMap fun
    | .insert a b => some ⟨a, b⟩
    | _ => none

/-- All boxes that were assigned to a trail, that of the constructor first. -/
def assigned (a b : Point) (ops : List Op) : List Rectangle :=
  ⟨a, b⟩ :: inserted ops

theorem assigned_concat (a b : Point) (ops : List Op) (op : Op) :
    assigned a b (ops ++ [op]) = assigned a b ops ++ inserted [op] := by
  unfold assigned inserted
  rw [List.filterMap_append, List.cons_append]

/-- What the fields of a trail say about each other and about the boxes that were
assigned to it. -/
structure Represents (boxes : List Rectangle) (t : Trail) : Prop where
  box : boxes.getLast? = some ⟨t.lt, t.rb⟩
  last : t.points.getLast? = some (foot t.lt t.rb)
  suffix : t.points <:+ boxes.map Rectangle.foot
  length : t.points.length ≤ much
  insertable : t.insertable = true ↔ 0 < t.count
  count : t.count ≤ timeStamp

variable {boxes : List Rectangle} {t : Trail}

theorem Represents.pos (represents : Represents boxes t) : 1 ≤ t.points.length :=
  List.length_pos_of_mem (List.mem_of_getLast? represents.last)

/-- A history that has been restarted holds the last one of the feet. -/
theorem singleton_suffix {box : Rectangle} (hBox : boxes.getLast? = some box) :
    [box.foot] <:+ boxes.map Rectangle.foot := by
  obtain ⟨earlier, rfl⟩ := List.getLast?_eq_some_iff.mp hBox
  rw [List.map_append]
  exact List.suffix_append _ _

theorem one_le_much : 1 ≤ much := by decide

theorem represents_create (a b : Point) : Represents [⟨a, b⟩] (create a b) where
  box := rfl
  last := rfl
  suffix := List.suffix_refl _
  length := one_le_much
  insertable := by simp
  count := Nat.zero_le _

/-- The points go on with the new foot, or start again with it when there would
be too many of them. -/
theorem Represents.insert (represents : Represents boxes t) (a b : Point) :
    Represents (boxes ++ [⟨a, b⟩]) (t.insert a b) where
  box := by
    rw [List.getLast?_concat, insert_lt, insert_rb]
  last := by
    rw [insert_points, insert_lt, insert_rb]
    split_ifs
    · rfl
    · exact List.getLast?_concat
  suffix := by
    rw [insert_points]
    split_ifs
    · have hBox : (boxes ++ [(⟨a, b⟩ : Rectangle)]).getLast? = some ⟨a, b⟩ :=
        List.getLast?_concat
      exact singleton_suffix hBox
    · obtain ⟨earlier, hEarlier⟩ := represents.suffix
      refine ⟨earlier, ?_⟩
      rw [← List.append_assoc, hEarlier, List.map_append]
      rfl
  length := by
    rw [insert_points]
    split_ifs with hMany
    · exact one_le_much
    · rw [List.length_append, List.length_singleton]
      exact Nat.le_of_not_gt hMany
  insertable := by
    rw [insert_insertable, insert_count]
    decide
  count := by
    rw [insert_count]
    exact Nat.zero_le _

theorem Represents.clear (represents : Represents boxes t) : Represents boxes t.clear where
  box := represents.box
  last := rfl
  suffix := singleton_suffix represents.box
  length := one_le_much
  insertable := represents.insertable
  count := represents.count

theorem Represents.updateStatesCommon (represents : Represents boxes t)
    (hStates : t.checkStates = true) : Represents boxes t.updateStatesCommon where
  box := represents.box
  last := represents.last
  suffix := represents.suffix
  length := represents.length
  insertable := by simp
  count := (checkStates_iff t).mp hStates

theorem Represents.step {after : Trail} {op : Op} (represents : Represents boxes t)
    (hStep : t.step op = some after) : Represents (boxes ++ inserted [op]) after := by
  cases op with
  | insert a b =>
      cases hStep
      exact represents.insert a b
  | clear =>
      cases hStep
      rw [show boxes ++ inserted [.clear] = boxes from List.append_nil boxes]
      exact represents.clear
  | updateStatesCommon =>
      have hGuard : (if t.checkStates then some t.updateStatesCommon else none) = some after :=
        hStep
      rw [Option.ite_none_right_eq_some] at hGuard
      obtain ⟨hStates, hAfter⟩ := hGuard
      cases hAfter
      rw [show boxes ++ inserted [.updateStatesCommon] = boxes from List.append_nil boxes]
      exact represents.updateStatesCommon hStates

theorem represents_run {a b : Point} {ops : List Op}
    (hRun : Schedule.run step (create a b) ops = some t) : Represents (assigned a b ops) t := by
  apply Schedule.run_rule (motive := fun ops t => Represents (assigned a b ops) t)
    (represents_create a b) ?_ hRun
  intro past before op after hPast hStep
  rw [assigned_concat]
  exact hPast.step hStep

/-- The representation invariant, after every sequence of operations. -/
theorem representation (a b : Point) (ops : List Op) (t : Trail)
    (hRun : Schedule.run step (create a b) ops = some t) :
    (1 ≤ t.points.length ∧ t.points.length ≤ much) ∧
      t.points.getLast? = some ⟨(t.lt.x + t.rb.x).tdiv 2, t.rb.y⟩ ∧
      t.points <:+ (assigned a b ops).map Rectangle.foot ∧
      (t.insertable = true ↔ 0 < t.count) ∧ t.count ≤ timeStamp := by
  have represents := represents_run hRun
  exact ⟨⟨represents.pos, represents.length⟩, represents.last, represents.suffix,
    represents.insertable, represents.count⟩

/-- The trail gets older, takes a detection, is reset and gets older again. -/
theorem representation_sample :
    let t : Trail := ⟨1, true, ⟨10, 0⟩, ⟨15, 20⟩, [⟨12, 20⟩]⟩
    (1 ≤ t.points.length ∧ t.points.length ≤ much) ∧
      t.points.getLast? = some ⟨(t.lt.x + t.rb.x).tdiv 2, t.rb.y⟩ ∧
      t.points <:+ (assigned ⟨0, 0⟩ ⟨5, 20⟩ [.updateStatesCommon, .insert ⟨10, 0⟩ ⟨15, 20⟩, .clear,
        .updateStatesCommon]).map Rectangle.foot ∧
      (t.insertable = true ↔ 0 < t.count) ∧ t.count ≤ timeStamp :=
  representation ⟨0, 0⟩ ⟨5, 20⟩ _ ⟨1, true, ⟨10, 0⟩, ⟨15, 20⟩, [⟨12, 20⟩]⟩ (by decide)

/-- With boxes in the frame every sum that a foot is made of is an `int`: those of the boxes
that are assigned, and that of the box to which the trail is reset. -/
theorem sums_isInt32 {a b : Point} {ops : List Op} {t : Trail}
    (hRun : Schedule.run step (create a b) ops = some t)
    (hBoxes : ∀ box ∈ assigned a b ops, box.InFrame) :
    (∀ box ∈ assigned a b ops, IsInt32 (box.anchorLt.x + box.anchorRb.x)) ∧
      IsInt32 (t.lt.x + t.rb.x) := by
  have hSums : ∀ box ∈ assigned a b ops, IsInt32 (box.anchorLt.x + box.anchorRb.x) := by
    intro box mem
    obtain ⟨hFirst, hSecond⟩ := hBoxes box mem
    unfold Point.InFrame at hFirst hSecond
    unfold IsInt32
    omega
  exact ⟨hSums, hSums _ (List.mem_of_getLast? (represents_run hRun).box)⟩

/-- Some sequence of operations leads to the trail. -/
def Reached (t : Trail) : Prop :=
  ∃ a b, Schedule.Reachable step (create a b) t

theorem reached_create (a b : Point) : Reached (create a b) :=
  ⟨a, b, [], rfl⟩

theorem Reached.next {after : Trail} (reached : Reached t) (op : Op)
    (hStep : t.step op = some after) : Reached after := by
  obtain ⟨a, b, ops, hRun⟩ := reached
  refine ⟨a, b, ops ++ [op], ?_⟩
  rw [Schedule.run_concat, hRun, Option.bind_some]
  exact hStep

end Trail

namespace DstEngine

variable {α : Type*} [LT α] [DecidableLT α] (env : Env α)

theorem assignAll_reached {metric : Metric α} {trails : List Trail} (boxes : List Rectangle)
    (reached : ∀ t ∈ trails, t.Reached) : ∀ t ∈ assignAll metric trails boxes, t.Reached := by
  apply (assignAll_absorbs metric trails boxes).forall_mem (motive := Trail.Reached) reached
  · intro t hReached box _
    exact hReached.next (.insert box.anchorLt box.anchorRb) rfl
  · intro box _
    exact Trail.reached_create box.anchorLt box.anchorRb

theorem ageTrails_reached {trails : List Trail} (reached : ∀ t ∈ trails, t.Reached) :
    ∀ t ∈ ageTrails trails, t.Reached := by
  intro t mem
  obtain ⟨old, hOld, hCount, rfl⟩ := mem_ageTrails.mp mem
  apply (reached old hOld).next .updateStatesCommon
  unfold Trail.step
  dsimp only
  rw [if_pos ((Trail.checkStates_iff old).mpr hCount)]

theorem crossOutcome_reached (judges : Judges) (borders : List Border) {t : Trail}
    (reached : t.Reached) : (crossOutcome judges borders t).1.Reached := by
  unfold crossOutcome
  apply Machine.foldl_relation
    (fun first second : Trail × Nat => first.1.Reached → second.1.Reached)
  · intro p h
    exact h
  · intro first second third left right h
    exact right (left h)
  · intro p border _ h
    unfold crossStep
    split_ifs
    · exact h.next .clear rfl
    · exact h
  · exact reached

/-- The engine changes its trails by these operations only. -/
theorem trails_reached (calls : List Call) :
    ∀ t ∈ (Machine.run (step env) init calls).trails, t.Reached := by
  refine Machine.history_rule
    (motive := fun _ (s : DstEngine) => ∀ t ∈ s.trails, t.Reached) ?_ ?_ calls
  · intro t mem
    cases mem
  · intro _ s c hBefore
    by_cases hBlocked : Blocked s c
    · rw [step_blocked env s c hBlocked]
      exact hBefore
    · have hDetected : ∀ t ∈ (detected env s c).trails, t.Reached := by
        rw [(detected_spec env s c).1]
        exact assignAll_reached _ (ageTrails_reached hBefore)
      have hCrossed : ∀ t ∈ (crossed env s c).trails, t.Reached := by
        rw [(crossed_spec env s c).2.1]
        intro t mem
        obtain ⟨checked, hChecked, rfl⟩ := List.mem_map.mp mem
        exact crossOutcome_reached _ _ (hDetected checked hChecked)
      rw [step_accepted env s c hBlocked]
      split_ifs
      · exact hDetected
      · exact hCrossed
      · exact hCrossed

/-- The trails of the engine are as their fields say, in every state of a run. -/
theorem trails_represent (calls : List Call) {t : Trail}
    (mem : t ∈ (Machine.run (step env) init calls).trails) :
    ∃ boxes, Trail.Represents boxes t := by
  obtain ⟨a, b, ops, hRun⟩ := trails_reached env calls t mem
  exact ⟨_, Trail.represents_run hRun⟩

end DstEngine
end Hengda

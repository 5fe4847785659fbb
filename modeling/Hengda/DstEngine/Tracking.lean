import Hengda.DstEngine.CallSpec

/-! The trails of a frame and of a whole run. Within a frame the detections are
placed injectively; over a run the trails of each age are bounded by the
persons of the frame in which they were last seen. -/
namespace Hengda
namespace DstEngine

variable {α : Type*} [LT α] [DecidableLT α]

theorem assignAll_absorbs (metric : Metric α) (trails : List Trail) (boxes : List Rectangle) :
    Absorption.AbsorbsAll trailRules trails boxes (assignAll metric trails boxes) := by
  induction boxes generalizing trails with
  | nil => exact .nil trails
  | cons box rest ih => exact .cons (assign_absorbs metric box trails) (ih _)

theorem ageTrails_eq (trails : List Trail) :
    ageTrails trails = (trails.filter Trail.checkStates).map Trail.updateStatesCommon := by
  unfold ageTrails
  induction trails with
  | nil => rfl
  | cons t rest ih =>
      cases hStates : t.checkStates
      · simpa [List.filterMap_cons, List.filter_cons, hStates] using ih
      · simpa [List.filterMap_cons, List.filter_cons, hStates] using ih

/-- The box of a trail, as the detection that it took last. -/
def trailBox (t : Trail) : Rectangle :=
  { anchorLt := t.lt, anchorRb := t.rb }

theorem closedKeys_ageTrails (trails : List Trail) :
    Absorption.closedKeys trailBox trailRules (ageTrails trails) = [] := by
  have hNone : (ageTrails trails).filter (fun t => !trailRules.isOpen t) = [] := by
    apply List.filter_eq_nil_iff.mpr
    intro t mem
    have hOpen : trailRules.isOpen t = true := ageTrails_open mem
    simp [hOpen]
  rw [Absorption.closedKeys, hNone, List.map_nil]

/-- The trails that are closed after a frame carry the boxes of its persons,
each exactly as often. -/
theorem assignAll_boxes (metric : Metric α) (trails : List Trail) (boxes : List Rectangle) :
    (((assignAll metric (ageTrails trails) boxes).filter (fun t => !t.insertable)).map
      trailBox).Perm boxes := by
  have hPerm := (assignAll_absorbs metric (ageTrails trails) boxes).closedKeys_perm
    trailBox id (fun t box => by simp [trailBox, trailRules]) (fun box => rfl)
  rw [closedKeys_ageTrails, List.append_nil, List.map_id] at hPerm
  exact hPerm

variable (env : Env α) (s : DstEngine) (c : Call)

/-- Assignment is a bijection per frame: the trails that are closed afterwards
carry exactly the boxes. `place` sends the boxes to distinct trails: each of
them is inserted into a surviving trail or starts a new one, and no other trail
is touched beyond getting older. -/
def Assigned (boxes : List Rectangle) (survivors final : List Trail) : Prop :=
  ((final.filter (fun t => !t.insertable)).map trailBox).Perm boxes ∧
    ∃ place : List Nat, place.Nodup ∧
      List.Forall₂ (fun box k =>
        (∃ old, survivors[k]? = some old ∧
          final[k]? = some (old.updateStatesCommon.insert box.anchorLt box.anchorRb)) ∨
        (survivors.length ≤ k ∧ final[k]? = some (Trail.create box.anchorLt box.anchorRb)))
        boxes place ∧
      ∀ k, k ∉ place → final[k]? = survivors[k]?.map
        (fun old => { old with count := old.count + 1, insertable := true })

/-- The persons of a frame are assigned to the trails that survive it. -/
theorem detected_assignment :
    Assigned (c.frame.persons.map DetectInfo.location) (s.trails.filter Trail.checkStates)
      (detected env s c).trails := by
  have hFinal : (detected env s c).trails =
      assignAll env.metric (ageTrails s.trails) (c.frame.persons.map DetectInfo.location) :=
    (detected_spec env s c).1
  have hAged : ageTrails s.trails =
      (s.trails.filter Trail.checkStates).map Trail.updateStatesCommon :=
    ageTrails_eq s.trails
  refine ⟨by rw [hFinal]; exact assignAll_boxes env.metric s.trails _, ?_⟩
  obtain ⟨place, placement⟩ := (assignAll_absorbs env.metric (ageTrails s.trails)
    (c.frame.persons.map DetectInfo.location)).placement
  rw [← hFinal, hAged] at placement
  refine ⟨place, placement.nodup, placement.placed.imp ?_, ?_⟩
  · intro box k placed
    rcases placed with ⟨old, hOld, _, hFill⟩ | ⟨hBehind, hFresh⟩
    · rw [List.getElem?_map, Option.map_eq_some_iff] at hOld
      obtain ⟨source, hSource, rfl⟩ := hOld
      exact Or.inl ⟨source, hSource, hFill⟩
    · rw [List.length_map] at hBehind
      exact Or.inr ⟨hBehind, hFresh⟩
  · intro k hk
    rw [placement.others k hk, List.getElem?_map]
    rfl

theorem crossOutcome_count (judges : Judges) (borders : List Border) (t : Trail) :
    (crossOutcome judges borders t).1.count = t.count := by
  unfold crossOutcome
  apply Machine.foldl_relation
    (fun first second : Trail × Nat => second.1.count = first.1.count)
  · intro p
    rfl
  · intro first second third left right
    exact right.trans left
  · intro p border _
    unfold crossStep
    split_ifs <;> rfl

/-- The crossing check and the exits of a call do not change any age. -/
theorem step_counts (hAccepted : ¬ Blocked s c) :
    (step env s c).trails.map Trail.count =
      (assignAll env.metric (ageTrails s.trails)
        (c.frame.persons.map DetectInfo.location)).map Trail.count := by
  have hDetected := (detected_spec env s c).1
  have hCrossed := (crossed_spec env s c).2.1
  have hCounts : (crossed env s c).trails.map Trail.count =
      (detected env s c).trails.map Trail.count := by
    rw [hCrossed, List.map_map]
    apply List.map_congr_left
    intro t _
    exact crossOutcome_count env.judges c.borders t
  rw [step_accepted env s c hAccepted, ← hDetected]
  split_ifs
  · rfl
  · exact hCounts
  · exact hCounts

/-- The persons of the frame that was accepted `k` frames before the last one
of `past`, none if the run is younger than that. -/
def personsBefore (past : List (Machine.Transition DstEngine Call)) (k : Nat) : Nat :=
  (past.reverse[k]?.map fun t => t.input.frame.persons.length).getD 0

/-- The trails of every age are paid for by the persons of one frame. -/
structure AgesBounded (past : List (Machine.Transition DstEngine Call)) (s : DstEngine) :
    Prop where
  countLe : ∀ t ∈ s.trails, t.count ≤ timeStamp
  ages : ∀ k, s.trails.countP (fun t => t.count = k) ≤ personsBefore past k

theorem personsBefore_concat (past : List (Machine.Transition DstEngine Call))
    (t : Machine.Transition DstEngine Call) (k : Nat) :
    personsBefore (past ++ [t]) k =
      if k = 0 then t.input.frame.persons.length else personsBefore past (k - 1) := by
  unfold personsBefore
  rw [List.reverse_concat]
  cases k with
  | zero => rfl
  | succ k => rfl

/-- The age of a trail that has just taken a detection is zero, so only the
youngest class grows, and by no more than the persons of the frame. -/
theorem assignAll_ages (metric : Metric α) (trails : List Trail) (boxes : List Rectangle)
    (k : Nat) :
    (assignAll metric (ageTrails trails) boxes).countP (fun t => t.count = k) ≤
      if k = 0 then boxes.length else trails.countP (fun t => t.count = k - 1) := by
  have hAll := assignAll_absorbs metric (ageTrails trails) boxes
  cases k with
  | zero =>
      have hOld : (ageTrails trails).countP (fun t => t.count = 0) = 0 := by
        apply List.countP_eq_zero.mpr
        intro t mem
        obtain ⟨old, _, _, rfl⟩ := mem_ageTrails.mp mem
        simp
      have hGain := hAll.countP_le (p := fun t => t.count = 0)
      rw [hOld, Nat.zero_add] at hGain
      exact hGain
  | succ k =>
      have hStay := hAll.countP_le_of_not (p := fun t => t.count = k + 1)
        (fun t box => by simp [trailRules]) (fun box => by simp [trailRules])
      exact Nat.le_trans hStay (ageTrails_countP trails k)

theorem assignAll_countLe (metric : Metric α) (trails : List Trail) (boxes : List Rectangle) :
    ∀ t ∈ assignAll metric (ageTrails trails) boxes, t.count ≤ timeStamp := by
  apply (assignAll_absorbs metric (ageTrails trails) boxes).forall_mem
    (motive := fun t => t.count ≤ timeStamp)
  · intro t mem
    obtain ⟨old, _, hCount, rfl⟩ := mem_ageTrails.mp mem
    exact hCount
  · intro t _ box _
    simp [trailRules]
  · intro box _
    simp [trailRules]

variable {env s c}

theorem AgesBounded.next {past : List (Machine.Transition DstEngine Call)}
    (before : AgesBounded past s) (hAccepted : ¬ Blocked s c) :
    AgesBounded (past ++ [⟨s, c, step env s c⟩]) (step env s c) := by
  have hCounts := step_counts env s c hAccepted
  constructor
  · have hAll := assignAll_countLe env.metric s.trails (c.frame.persons.map DetectInfo.location)
    rw [← List.forall_mem_map (f := Trail.count) (P := fun n => n ≤ timeStamp)] at hAll ⊢
    rwa [hCounts]
  · intro k
    have hAges := assignAll_ages env.metric s.trails (c.frame.persons.map DetectInfo.location) k
    have hSame : (step env s c).trails.countP (fun t => t.count = k) =
        (assignAll env.metric (ageTrails s.trails)
          (c.frame.persons.map DetectInfo.location)).countP (fun t => t.count = k) := by
      have hMapped := congrArg (List.countP (fun n => n = k)) hCounts
      simpa only [List.countP_map, Function.comp_def] using hMapped
    rw [hSame, personsBefore_concat]
    refine Nat.le_trans hAges ?_
    split_ifs
    · rw [List.length_map]
    · exact before.ages (k - 1)

theorem agesBounded_run (calls : List Call) :
    AgesBounded (acceptedSteps env calls) (Machine.run (step env) init calls) := by
  apply accepted_rule (motive := AgesBounded)
  · constructor
    · intro t mem
      cases mem
    · intro k
      exact Nat.zero_le _
  · intro past state h
    exact ⟨h.countLe, h.ages⟩
  · intro past state input h hAccepted
    exact h.next hAccepted

variable (env)

/-- The memory of the tracker is bounded over every run in which no accepted
frame has more than `D` persons. -/
theorem trails_bounded (calls : List Call) (D : Nat)
    (hPersons : ∀ t ∈ acceptedSteps env calls, t.input.frame.persons.length ≤ D) :
    let past := acceptedSteps env calls
    let s := Machine.run (step env) init calls
    (∀ t ∈ s.trails, t.count ≤ timeStamp) ∧
      (∀ k, s.trails.countP (fun t => t.count = k) ≤ personsBefore past k) ∧
      s.trails.length ≤ (timeStamp + 1) * D := by
  intro past s
  have hBounded : AgesBounded past s := agesBounded_run calls
  refine ⟨hBounded.countLe, hBounded.ages, ?_⟩
  apply Absorption.length_le_of_countP_le Trail.count
  · intro t mem
    exact Nat.lt_succ_of_le (hBounded.countLe t mem)
  · intro k _
    refine Nat.le_trans (hBounded.ages k) ?_
    unfold personsBefore
    cases hGet : past.reverse[k]? with
    | none => exact Nat.zero_le _
    | some t => exact hPersons t (List.mem_reverse.mp (List.mem_of_getElem? hGet))

theorem trails_bounded_sample :
    let calls := [sampleCall [⟨⟨100, 200⟩, ⟨140, 300⟩⟩] [], sampleCall [] [],
      sampleCall [⟨⟨110, 200⟩, ⟨150, 300⟩⟩] []]
    let past := acceptedSteps sampleEnv calls
    let s := Machine.run (step sampleEnv) init calls
    (∀ t ∈ s.trails, t.count ≤ timeStamp) ∧
      (∀ k, s.trails.countP (fun t => t.count = k) ≤ personsBefore past k) ∧
      s.trails.length ≤ (timeStamp + 1) * 1 :=
  trails_bounded sampleEnv _ 1 (by decide +kernel)

end DstEngine
end Hengda

import Hengda.DstEngine.CallSpec

/-! The window of the last twenty frames over whole runs. The queue of frames
and the vector of markers are two views of the accepted calls, whichever exit
these took, and decide together when a clip is saved and what it shows. -/
namespace Hengda
namespace DstEngine

/-- The entry that a finished call deserves in the vector of markers. -/
def callMarker (t : Machine.Transition DstEngine Call) : Nat :=
  if raisedIds .border t.after.trace ≠ [] then 2
  else if raisedIds .region t.after.trace ≠ [] then 1
  else 0

def frames (past : List (Machine.Transition DstEngine Call)) : List DeviceStreamData :=
  past.map fun t => t.input.frame

/-- Both containers hold the newest twenty entries of the run. -/
structure WindowHolds (past : List (Machine.Transition DstEngine Call)) (s : DstEngine) :
    Prop where
  videos : s.resultVideos = (frames past).rtake clipLength
  conditions : s.resultCondition = (past.map callMarker).rtake clipLength

/-- As long as the two containers have the same length, each of them is pushed
as if it were the one that is measured. -/
theorem pushFrame_windows (frame : DeviceStreamData) (s : DstEngine)
    (hLength : s.resultCondition.length = s.resultVideos.length) :
    (pushFrame frame s).resultVideos = Window.push clipLength s.resultVideos frame ∧
      (pushFrame frame s).resultCondition = Window.push clipLength s.resultCondition 0 := by
  unfold pushFrame Window.push
  simp only [List.length_append, List.length_singleton, hLength, gt_iff_lt]
  split_ifs <;> exact ⟨rfl, rfl⟩

variable {past : List (Machine.Transition DstEngine Call)} {s : DstEngine}

theorem WindowHolds.pushed (holds : WindowHolds past s) (frame : DeviceStreamData) :
    (pushFrame frame s).resultVideos = (frames past ++ [frame]).rtake clipLength ∧
      (pushFrame frame s).resultCondition =
        Window.push clipLength ((past.map callMarker).rtake clipLength) 0 := by
  have hLength : s.resultCondition.length = s.resultVideos.length := by
    rw [holds.videos, holds.conditions, Window.rtake_length, Window.rtake_length, frames,
      List.length_map, List.length_map]
  obtain ⟨hVideos, hConditions⟩ := pushFrame_windows frame s hLength
  rw [hVideos, hConditions, holds.videos, holds.conditions, Window.push_rtake]
  exact ⟨rfl, rfl⟩

/-- The marker that decides about a clip is the one of the call nine calls ago. -/
theorem WindowHolds.dueMarker_eq (holds : WindowHolds past s) (c : Call) :
    dueMarker s c =
      if clipLength ≤ past.length + 1 then ((past.map callMarker)[past.length - 9]?).getD 0
      else 0 := by
  obtain ⟨_, hConditions⟩ := holds.pushed c.frame
  unfold dueMarker resultCenter
  rw [hConditions, Window.push_rtake, Window.rtake_length, List.length_append, List.length_map,
    List.length_singleton]
  by_cases hFull : clipLength ≤ past.length + 1
  · rw [if_pos hFull, if_pos (by omega), List.getD_eq_getElem?_getD, Window.rtake_getElem?]
    have hIndex : (past.map callMarker ++ [0]).length - clipLength + clipCenter =
        past.length - 9 := by
      rw [List.length_append, List.length_map, List.length_singleton]
      unfold clipLength clipCenter at *
      omega
    rw [hIndex, List.getElem?_append_left]
    rw [List.length_map]
    unfold clipLength at hFull
    omega
  · rw [if_neg hFull, if_neg (by omega)]

variable {α : Type*} [LT α] [DecidableLT α] {env : Env α} {c : Call}

theorem callMarker_step (hAccepted : ¬ Blocked s c) :
    callMarker ⟨s, c, step env s c⟩ = marker env s c := by
  obtain ⟨hRegion, hBorder⟩ := step_raisedIds env s c hAccepted
  unfold callMarker marker
  rw [hRegion, hBorder]
  simp [List.range'_eq_nil_iff, AlarmType.marker]

/-- Whatever its exit, an accepted call keeps the two containers aligned. -/
theorem WindowHolds.next (holds : WindowHolds past s) (hAccepted : ¬ Blocked s c) :
    WindowHolds (past ++ [⟨s, c, step env s c⟩]) (step env s c) := by
  obtain ⟨hVideos, hConditions⟩ := holds.pushed c.frame
  obtain ⟨hStepVideos, _, _, _, hStepConditions⟩ := step_fields env s c hAccepted
  constructor
  · rw [hStepVideos, window, hVideos]
    simp [frames]
  · rw [hStepConditions, hConditions, Window.push_overwrite (by decide), List.map_append,
      List.map_singleton, callMarker_step hAccepted, ← Window.push_rtake]
    split_ifs with hMarker
    · rw [hMarker]
    · rfl

theorem windowHolds_run (calls : List Call) :
    WindowHolds (acceptedSteps env calls) (Machine.run (step env) init calls) := by
  apply accepted_rule (motive := WindowHolds)
  · exact ⟨rfl, rfl⟩
  · intro past state holds
    exact ⟨holds.videos, holds.conditions⟩
  · intro past state input holds hAccepted
    exact holds.next hAccepted

/-- The clips of the `m`-th accepted call, as they follow from the run alone. -/
def SavesAligned (past : List (Machine.Transition DstEngine Call)) : Prop :=
  ∀ m t, past[m]? = some t →
    (savesIn t.after.trace).length ≤ 1 ∧
      ∀ type queue, (type, queue) ∈ savesIn t.after.trace ↔
        clipLength ≤ m + 1 ∧
          (∃ center, past[m - 9]? = some center ∧ callMarker center = type.marker) ∧
          queue = ((frames past).drop (m - 9 - 10)).take clipLength

theorem WindowHolds.window_eq (holds : WindowHolds past s) (c : Call)
    (hFull : clipLength ≤ past.length + 1) :
    window s c = (frames past ++ [c.frame]).drop (past.length - 9 - 10) := by
  obtain ⟨hVideos, _⟩ := holds.pushed c.frame
  rw [window, hVideos]
  unfold List.rtake
  congr 1
  rw [List.length_append, frames, List.length_map, List.length_singleton]
  unfold clipLength at *
  omega

theorem WindowHolds.window_length (holds : WindowHolds past s) (c : Call)
    (hFull : clipLength ≤ past.length + 1) : (window s c).length = clipLength := by
  rw [holds.window_eq c hFull, List.length_drop, List.length_append, frames, List.length_map,
    List.length_singleton]
  unfold clipLength at *
  omega

/-- A clip is due exactly if the entry nine calls earlier carries its marker. -/
theorem WindowHolds.dueMarker_iff (holds : WindowHolds past s) (c : Call) (type : AlarmType) :
    dueMarker s c = type.marker ↔
      clipLength ≤ past.length + 1 ∧
        ∃ center, past[past.length - 9]? = some center ∧ callMarker center = type.marker := by
  rw [holds.dueMarker_eq]
  have hMarker : type.marker ≠ 0 := by cases type <;> decide
  by_cases hFull : clipLength ≤ past.length + 1
  · rw [if_pos hFull, List.getElem?_map]
    cases hGet : past[past.length - 9]? with
    | none => simp [Ne.symm hMarker]
    | some center => simp [hFull]
  · rw [if_neg hFull]
    simp [hFull, Ne.symm hMarker]

theorem mem_step_savesIn (hAccepted : ¬ Blocked s c) (type : AlarmType)
    (queue : List DeviceStreamData) :
    (type, queue) ∈ savesIn (step env s c).trace ↔
      dueMarker s c = type.marker ∧ queue = window s c := by
  rw [step_savesIn env s c hAccepted]
  cases type with
  | region =>
      by_cases hDue : dueMarker s c = AlarmType.region.marker
      · simp [hDue]
      · rw [if_neg hDue]
        split_ifs <;> simp [hDue]
  | border =>
      by_cases hDue : dueMarker s c = AlarmType.border.marker
      · rw [hDue, if_neg (by decide), if_pos rfl]
        simp
      · split_ifs <;> simp [hDue]

theorem step_savesIn_length (hAccepted : ¬ Blocked s c) :
    (savesIn (step env s c).trace).length ≤ 1 := by
  rw [step_savesIn env s c hAccepted]
  split_ifs <;> simp

/-- A later call adds entries behind those that an earlier save refers to. -/
theorem SavesAligned.next (holds : WindowHolds past s) (aligned : SavesAligned past)
    (hAccepted : ¬ Blocked s c) : SavesAligned (past ++ [⟨s, c, step env s c⟩]) := by
  intro m t hGet
  have hFrames : frames (past ++ [⟨s, c, step env s c⟩]) = frames past ++ [c.frame] :=
    List.map_append
  have hLength : (frames past).length = past.length := List.length_map _
  by_cases hOld : m < past.length
  · rw [List.getElem?_append_left hOld] at hGet
    obtain ⟨hCount, hSaves⟩ := aligned m t hGet
    refine ⟨hCount, ?_⟩
    intro type queue
    rw [hSaves, List.getElem?_append_left (by omega), hFrames]
    apply and_congr_right
    intro hFull
    rw [List.drop_append_of_le_length (by omega), List.take_append_of_le_length]
    rw [List.length_drop]
    unfold clipLength at *
    omega
  · have hm : m = past.length := by
      have hLess := (List.getElem?_eq_some_iff.mp hGet).1
      rw [List.length_append, List.length_singleton] at hLess
      omega
    subst hm
    rw [List.getElem?_concat_length, Option.some.injEq] at hGet
    subst hGet
    refine ⟨step_savesIn_length hAccepted, ?_⟩
    intro type queue
    rw [mem_step_savesIn hAccepted, holds.dueMarker_iff, and_assoc]
    apply and_congr_right
    intro hFull
    have hBefore : past.length - 9 < past.length := by
      unfold clipLength at hFull
      omega
    rw [List.getElem?_append_left hBefore, holds.window_eq c hFull, hFrames,
      List.take_of_length_le]
    rw [List.length_drop, List.length_append, hLength, List.length_singleton]
    unfold clipLength at *
    omega

theorem savesAligned_run (calls : List Call) : SavesAligned (acceptedSteps env calls) := by
  have hBoth : WindowHolds (acceptedSteps env calls) (Machine.run (step env) init calls) ∧
      SavesAligned (acceptedSteps env calls) := by
    apply accepted_rule (motive := fun past s => WindowHolds past s ∧ SavesAligned past)
    · refine ⟨⟨rfl, rfl⟩, ?_⟩
      intro m t hGet
      cases hGet
    · rintro past state ⟨holds, aligned⟩
      exact ⟨⟨holds.videos, holds.conditions⟩, aligned⟩
    · rintro past state input ⟨holds, aligned⟩ hAccepted
      exact ⟨holds.next hAccepted, aligned.next holds hAccepted⟩
  exact hBoth.2

variable (env)

/-- The window is aligned after every call of every run, and a clip is saved
exactly for the marked frame nine frames back, from ten frames before it to
nine frames after it. -/
theorem clipWindow_aligned (calls : List Call) :
    let past := acceptedSteps env calls
    let s := Machine.run (step env) init calls
    s.resultVideos.length = min past.length 20 ∧
      s.resultCondition.length = min past.length 20 ∧
      s.resultVideos = (frames past).rtake 20 ∧
      s.resultCondition = (past.map callMarker).rtake 20 ∧
      ∀ m t, past[m]? = some t →
        (savesIn t.after.trace).length ≤ 1 ∧
          ∀ type queue, (type, queue) ∈ savesIn t.after.trace ↔
            20 ≤ m + 1 ∧
              (∃ center, past[m - 9]? = some center ∧ callMarker center = type.marker) ∧
              queue = ((frames past).drop (m - 9 - 10)).take 20 := by
  intro past s
  have holds : WindowHolds past s := windowHolds_run calls
  refine ⟨?_, ?_, holds.videos, holds.conditions, savesAligned_run calls⟩
  · rw [holds.videos, Window.rtake_length, frames, List.length_map]
    rfl
  · rw [holds.conditions, Window.rtake_length, List.length_map]
    rfl

end DstEngine
end Hengda

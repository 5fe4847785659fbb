import Hengda.DstEngine.ClipWindow

/-! What a failing `fopen` can change. The state before a call says whether the
call opens a file at all; if it does, the outcome of opening is visible in the
frame counter at the latest. -/
namespace Hengda
namespace DstEngine

/-- The marker nine frames before the next one; 0 while the run is shorter. -/
def storedMarker (s : DstEngine) : Nat :=
  if 19 ≤ s.resultCondition.length then
    s.resultCondition.getD (s.resultCondition.length - 9) 0
  else 0

/-- The next call has a clip of this type to save and cannot open one of its
images. -/
def ClipFails (s : DstEngine) (c : Call) (type : AlarmType) : Prop :=
  storedMarker s = type.marker ∧ ∃ j < clipLength, c.opens.clip ⟨type.folder, j + 1⟩ = false

variable {α : Type*} [LT α] [DecidableLT α]
variable {past : List (Machine.Transition DstEngine Call)} {s : DstEngine}

theorem callMarker_cases (t : Machine.Transition DstEngine Call) :
    callMarker t = 0 ∨ ∃ type : AlarmType, callMarker t = type.marker := by
  unfold callMarker
  split_ifs
  · exact Or.inr ⟨.border, rfl⟩
  · exact Or.inr ⟨.region, rfl⟩
  · exact Or.inl rfl

/-- The centre of the pushed window can be read before the push. -/
theorem WindowHolds.dueMarker_stored (holds : WindowHolds past s) (c : Call) :
    dueMarker s c = storedMarker s := by
  rw [holds.dueMarker_eq]
  unfold storedMarker
  rw [holds.conditions, Window.rtake_length, List.length_map]
  unfold clipLength
  by_cases hFull : 20 ≤ past.length + 1
  · rw [if_pos hFull, if_pos (by omega), List.getD_eq_getElem?_getD, Window.rtake_getElem?,
      List.length_map]
    congr 2
    omega
  · rw [if_neg hFull, if_neg (by omega)]

theorem WindowHolds.storedMarker_cases (holds : WindowHolds past s) :
    storedMarker s = 0 ∨ ∃ type : AlarmType, storedMarker s = type.marker := by
  unfold storedMarker
  split_ifs
  · rw [List.getD_eq_getElem?_getD]
    cases hGet : s.resultCondition[s.resultCondition.length - 9]? with
    | none => exact Or.inl rfl
    | some m =>
        have mem : m ∈ (past.map callMarker).rtake clipLength := by
          rw [← holds.conditions]
          exact List.mem_of_getElem? hGet
        obtain ⟨t, _, rfl⟩ := List.mem_map.mp (List.mem_of_mem_drop mem)
        exact callMarker_cases t
  · exact Or.inl rfl

/-- A clip that is due is copied from a full window. -/
theorem WindowHolds.clipFault_iff (holds : WindowHolds past s) (c : Call) (type : AlarmType) :
    clipFault c type (dueMarker s c) (window s c) = true ↔ ClipFails s c type := by
  unfold clipFault ClipFails
  rw [Bool.and_eq_true, decide_eq_true_eq, holds.dueMarker_stored]
  apply and_congr_right
  intro hDue
  have hFull : clipLength ≤ past.length + 1 := by
    have hIff := (holds.dueMarker_iff c type).mp ((holds.dueMarker_stored c).trans hDue)
    exact hIff.1
  have hLength : clipLength ≤ (window s c).length :=
    Nat.le_of_eq (holds.window_length c hFull).symm
  rw [Bool.not_eq_true', ← Bool.not_eq_true, saveImages_ok_iff hLength]
  simp only [Nat.add_comm 1, not_forall, Bool.not_eq_true, exists_prop]

/-- The frame counter stands still on the three exits that a file decides about. -/
theorem WindowHolds.step_frameId (holds : WindowHolds past s) (env : Env α) (c : Call) :
    (Blocked s c ∨ (∃ type, ClipFails s c type) → (step env s c).frameId = s.frameId) ∧
      (¬ Blocked s c → (∀ type, ¬ ClipFails s c type) →
        (step env s c).frameId = s.frameId + 1) := by
  obtain ⟨_, hDetected, _⟩ := detected_window env s c
  obtain ⟨_, hCrossed, _⟩ := crossed_window env s c
  have hRegion := holds.clipFault_iff c .region
  have hBorder := holds.clipFault_iff c .border
  constructor
  · intro hStop
    by_cases hBlocked : Blocked s c
    · rw [step_blocked env s c hBlocked]
    · obtain ⟨type, hFails⟩ := hStop.resolve_left hBlocked
      rw [step_accepted env s c hBlocked]
      cases type with
      | region =>
          rw [if_pos (hRegion.mpr hFails)]
          exact hDetected
      | border =>
          split_ifs with hFirst hSecond
          · exact hDetected
          · exact hCrossed
          · exact absurd (hBorder.mpr hFails) hSecond
  · intro hAccepted hClips
    rw [step_accepted env s c hAccepted, if_neg (mt hRegion.mp (hClips .region)),
      if_neg (mt hBorder.mp (hClips .border))]

/-- The call answers the same for every outcome of opening files, as far as the
alarms, the trails and the frame counter are concerned. -/
def FileIndependent (env : Env α) (s : DstEngine) (c : Call) : Prop :=
  ∀ first second : Opens,
    let s₁ := step env s { c with opens := first }
    let s₂ := step env s { c with opens := second }
    s₁.alarms = s₂.alarms ∧ s₁.trails = s₂.trails ∧ s₁.frameId = s₂.frameId

/-- A call that opens no file, in closed form. -/
theorem step_idle (env : Env α) (s : DstEngine) (c : Call) (hFrame : s.frameId ≠ 0)
    (hDue : dueMarker s c = 0) : step env s c =
      { checkCrossings env c (detected env s c) with frameId := s.frameId + 1 } := by
  have hAccepted : ¬ Blocked s c := fun hBlocked => hFrame hBlocked.1
  have hRegion : afterRegionClip env s c = detected env s c := by
    rw [afterRegionClip, hDue]
    exact congrArg (fun events => { detected env s c with trace := events }) (List.append_nil _)
  have hBorder : afterBorderClip env s c = crossed env s c := by
    rw [afterBorderClip, hDue]
    exact congrArg (fun events => { crossed env s c with trace := events }) (List.append_nil _)
  have hNone (type : AlarmType) : ¬ clipFault c type 0 (window s c) = true := by
    intro hFault
    have hType := clipFault_due hFault
    cases type <;> cases hType
  rw [step_accepted env s c hAccepted, hDue, if_neg (hNone .region), if_neg (hNone .border),
    hBorder, crossed, hRegion]

/-- Neither the detection phase nor the crossing check looks at a file. -/
theorem checkCrossings_opens (env : Env α) (s : DstEngine) (c : Call) (opens : Opens) :
    checkCrossings env { c with opens := opens } (detected env s { c with opens := opens }) =
      checkCrossings env c (detected env s c) := by
  have hDetected : detected env s { c with opens := opens } = detected env s c := rfl
  rw [hDetected, checkCrossings_eq, checkCrossings_eq]
  rfl

/-- Over every run, the files matter for exactly those calls that open one: the
first frame, and each call with a marked frame nine frames back. -/
theorem fileIndependent_iff (env : Env α) (calls : List Call) (c : Call) :
    let s := Machine.run (step env) init calls
    FileIndependent env s c ↔ s.frameId ≠ 0 ∧ storedMarker s = 0 := by
  intro s
  have holds : WindowHolds (acceptedSteps env calls) s := windowHolds_run calls
  constructor
  · intro hIndependent
    obtain ⟨_, _, hSame⟩ := hIndependent ⟨false, fun _ => false⟩ ⟨true, fun _ => true⟩
    have hSuccess := (holds.step_frameId env
      { c with opens := ⟨true, fun _ => true⟩ }).2
      (fun hBlocked => by cases hBlocked.2) (by
        rintro type ⟨_, j, _, hOpen⟩
        cases hOpen)
    have hMoves : s.frameId + 1 ≠ s.frameId := by
      intro h
      have hZero : (1 : UInt32) = 0 := by
        rwa [UInt32.add_eq_left] at h
      exact absurd hZero (by decide)
    have hFailure : ¬ (Blocked s { c with opens := ⟨false, fun _ => false⟩ } ∨
        ∃ type, ClipFails s { c with opens := ⟨false, fun _ => false⟩ } type) := by
      intro hStop
      have hStays := (holds.step_frameId env _).1 hStop
      rw [hSame, hSuccess] at hStays
      exact hMoves hStays
    rw [not_or] at hFailure
    refine ⟨fun hFrame => hFailure.1 ⟨hFrame, rfl⟩, ?_⟩
    rcases holds.storedMarker_cases with hNone | ⟨type, hType⟩
    · exact hNone
    · exact absurd ⟨type, hType, 0, by decide, rfl⟩ hFailure.2
  · rintro ⟨hFrame, hStored⟩ first second
    have hDue (opens : Opens) : dueMarker s { c with opens := opens } = 0 :=
      (holds.dueMarker_stored _).trans hStored
    rw [step_idle env s _ hFrame (hDue first), step_idle env s _ hFrame (hDue second),
      checkCrossings_opens env s c first, checkCrossings_opens env s c second]
    exact ⟨rfl, rfl, rfl⟩

section Sample

/-- A person enters the zone in the eleventh frame and is then out of sight. -/
def sampleEpisode : List Call :=
  List.replicate 10 (sampleCall [] []) ++
    [sampleCall [⟨⟨500, 200⟩, ⟨540, 300⟩⟩] [⟨Graph.rectangle.value, [⟨400, 100⟩, ⟨900, 500⟩]⟩]] ++
    List.replicate 8 (sampleCall [] [])

/-- The person reappears behind a line in the frame that has the clip of the
first alarm to save. -/
def sampleReturn (clip : Bool) : Call :=
  { sampleCall [⟨⟨500, 400⟩, ⟨540, 500⟩⟩] [⟨Graph.line.value, [⟨400, 400⟩, ⟨900, 400⟩]⟩] with
    opens := { cover := true, clip := fun _ => clip } }

/-- One image that cannot be written keeps the border alarm of the same frame from being
raised in this call. -/
theorem fileFault_losesAlarm :
    let s := Machine.run (step sampleEnv) init sampleEpisode
    (step sampleEnv s (sampleReturn true)).alarms.map Alarm.type = [.region, .border] ∧
      (step sampleEnv s (sampleReturn false)).alarms.map Alarm.type = [.region] ∧
      ¬ FileIndependent sampleEnv s (sampleReturn true) := by
  intro s
  have hAlarms : (step sampleEnv s (sampleReturn true)).alarms.map Alarm.type =
      [.region, .border] ∧
      (step sampleEnv s (sampleReturn false)).alarms.map Alarm.type = [.region] := by
    decide +kernel
  refine ⟨hAlarms.1, hAlarms.2, ?_⟩
  intro hIndependent
  have hSame := (hIndependent (sampleReturn true).opens (sampleReturn false).opens).1
  have hTypes := congrArg (List.map Alarm.type) hSame
  have hClash := (hAlarms.1.symm.trans hTypes).trans hAlarms.2
  cases hClash

end Sample

end DstEngine
end Hengda

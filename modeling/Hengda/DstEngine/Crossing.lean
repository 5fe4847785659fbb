import Hengda.DstEngine.FileFaults

/-! The crossing check and its evidence. A trail that is found to cross a line
is reset; whether the alarm that should go with it is queued depends on the
frame of the call, not on the trail. -/
namespace Hengda

/-- Every reset of the trace finds exactly one border alarm that was queued
since the reset before it. `balance` is the number of those alarms. -/
def clearsPaid : Nat → List Event → Bool
  | _, [] => true
  | balance, .reported .border :: rest => clearsPaid (balance + 1) rest
  | balance, .cleared _ :: rest => balance = 1 && clearsPaid 0 rest
  | balance, _ :: rest => clearsPaid balance rest

/-- Events that neither queue a border alarm nor reset a trail. -/
def Event.aside : Event → Bool
  | .reported type => type = .region
  | .cleared _ => false
  | _ => true

theorem clearsPaid_aside {first : List Event} (aside : ∀ e ∈ first, e.aside = true)
    (balance : Nat) (rest : List Event) :
    clearsPaid balance (first ++ rest) = clearsPaid balance rest := by
  induction first with
  | nil => rfl
  | cons e first ih =>
      have hFirst := ih (fun other mem => aside other (List.mem_cons_of_mem _ mem))
      have hHere := aside e (by simp)
      cases e with
      | reported type =>
          cases type with
          | region => exact hFirst
          | border => cases hHere
      | cleared i => cases hHere
      | _ => exact hFirst

theorem Event.aside_of_region {trace : List Event} (phase : ∀ e ∈ trace, e.ofPhase .region = true) :
    ∀ e ∈ trace, Event.aside e = true := by
  intro e mem
  have hPhase := phase e mem
  cases e with
  | reported type => exact hPhase
  | cleared i => cases hPhase
  | _ => rfl

theorem Event.aside_of_clip {trace : List Event} (clip : ∀ e ∈ trace, e.ofClip = true) :
    ∀ e ∈ trace, Event.aside e = true := by
  intro e mem
  have hClip := clip e mem
  cases e with
  | reported type => cases hClip
  | cleared i => cases hClip
  | _ => rfl

namespace DstEngine

/-- With an image every crossing is paid for at once; without one the first
crossing already is not. -/
theorem clearsPaid_crossEvents (c : Call) (id : Nat) (positions : List Nat) (rest : List Event) :
    clearsPaid 0 (crossEvents c id positions ++ rest) =
      if (getJpg c.frame).isEmpty ∧ positions ≠ [] then false else clearsPaid 0 rest := by
  induction positions generalizing id with
  | nil => simp [crossEvents]
  | cons i others ih =>
      unfold crossEvents alarmEvents
      by_cases hEmpty : (getJpg c.frame).isEmpty = true
      · rw [if_pos hEmpty, if_pos ⟨hEmpty, by simp⟩]
        rfl
      · rw [if_neg hEmpty, if_neg (fun h => hEmpty h.1)]
        have hOthers := ih (id + 1)
        rw [if_neg (fun h => hEmpty h.1)] at hOthers
        exact hOthers

theorem crossOutcome_pos_iff (judges : Judges) (borders : List Border) (t : Trail) :
    (crossOutcome judges borders t).2 ≠ 0 ↔
      ∃ border ∈ borders, judges.crosses t.points border = true := by
  induction borders with
  | nil => simp [crossOutcome]
  | cons border rest ih =>
      by_cases hCross : judges.crosses t.points border = true
      · have hOutcome : crossOutcome judges (border :: rest) t =
            rest.foldl (crossStep judges) (t.clear, 1) := by
          unfold crossOutcome
          rw [List.foldl_cons, crossStep, if_pos hCross]
        rw [hOutcome, foldl_crossStep]
        simp [hCross]
      · have hOutcome : crossOutcome judges (border :: rest) t = crossOutcome judges rest t := by
          unfold crossOutcome
          rw [List.foldl_cons, crossStep, if_neg hCross]
        rw [hOutcome, ih]
        simp [hCross]

/-- A position is listed exactly if its trail crosses some border. -/
theorem mem_crossedTrails (judges : Judges) (borders : List Border) (start i : Nat)
    (trails : List Trail) : i ∈ crossedTrails judges borders start trails ↔
      ∃ t, start ≤ i ∧ trails[i - start]? = some t ∧
        ∃ border ∈ borders, judges.crosses t.points border = true := by
  induction trails generalizing start with
  | nil => simp [crossedTrails]
  | cons t rest ih =>
      rw [crossedTrails, List.mem_append, List.mem_replicate, ih (start + 1),
        crossOutcome_pos_iff]
      constructor
      · rintro (⟨hCross, rfl⟩ | ⟨t', hLe, hGet, hCross⟩)
        · exact ⟨t, Nat.le_refl _, by simp, hCross⟩
        · refine ⟨t', by omega, ?_, hCross⟩
          rwa [show i - start = (i - (start + 1)) + 1 by omega, List.getElem?_cons_succ]
      · rintro ⟨t', hLe, hGet, hCross⟩
        by_cases hHere : i = start
        · subst hHere
          rw [Nat.sub_self, List.getElem?_cons_zero, Option.some.injEq] at hGet
          rw [← hGet] at hCross
          exact Or.inl ⟨hCross, rfl⟩
        · refine Or.inr ⟨t', by omega, ?_, hCross⟩
          rwa [show i - start = (i - (start + 1)) + 1 by omega,
            List.getElem?_cons_succ] at hGet

variable {α : Type*} [LT α] [DecidableLT α] {env : Env α} {s : DstEngine} {c : Call}

/-- What one call does with its resets is decided by its image alone. -/
theorem clearsPaid_step (hAccepted : ¬ Blocked s c) : clearsPaid 0 (step env s c).trace = true ↔
    (getJpg c.frame).isEmpty = false ∨ borderPositions env s c = [] := by
  have hRegion := Event.aside_of_region (detected_trace env s c).1
  have hClip (type : AlarmType) (videoname : String) :=
    Event.aside_of_clip (clipEvents_ofClip c (window s c) type (dueMarker s c) videoname)
  have hEnd (videoname : String) :
      clearsPaid 0 (clipEvents c .border (dueMarker s c) videoname (window s c)) = true := by
    have hNone := clearsPaid_aside (hClip .border videoname) 0 []
    rwa [List.append_nil] at hNone
  rw [step_trace env s c hAccepted, List.append_assoc, List.append_assoc,
    clearsPaid_aside hRegion, clearsPaid_aside (hClip .region _), clearsPaid_crossEvents, hEnd]
  by_cases hEmpty : (getJpg c.frame).isEmpty = true
  · by_cases hNone : borderPositions env s c = []
    · simp [hNone]
    · simp [hEmpty, hNone]
  · simp [hEmpty]

/-- A frame with an image has an encoded one exactly if it shows a person. -/
theorem getJpg_isEmpty (frame : DeviceStreamData) (hImage : frame.imgOrigin.data ≠ []) :
    (getJpg frame).isEmpty = false ↔ frame.persons ≠ [] := by
  unfold getJpg DeviceStreamData.persons
  rw [ne_eq, List.filter_eq_nil_iff]
  by_cases hPerson : frame.detectResult.any (fun det => det.classId = personLabel) = true
  · rw [if_pos hPerson]
    rw [List.any_eq_true] at hPerson
    simp only [List.isEmpty_eq_false_iff, ne_eq, base64Encode_eq_nil, hImage, not_false_eq_true,
      true_iff]
    intro hNone
    obtain ⟨det, mem, hLabel⟩ := hPerson
    exact hNone det mem hLabel
  · rw [if_neg hPerson]
    rw [List.any_eq_true] at hPerson
    simp only [List.isEmpty_nil, Bool.true_eq_false, false_iff, not_not]
    intro det mem hLabel
    exact hPerson ⟨det, mem, hLabel⟩

/-- Without persons the trails that are checked are those that were left over
by the previous call, with the points they had. -/
theorem borderPositions_eq_nil (hPersons : c.frame.persons = []) :
    borderPositions env s c = [] ↔
      clipFault c .region (dueMarker s c) (window s c) = true ∨
        ∀ t ∈ s.trails, t.count < timeStamp →
          ∀ border ∈ c.borders, env.judges.crosses t.points border = false := by
  have hTrails : (detected env s c).trails = ageTrails s.trails := by
    rw [(detected_spec env s c).1, hPersons]
    rfl
  unfold borderPositions
  by_cases hFault : clipFault c .region (dueMarker s c) (window s c) = true
  · simp [hFault]
  · rw [if_neg hFault, hTrails, List.eq_nil_iff_forall_not_mem]
    simp only [hFault, false_or, Bool.false_eq_true]
    constructor
    · intro hNone t mem hCount border hBorder
      obtain ⟨i, hGet⟩ := List.getElem?_of_mem (mem_ageTrails.mpr ⟨t, mem, hCount, rfl⟩)
      have hNot := hNone i
      rw [mem_crossedTrails] at hNot
      rw [← Bool.not_eq_true]
      intro hCross
      exact hNot ⟨_, Nat.zero_le _, hGet, border, hBorder, hCross⟩
    · intro hNone i mem
      obtain ⟨t, _, hGet, border, hBorder, hCross⟩ := (mem_crossedTrails _ _ _ _ _).mp mem
      obtain ⟨old, hOld, hCount, rfl⟩ := mem_ageTrails.mp (List.mem_of_getElem? hGet)
      have hFalse := hNone old hOld hCount border hBorder
      rw [Trail.updateStatesCommon_points, hFalse] at hCross
      cases hCross

variable (env)

/-- When the resets of a call are paid for. Without a person in the frame no
alarm can be queued, so no trail may be left that crosses a border. -/
theorem clearsPaid_iff (calls : List Call) (c : Call) (hImage : c.frame.imgOrigin.data ≠ []) :
    let s := Machine.run (step env) init calls
    clearsPaid 0 (step env s c).trace = true ↔
      Blocked s c ∨ ClipFails s c .region ∨ c.frame.persons ≠ [] ∨
        ∀ t ∈ s.trails, t.count < timeStamp →
          ∀ border ∈ c.borders, env.judges.crosses t.points border = false := by
  intro s
  have holds : WindowHolds (acceptedSteps env calls) s := windowHolds_run calls
  by_cases hBlocked : Blocked s c
  · rw [step_blocked env s c hBlocked]
    simp [hBlocked, clearsPaid]
  · rw [clearsPaid_step hBlocked, getJpg_isEmpty c.frame hImage]
    by_cases hPersons : c.frame.persons = []
    · rw [borderPositions_eq_nil hPersons, holds.clipFault_iff]
      simp [hBlocked, hPersons]
    · simp [hPersons]

section Sample

/-- Two frames show a person on either side of a line that is not configured
yet. -/
def sampleWalk : List Call :=
  [sampleCall [⟨⟨500, 200⟩, ⟨540, 300⟩⟩] [], sampleCall [⟨⟨500, 400⟩, ⟨540, 500⟩⟩] []]

/-- Then the line is configured, in a frame that shows nobody. -/
def sampleEmpty : Call :=
  sampleCall [] [⟨Graph.line.value, [⟨400, 400⟩, ⟨900, 400⟩]⟩]

/-- The crossing of the two frames is consumed by the third one: the trail is
reset and no alarm is queued. -/
theorem clear_withoutAlarm :
    let s := Machine.run (step sampleEnv) init sampleWalk
    sampleEmpty.frame.imgOrigin.data ≠ [] ∧ ¬ Blocked s sampleEmpty ∧
      Event.cleared 0 ∈ (step sampleEnv s sampleEmpty).trace ∧
      (step sampleEnv s sampleEmpty).alarms = [] ∧
      clearsPaid 0 (step sampleEnv s sampleEmpty).trace = false := by
  decide +kernel

/-- With somebody in the frame the same crossing is paid for. -/
theorem clearsPaid_iff_sample :
    let s := Machine.run (step sampleEnv) init sampleWalk
    let c := { sampleEmpty with frame := (sampleCall [⟨⟨500, 400⟩, ⟨540, 500⟩⟩] []).frame }
    Event.cleared 0 ∈ (step sampleEnv s c).trace ∧
      clearsPaid 0 (step sampleEnv s c).trace = true :=
  ⟨by decide +kernel, (clearsPaid_iff sampleEnv sampleWalk _ (by decide)).mpr
    (Or.inr (Or.inr (Or.inl (by decide))))⟩

end Sample

end DstEngine
end Hengda

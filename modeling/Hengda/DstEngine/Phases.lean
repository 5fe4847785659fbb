import Hengda.DstEngine.Alarms
import Hengda.Library.Throttle

/-! The three working phases of `ProcessResult`: region alarms together with
the assignment of detections, the crossing check, and the two clip saves. Each
is reduced to what it does to the trails and to a list of alarms or events. -/
namespace Hengda
namespace DstEngine

variable {α : Type*} (env : Env α) (c : Call)

/-- How many of `hits` feet inside a zone raise an alarm when `alarm_flag_`
starts at `start`. -/
abbrev sampledHits (start hits : Nat) : Nat :=
  Throttle.passed UInt32.size sampleP.toNat 1 start hits

theorem sampledHits_add (start first second : Nat) : sampledHits start (first + second) =
    sampledHits start first + sampledHits ((start + first) % UInt32.size) second :=
  Throttle.passed_add _ _ _ start first second

/-- `n` feet inside zones take `s` to `s'`. -/
structure Intrudes (n : Nat) (s s' : DstEngine) : Prop where
  alarmFlag : s'.alarmFlag.toNat = (s.alarmFlag.toNat + n) % UInt32.size
  raises : Raises .region (sampledHits s.alarmFlag.toNat n) s s'

theorem Intrudes.refl (s : DstEngine) : Intrudes 0 s s where
  alarmFlag := (Nat.mod_eq_of_lt s.alarmFlag.toNat_lt_size).symm
  raises := Raises.refl .region s

theorem Intrudes.trans {k l : Nat} {first second third : DstEngine}
    (left : Intrudes k first second) (right : Intrudes l second third) :
    Intrudes (k + l) first third where
  alarmFlag := by rw [right.alarmFlag, left.alarmFlag, Nat.mod_add_mod, Nat.add_assoc]
  raises := by
    have h := left.raises.trans right.raises
    rwa [left.alarmFlag, ← sampledHits_add] at h

theorem checkIntrusion_intrudes (p : Point) (s : DstEngine) (border : Border) :
    Intrudes (if env.judges.intrudes p border then 1 else 0) s
      (checkIntrusion env c p s border) := by
  unfold checkIntrusion
  by_cases hHit : env.judges.intrudes p border = true
  · rw [if_pos hHit, if_pos hHit]
    have hFlag : (s.alarmFlag + 1).toNat = (s.alarmFlag.toNat + 1) % UInt32.size := by
      rw [UInt32.toNat_add]
      rfl
    have hPasses : (s.alarmFlag + 1) % sampleP = 1 ↔
        Throttle.Passes UInt32.size sampleP.toNat 1 s.alarmFlag.toNat := by
      unfold Throttle.Passes
      rw [← UInt32.toNat_inj, UInt32.toNat_mod, hFlag]
      rfl
    dsimp only
    by_cases hPass : Throttle.Passes UInt32.size sampleP.toNat 1 s.alarmFlag.toNat
    · rw [if_neg (not_not.mpr (hPasses.mpr hPass))]
      refine ⟨by rw [raiseAlarm_alarmFlag]; exact hFlag, ?_⟩
      rw [sampledHits, Throttle.passed_one, if_pos hPass]
      have hRaise := raiseAlarm_raises env.ip c .region none
        { s with alarmFlag := s.alarmFlag + 1 }
      exact ⟨hRaise.videoId, hRaise.frameId, hRaise.resultVideos, hRaise.resultCondition,
        hRaise.named, hRaise.others, hRaise.trace⟩
    · rw [if_pos (fun h => hPass (hPasses.mp h))]
      refine ⟨hFlag, ?_⟩
      rw [sampledHits, Throttle.passed_one, if_neg hPass]
      have hStay := Raises.refl .region s
      exact ⟨hStay.videoId, hStay.frameId, hStay.resultVideos, hStay.resultCondition,
        hStay.named, hStay.others, hStay.trace⟩
  · rw [if_neg hHit, if_neg hHit]
    exact Intrudes.refl s

@[simp]
theorem checkIntrusion_trails (p : Point) (s : DstEngine) (border : Border) :
    (checkIntrusion env c p s border).trails = s.trails := by
  unfold checkIntrusion
  dsimp only
  split_ifs <;> simp

theorem foldl_checkIntrusion (p : Point) (borders : List Border) (s : DstEngine) :
    Intrudes (borders.countP (env.judges.intrudes p)) s
        (borders.foldl (checkIntrusion env c p) s) ∧
      (borders.foldl (checkIntrusion env c p) s).trails = s.trails := by
  induction borders generalizing s with
  | nil => exact ⟨Intrudes.refl s, rfl⟩
  | cons border rest ih =>
      obtain ⟨hRest, hTrails⟩ := ih (checkIntrusion env c p s border)
      refine ⟨?_, hTrails.trans (checkIntrusion_trails env c p s border)⟩
      rw [List.countP_cons, Nat.add_comm]
      exact (checkIntrusion_intrudes env c p s border).trans hRest

/-- The feet of a frame inside zones, one for each person and each zone. -/
def intrusionHits (judges : Judges) (borders : List Border) (persons : List DetectInfo) : Nat :=
  (persons.map fun det => borders.countP (judges.intrudes det.foot)).sum

section Detection

variable [LT α] [DecidableLT α]

/-- All detections of a frame, in order. -/
def assignAll (metric : Metric α) (trails : List Trail) (boxes : List Rectangle) : List Trail :=
  boxes.foldl (fun ts box => assign metric box.anchorLt box.anchorRb ts) trails

theorem processDetection_person (s : DstEngine) (det : DetectInfo)
    (hPerson : det.classId = personLabel) :
    Intrudes (c.borders.countP (env.judges.intrudes det.foot)) s (processDetection env c s det) ∧
      (processDetection env c s det).trails =
        assign env.metric det.location.anchorLt det.location.anchorRb s.trails := by
  obtain ⟨hHits, hTrails⟩ := foldl_checkIntrusion env c det.foot c.borders s
  unfold processDetection
  rw [if_neg (not_not.mpr hPerson)]
  refine ⟨⟨hHits.alarmFlag, ?_⟩, by dsimp only; rw [hTrails]⟩
  have h := hHits.raises
  exact ⟨h.videoId, h.frameId, h.resultVideos, h.resultCondition, h.named, h.others, h.trace⟩

theorem foldl_processDetection (detections : List DetectInfo) (s : DstEngine) :
    let persons := detections.filter (fun det => det.classId = personLabel)
    let s' := detections.foldl (processDetection env c) s
    Intrudes (intrusionHits env.judges c.borders persons) s s' ∧
      s'.trails = assignAll env.metric s.trails (persons.map DetectInfo.location) := by
  induction detections generalizing s with
  | nil => exact ⟨Intrudes.refl s, rfl⟩
  | cons det rest ih =>
      obtain ⟨hRest, hTrails⟩ := ih (processDetection env c s det)
      by_cases hPerson : det.classId = personLabel
      · obtain ⟨hHits, hAssign⟩ := processDetection_person env c s det hPerson
        simp only [List.foldl_cons, List.filter_cons, hPerson, decide_true, if_true,
          List.map_cons, assignAll, intrusionHits, List.sum_cons]
        exact ⟨hHits.trans hRest, by rw [hTrails, hAssign]; rfl⟩
      · have hSkip : processDetection env c s det = s := if_pos hPerson
        simp only [List.foldl_cons, List.filter_cons, hPerson, decide_false]
        rw [hSkip] at hRest hTrails ⊢
        exact ⟨hRest, hTrails⟩

end Detection

/-- The crossing check of one trail without its alarms: the trail afterwards
and the number of borders found crossed. -/
def crossStep (judges : Judges) (p : Trail × Nat) (border : Border) : Trail × Nat :=
  if judges.crosses p.1.points border then (p.1.clear, p.2 + 1) else p

def crossOutcome (judges : Judges) (borders : List Border) (t : Trail) : Trail × Nat :=
  borders.foldl (crossStep judges) (t, 0)

/-- One crossing: a border alarm and then the reset of the trail. -/
def crossEffect (ip : String) (c : Call) (s : DstEngine) (i : Nat) : DstEngine :=
  let s := raiseAlarm ip c .border (some i) s
  { s with trace := s.trace ++ [.cleared i] }

/-- The positions of the trails found crossed, one entry for each alarm. -/
def crossedTrails (judges : Judges) (borders : List Border) : Nat → List Trail → List Nat
  | _, [] => []
  | i, t :: rest =>
      List.replicate (crossOutcome judges borders t).2 i ++
        crossedTrails judges borders (i + 1) rest

theorem foldl_crossStep (judges : Judges) (borders : List Border) (t : Trail) (n : Nat) :
    borders.foldl (crossStep judges) (t, n) =
      ((crossOutcome judges borders t).1, n + (crossOutcome judges borders t).2) := by
  unfold crossOutcome
  induction borders generalizing t n with
  | nil => rfl
  | cons border rest ih =>
      simp only [List.foldl_cons, crossStep]
      split_ifs
      · rw [ih t.clear (n + 1), ih t.clear (0 + 1)]
        simp [Nat.add_assoc]
      · exact ih t n

theorem foldl_crossBorder (i : Nat) (borders : List Border) (t : Trail) (s : DstEngine) :
    borders.foldl (crossBorder env c i) (t, s) =
      ((crossOutcome env.judges borders t).1,
        (List.replicate (crossOutcome env.judges borders t).2 i).foldl
          (crossEffect env.ip c) s) := by
  induction borders generalizing t s with
  | nil => rfl
  | cons border rest ih =>
      rw [List.foldl_cons]
      by_cases hCross : env.judges.crosses t.points border = true
      · have hStep : crossBorder env c i (t, s) border = (t.clear, crossEffect env.ip c s i) :=
          if_pos hCross
        have hOutcome : crossOutcome env.judges (border :: rest) t =
            ((crossOutcome env.judges rest t.clear).1,
              (crossOutcome env.judges rest t.clear).2 + 1) := by
          unfold crossOutcome
          rw [List.foldl_cons, crossStep, if_pos hCross, foldl_crossStep, Nat.add_comm]
          rfl
        rw [hStep, ih, hOutcome, List.replicate_succ, List.foldl_cons]
      · have hStep : crossBorder env c i (t, s) border = (t, s) := if_neg hCross
        have hOutcome : crossOutcome env.judges (border :: rest) t =
            crossOutcome env.judges rest t := by
          unfold crossOutcome
          rw [List.foldl_cons, crossStep, if_neg hCross]
        rw [hStep, ih, hOutcome]

/-- The crossing check treats every trail by itself; its alarms follow one
another in the order of the trails. -/
theorem crossTrails_eq (i : Nat) (trails : List Trail) (s : DstEngine) :
    crossTrails env c i trails s =
      (trails.map (fun t => (crossOutcome env.judges c.borders t).1),
        (crossedTrails env.judges c.borders i trails).foldl (crossEffect env.ip c) s) := by
  induction trails generalizing i s with
  | nil => rfl
  | cons t rest ih =>
      simp only [crossTrails, foldl_crossBorder, ih, List.map_cons, crossedTrails,
        List.foldl_append]

theorem sampleN_zero (n : UInt32) : n % sampleN = 0 := by
  rw [← UInt32.toNat_inj, UInt32.toNat_mod]
  exact Nat.mod_one _

/-- The guard of the crossing check never skips a trail. -/
theorem checkCrossings_eq (s : DstEngine) : checkCrossings env c s =
    { (crossedTrails env.judges c.borders 0 s.trails).foldl (crossEffect env.ip c) s with
      trails := s.trails.map (fun t => (crossOutcome env.judges c.borders t).1) } := by
  unfold checkCrossings
  by_cases hEmpty : s.trails = []
  · rw [if_neg (by simp [hEmpty])]
    cases s
    cases hEmpty
    rfl
  · rw [if_pos ⟨by simp [hEmpty], sampleN_zero _⟩, crossTrails_eq]

/-- The events of the crossings at the given positions, numbered from `id`. -/
def crossEvents (c : Call) : Nat → List Nat → List Event
  | _, [] => []
  | id, i :: rest => alarmEvents c .border id (some i) ++ .cleared i :: crossEvents c (id + 1) rest

theorem crossEvents_ofPhase (id : Nat) (positions : List Nat) :
    ∀ e ∈ crossEvents c id positions, e.ofPhase .border = true := by
  induction positions generalizing id with
  | nil =>
      intro e mem
      cases mem
  | cons i rest ih =>
      intro e mem
      rcases List.mem_append.mp mem with mem | mem
      · exact alarmEvents_ofPhase c .border (some i) id e mem
      · rcases List.mem_cons.mp mem with rfl | mem
        · rfl
        · exact ih (id + 1) e mem

/-- The alarms of the crossing check are numbered one after the other. -/
theorem raisedIds_crossEvents (id : Nat) (positions : List Nat) :
    raisedIds .border (crossEvents c id positions) = List.range' id positions.length := by
  induction positions generalizing id with
  | nil => rfl
  | cons i rest ih =>
      have hRest : raisedIds .border (.cleared i :: crossEvents c (id + 1) rest) =
          raisedIds .border (crossEvents c (id + 1) rest) := rfl
      rw [crossEvents, raisedIds_append, raisedIds_alarmEvents, hRest, ih, List.length_cons,
        List.range'_succ]
      rfl

theorem crossEffect_raises (ip : String) (s : DstEngine) (i : Nat) :
    Raises .border 1 s (crossEffect ip c s i) := by
  have h := raiseAlarm_raises ip c .border (some i) s
  refine ⟨h.videoId, h.frameId, h.resultVideos, h.resultCondition, h.named, h.others, ?_⟩
  obtain ⟨events, hTrace, hIds, hTypes, hAlarms⟩ := h.trace
  refine ⟨events ++ [.cleared i], ?_, ?_, ?_, ?_⟩
  · simp only [crossEffect, hTrace, List.append_assoc]
  · rw [raisedIds_append, hIds]
    rfl
  · rw [reportedIn_append]
    exact hTypes.trans (congrArg _ (List.append_nil _).symm)
  · intro e mem
    rcases List.mem_append.mp mem with mem | mem
    · exact hAlarms e mem
    · rw [List.mem_singleton.mp mem]
      rfl

theorem foldl_crossEffect_raises (ip : String) (crossed : List Nat) (s : DstEngine) :
    Raises .border crossed.length s (crossed.foldl (crossEffect ip c) s) := by
  induction crossed generalizing s with
  | nil => exact Raises.refl .border s
  | cons i rest ih =>
      rw [List.length_cons, Nat.add_comm]
      exact (crossEffect_raises c ip s i).trans (ih _)

theorem foldl_crossEffect_trace (ip : String) (crossed : List Nat) (s : DstEngine) :
    (crossed.foldl (crossEffect ip c) s).trace = s.trace ++ crossEvents c s.videoId crossed := by
  induction crossed generalizing s with
  | nil => simp [crossEvents]
  | cons i rest ih =>
      rw [List.foldl_cons, ih, (crossEffect_raises c ip s i).videoId]
      simp only [crossEffect, raiseAlarm_trace, crossEvents, List.append_assoc, List.cons_append,
        List.nil_append]

/-- A clip save writes images of its folder and nothing else. -/
theorem mem_saveImages {opens : Opens} {folder : String} {rounds number : Nat}
    {queue : List DeviceStreamData} {e : Event}
    (mem : e ∈ (saveImages opens folder rounds number queue).2) :
    ∃ n data, e = .wrote ⟨folder, n⟩ data := by
  induction rounds generalizing number queue with
  | zero => cases mem
  | succ rounds ih =>
      cases queue with
      | nil => cases mem
      | cons video rest =>
          unfold saveImages at mem
          split_ifs at mem
          · rcases List.mem_cons.mp mem with rfl | mem
            · exact ⟨number, _, rfl⟩
            · exact ih mem
          · cases mem

/-- The copying loop succeeds exactly if every image it comes to can be
opened; moving elements to the back does not make it run out of them. -/
theorem saveImages_ok_iff {opens : Opens} {folder : String} {rounds number : Nat}
    {queue : List DeviceStreamData} (hLength : rounds ≤ queue.length) :
    (saveImages opens folder rounds number queue).1 = true ↔
      ∀ j < rounds, opens.clip ⟨folder, number + j⟩ = true := by
  induction rounds generalizing number queue with
  | zero => simp [saveImages]
  | succ rounds ih =>
      cases queue with
      | nil => simp at hLength
      | cons video rest =>
          have hRest : rounds ≤ (rest ++ [video]).length := by
            simp at hLength ⊢
            omega
          unfold saveImages
          rw [Nat.forall_lt_succ_left']
          by_cases hOpen : opens.clip ⟨folder, number⟩ = true
          · simp only [hOpen, if_true, ih hRest, Nat.add_zero, true_and]
            simp only [Nat.add_assoc, Nat.add_comm 1]
          · simp [hOpen]

/-- A successful loop over a full window writes the images in queue order. -/
theorem saveImages_complete {opens : Opens} {folder : String} {rounds number : Nat}
    {queue : List DeviceStreamData} (hLength : rounds ≤ queue.length)
    (hOpens : ∀ file, opens.clip file = true) :
    saveImages opens folder rounds number queue =
      (true, ((queue.take rounds).zipIdx number).map
        (fun p => .wrote ⟨folder, p.2⟩ p.1.imgOrigin.data)) := by
  induction rounds generalizing number queue with
  | zero => simp [saveImages]
  | succ rounds ih =>
      cases queue with
      | nil => simp at hLength
      | cons video rest =>
          have hRest : rounds ≤ rest.length := by simpa using hLength
          unfold saveImages
          rw [if_pos (hOpens _), ih (by simp; omega), List.take_append_of_le_length hRest]
          rfl

/-- The events of a clip save that is due. -/
def clipEvents (c : Call) (type : AlarmType) (center : Nat) (videoname : String)
    (queue : List DeviceStreamData) : List Event :=
  if center = type.marker then
    let saved := saveImages c.opens type.folder clipLength 1 queue
    .saveVideo type queue :: saved.2 ++ if saved.1 then [.encode videoname] else []
  else []

/-- A clip is due and one of its images cannot be opened. -/
def clipFault (c : Call) (type : AlarmType) (center : Nat)
    (queue : List DeviceStreamData) : Bool :=
  decide (center = type.marker) && !(saveImages c.opens type.folder clipLength 1 queue).1

theorem clipFault_due {c : Call} {type : AlarmType} {center : Nat}
    {queue : List DeviceStreamData} (h : clipFault c type center queue = true) :
    center = type.marker := by
  unfold clipFault at h
  rw [Bool.and_eq_true, decide_eq_true_eq] at h
  exact h.1

theorem saveClip_eq (type : AlarmType) (center : Nat) (videoname : String) (s : DstEngine) :
    saveClip c type center videoname s = (!clipFault c type center s.resultVideos,
      { s with trace := s.trace ++ clipEvents c type center videoname s.resultVideos }) := by
  unfold saveClip clipFault clipEvents
  by_cases hDue : center = type.marker
  · simp [hDue, saveVideoToJpg]
  · simp [hDue]

section ClipProjections

variable (opens : Opens) (folder : String) (rounds number : Nat) (queue : List DeviceStreamData)

theorem savesIn_saveImages : savesIn (saveImages opens folder rounds number queue).2 = [] := by
  apply List.filterMap_eq_nil_iff.mpr
  intro e mem
  obtain ⟨n, data, rfl⟩ := mem_saveImages mem
  rfl

theorem encodesIn_saveImages : encodesIn (saveImages opens folder rounds number queue).2 = [] := by
  apply List.filterMap_eq_nil_iff.mpr
  intro e mem
  obtain ⟨n, data, rfl⟩ := mem_saveImages mem
  rfl

variable (type : AlarmType) (center : Nat) (videoname : String)

theorem savesIn_clipEvents : savesIn (clipEvents c type center videoname queue) =
    if center = type.marker then [(type, queue)] else [] := by
  unfold clipEvents
  by_cases hDue : center = type.marker
  · rw [if_pos hDue, if_pos hDue, savesIn_append, ← List.singleton_append, savesIn_append,
      savesIn_saveImages]
    split_ifs <;> rfl
  · rw [if_neg hDue, if_neg hDue]
    rfl

theorem clipEvents_ofClip :
    ∀ e ∈ clipEvents c type center videoname queue, e.ofClip = true := by
  intro e mem
  unfold clipEvents at mem
  split_ifs at mem with hDue
  · rcases List.mem_append.mp mem with mem | mem
    · rcases List.mem_cons.mp mem with rfl | mem
      · rfl
      · obtain ⟨n, data, rfl⟩ := mem_saveImages mem
        rfl
    · split_ifs at mem
      · rw [List.mem_singleton.mp mem]
        rfl
      · cases mem
  · cases mem

@[simp]
theorem raisedIds_clipEvents (other : AlarmType) :
    raisedIds other (clipEvents c type center videoname queue) = [] :=
  raisedIds_of_clip other (clipEvents_ofClip c queue type center videoname)

@[simp]
theorem reportedIn_clipEvents : reportedIn (clipEvents c type center videoname queue) = [] :=
  reportedIn_of_clip (clipEvents_ofClip c queue type center videoname)

end ClipProjections

end DstEngine
end Hengda

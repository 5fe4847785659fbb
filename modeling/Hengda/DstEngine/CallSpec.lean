import Hengda.DstEngine.Phases

/-! One whole call. The four ways in which it can end are named by the state
that they leave behind, and the marker that decides about a clip is shown to be
known as soon as the frame is pushed. -/
namespace Hengda
namespace DstEngine

variable {α : Type*} [LT α] [DecidableLT α] (env : Env α) (s : DstEngine) (c : Call)

/-- The cover cannot be written, and the frame is not looked at. -/
def Blocked : Prop :=
  s.frameId = 0 ∧ c.opens.cover = false

instance : Decidable (Blocked s c) :=
  inferInstanceAs (Decidable (_ ∧ _))

/-- The marker nine frames before the frame that is now pushed. -/
def dueMarker : Nat :=
  resultCenter 0 (pushFrame c.frame s)

/-- The window of frames that a clip of this call is made of. -/
def window : List DeviceStreamData :=
  (pushFrame c.frame s).resultVideos

def detected : DstEngine :=
  detect env c { s with trace := [] }

def afterRegionClip : DstEngine :=
  { detected env s c with
    trace := (detected env s c).trace ++
      clipEvents c .region (dueMarker s c) (detected env s c).videoname1 (window s c) }

def crossed : DstEngine :=
  checkCrossings env c (afterRegionClip env s c)

def afterBorderClip : DstEngine :=
  { crossed env s c with
    trace := (crossed env s c).trace ++
      clipEvents c .border (dueMarker s c) (crossed env s c).videoname2 (window s c) }

/-- What the detection phase starts from, up to the trace. -/
def pushed : DstEngine :=
  { pushFrame c.frame s with trails := ageTrails s.trails }

theorem pushFrame_fields (frame : DeviceStreamData) :
    (pushFrame frame s).trails = s.trails ∧ (pushFrame frame s).alarmFlag = s.alarmFlag ∧
      (pushFrame frame s).videoId = s.videoId ∧ (pushFrame frame s).frameId = s.frameId ∧
      (pushFrame frame s).trace = s.trace ∧ (pushFrame frame s).alarms = s.alarms ∧
      ∀ type, (pushFrame frame s).videoname type = s.videoname type := by
  unfold pushFrame
  dsimp only
  split_ifs <;> exact ⟨rfl, rfl, rfl, rfl, rfl, rfl, fun type => by cases type <;> rfl⟩

/-- The detection phase raises region alarms on the pushed state and puts the
persons of the frame into the aged trails. -/
theorem detected_spec :
    (detected env s c).trails = assignAll env.metric (ageTrails s.trails)
        (c.frame.persons.map DetectInfo.location) ∧
      (detected env s c).alarmFlag.toNat = (s.alarmFlag.toNat +
        intrusionHits env.judges c.borders c.frame.persons) % UInt32.size ∧
      ∃ cover, (raisedIds .region cover = [] ∧ reportedIn cover = [] ∧
          ∀ e ∈ cover, e.ofPhase .region = true) ∧
        Raises .region (sampledHits s.alarmFlag.toNat
          (intrusionHits env.judges c.borders c.frame.persons))
          { pushed s c with trace := cover } (detected env s c) := by
  unfold detected detect
  dsimp only
  generalize hStart : (if s.frameId = 0 then
      { s with trace := [] ++ [Event.cover c.frame.imgOrigin.data] }
    else { s with trace := [] }) = start
  have hCover : start = { s with trace := start.trace } ∧ raisedIds .region start.trace = [] ∧
      reportedIn start.trace = [] ∧ ∀ e ∈ start.trace, e.ofPhase .region = true := by
    rw [← hStart]
    split_ifs
    · exact ⟨rfl, rfl, rfl, by simp [Event.ofPhase]⟩
    · exact ⟨rfl, rfl, rfl, by simp⟩
  obtain ⟨hEq, hCover⟩ := hCover
  have hPush :
      { pushFrame c.frame start with trails := ageTrails (pushFrame c.frame start).trails } =
        { pushed s c with trace := start.trace } := by
    rw [hEq]
    unfold pushed pushFrame
    dsimp only
    split_ifs <;> rfl
  rw [hPush]
  obtain ⟨hHits, hTrails⟩ := foldl_processDetection env c c.frame.detectResult
    { pushed s c with trace := start.trace }
  obtain ⟨_, hFlag, _⟩ := pushFrame_fields s c.frame
  have hStartFlag : ({ pushed s c with trace := start.trace } : DstEngine).alarmFlag =
      s.alarmFlag := hFlag
  refine ⟨hTrails, ?_, start.trace, hCover, ?_⟩
  · have h := hHits.alarmFlag
    rwa [hStartFlag] at h
  · have h := hHits.raises
    rwa [hStartFlag] at h

/-- Overwriting the last marker does not move the centre of the window. -/
theorem resultCenter_overwrite {first second : DstEngine} {m : Nat} (carried : Nat)
    (h : second.resultCondition = first.resultCondition ∨
      second.resultCondition = first.resultCondition.dropLast ++ [m]) :
    resultCenter carried second = resultCenter carried first := by
  unfold resultCenter
  rcases h with h | h
  · rw [h]
  · by_cases hEmpty : first.resultCondition = []
    · rw [h, hEmpty]
      rfl
    · have hLength : second.resultCondition.length = first.resultCondition.length := by
        have hPos := List.length_pos_of_ne_nil hEmpty
        rw [h, List.length_append, List.length_dropLast, List.length_singleton]
        omega
      rw [hLength]
      split_ifs with hFull
      · rw [h, List.getD_eq_getElem?_getD, List.getD_eq_getElem?_getD,
          List.getElem?_append_left (by rw [List.length_dropLast, hFull]; decide),
          List.getElem?_dropLast, if_pos (by rw [hFull]; decide)]
      · rfl

/-- Reading the centre again yields what was read before. -/
theorem resultCenter_again (first : DstEngine) :
    resultCenter (resultCenter 0 first) first = resultCenter 0 first := by
  unfold resultCenter
  split_ifs <;> rfl

theorem Raises.resultCondition_or {type : AlarmType} {k : Nat} {first second : DstEngine}
    (h : Raises type k first second) : second.resultCondition = first.resultCondition ∨
      second.resultCondition = first.resultCondition.dropLast ++ [type.marker] := by
  rw [h.resultCondition]
  split_ifs
  · exact Or.inl rfl
  · exact Or.inr rfl

theorem detected_window :
    (detected env s c).resultVideos = window s c ∧
      (detected env s c).frameId = s.frameId ∧
      resultCenter 0 (detected env s c) = dueMarker s c := by
  obtain ⟨_, _, cover, _, hRaises⟩ := detected_spec env s c
  refine ⟨hRaises.resultVideos, hRaises.frameId.trans (pushFrame_fields s c.frame).2.2.2.1, ?_⟩
  exact resultCenter_overwrite 0 hRaises.resultCondition_or

/-- The crossing phase of a call raises border alarms and nothing else; the
trails are treated one by one. -/
theorem crossed_spec :
    let positions := crossedTrails env.judges c.borders 0 (detected env s c).trails
    Raises .border positions.length (afterRegionClip env s c) (crossed env s c) ∧
      (crossed env s c).trails = (detected env s c).trails.map
        (fun t => (crossOutcome env.judges c.borders t).1) ∧
      (crossed env s c).trace = (afterRegionClip env s c).trace ++
        crossEvents c (detected env s c).videoId positions := by
  have hRaises := foldl_crossEffect_raises c env.ip
    (crossedTrails env.judges c.borders 0 (detected env s c).trails) (afterRegionClip env s c)
  have hTrace := foldl_crossEffect_trace c env.ip
    (crossedTrails env.judges c.borders 0 (detected env s c).trails) (afterRegionClip env s c)
  unfold crossed
  rw [checkCrossings_eq]
  refine ⟨?_, rfl, hTrace⟩
  exact ⟨hRaises.videoId, hRaises.frameId, hRaises.resultVideos, hRaises.resultCondition,
    hRaises.named, hRaises.others, hRaises.trace⟩

theorem crossed_window :
    (crossed env s c).resultVideos = window s c ∧ (crossed env s c).frameId = s.frameId ∧
      resultCenter (dueMarker s c) (crossed env s c) = dueMarker s c := by
  obtain ⟨hVideos, hFrame, hCenter⟩ := detected_window env s c
  obtain ⟨hRaises, _⟩ := crossed_spec env s c
  refine ⟨hRaises.resultVideos.trans hVideos, hRaises.frameId.trans hFrame, ?_⟩
  have hSame : resultCenter (dueMarker s c) (crossed env s c) =
      resultCenter (dueMarker s c) (detected env s c) :=
    resultCenter_overwrite _ hRaises.resultCondition_or
  rw [hSame, ← hCenter]
  exact resultCenter_again (detected env s c)

theorem saveClip_detected : saveClip c .region (resultCenter 0 (detected env s c))
    (detected env s c).videoname1 (detected env s c) =
      (!clipFault c .region (dueMarker s c) (window s c), afterRegionClip env s c) := by
  obtain ⟨hVideos, _, hCenter⟩ := detected_window env s c
  rw [saveClip_eq, hCenter]
  unfold afterRegionClip
  rw [← hVideos]

theorem saveClip_crossed : saveClip c .border (resultCenter (dueMarker s c) (crossed env s c))
    (crossed env s c).videoname2 (crossed env s c) =
      (!clipFault c .border (dueMarker s c) (window s c), afterBorderClip env s c) := by
  obtain ⟨hVideos, _, hCenter⟩ := crossed_window env s c
  rw [saveClip_eq, hCenter]
  unfold afterBorderClip
  rw [← hVideos]

/-- The four exits of a call, in the order in which they are tested. -/
theorem processResult_eq : processResult env s c =
    if Blocked s c then (.error, { s with trace := [] })
    else if clipFault c .region (dueMarker s c) (window s c) then
      (.error, afterRegionClip env s c)
    else if clipFault c .border (dueMarker s c) (window s c) then
      (.error, afterBorderClip env s c)
    else (.ok, { afterBorderClip env s c with frameId := s.frameId + 1 }) := by
  obtain ⟨_, _, hCenter⟩ := detected_window env s c
  obtain ⟨_, hFrame, _⟩ := crossed_window env s c
  have hDetected : detect env c { s with trace := [] } = detected env s c := rfl
  have hCrossed : checkCrossings env c (afterRegionClip env s c) = crossed env s c := rfl
  unfold processResult
  dsimp only
  rw [hDetected, saveClip_detected]
  dsimp only
  rw [hCrossed, hCenter, saveClip_crossed]
  refine if_congr Iff.rfl rfl ?_
  cases clipFault c .region (dueMarker s c) (window s c)
  · cases clipFault c .border (dueMarker s c) (window s c)
    · simp only [Bool.not_false, Bool.true_eq_false, Bool.false_eq_true, if_false, Prod.mk.injEq,
        true_and]
      have hStay : (afterBorderClip env s c).frameId = s.frameId := hFrame
      rw [hStay]
    · rfl
  · rfl

theorem step_blocked (hBlocked : Blocked s c) : step env s c = { s with trace := [] } := by
  unfold step
  rw [processResult_eq, if_pos hBlocked]

/-- The state that an accepted call leaves, on each of its three exits. -/
theorem step_accepted (hAccepted : ¬ Blocked s c) : step env s c =
    if clipFault c .region (dueMarker s c) (window s c) then afterRegionClip env s c
    else if clipFault c .border (dueMarker s c) (window s c) then afterBorderClip env s c
    else { afterBorderClip env s c with frameId := s.frameId + 1 } := by
  unfold step
  rw [processResult_eq, if_neg hAccepted]
  split_ifs <;> rfl

/-- How many region alarms the call raises. -/
def regionCount : Nat :=
  sampledHits s.alarmFlag.toNat (intrusionHits env.judges c.borders c.frame.persons)

/-- The positions of the crossed trails, one entry for each border alarm. A
region clip that fails ends the call before any of them. -/
def borderPositions : List Nat :=
  if clipFault c .region (dueMarker s c) (window s c) then []
  else crossedTrails env.judges c.borders 0 (detected env s c).trails

/-- The marker that an accepted call leaves at the end of the window. -/
def marker : Nat :=
  if borderPositions env s c ≠ [] then AlarmType.border.marker
  else if regionCount env s c ≠ 0 then AlarmType.region.marker
  else 0

theorem detected_raises : ∃ cover,
    (raisedIds .region cover = [] ∧ reportedIn cover = [] ∧
      ∀ e ∈ cover, e.ofPhase .region = true) ∧
    Raises .region (regionCount env s c) { pushed s c with trace := cover } (detected env s c) := by
  obtain ⟨_, _, cover, hCover, hRaises⟩ := detected_spec env s c
  exact ⟨cover, hCover, hRaises⟩

theorem detected_trace :
    (∀ e ∈ (detected env s c).trace, e.ofPhase .region = true) ∧
      raisedIds .region (detected env s c).trace = List.range' s.videoId (regionCount env s c) ∧
      (detected env s c).alarms.map Alarm.type =
        s.alarms.map Alarm.type ++ reportedIn (detected env s c).trace := by
  obtain ⟨cover, ⟨hRaised, hReported, hCover⟩, hRaises⟩ := detected_raises env s c
  obtain ⟨events, hTrace, hIds, hTypes, hPhase⟩ := hRaises.trace
  obtain ⟨_, _, hVideoId, _, _, hAlarms, _⟩ := pushFrame_fields s c.frame
  rw [hTrace]
  refine ⟨?_, ?_, ?_⟩
  · intro e mem
    exact (List.mem_append.mp mem).elim (hCover e) (hPhase e)
  · rw [raisedIds_append, hIds, hRaised, List.nil_append, ← hVideoId]
    rfl
  · rw [hTypes, reportedIn_append, hReported, List.nil_append, ← hAlarms]
    rfl

theorem detected_videoId : (detected env s c).videoId = s.videoId + regionCount env s c := by
  obtain ⟨cover, _, hRaises⟩ := detected_raises env s c
  rw [← (pushFrame_fields s c.frame).2.2.1]
  exact hRaises.videoId

theorem crossed_alarmFlag : (crossed env s c).alarmFlag = (detected env s c).alarmFlag := by
  unfold crossed
  rw [checkCrossings_eq]
  apply Machine.foldl_relation
    (fun first second : DstEngine => second.alarmFlag = first.alarmFlag)
  · intro state
    rfl
  · intro first second third left right
    exact right.trans left
  · intro state i _
    exact raiseAlarm_alarmFlag env.ip c .border (some i) state

/-- Overwriting the newest marker once for the region alarms and once for the
border alarms leaves the marker of the call. -/
theorem marker_overwrites (conditions : List Nat) {region border : List Nat}
    (hRegion : region = if regionCount env s c = 0 then conditions
      else conditions.dropLast ++ [AlarmType.region.marker])
    (hBorder : border = if (borderPositions env s c).length = 0 then region
      else region.dropLast ++ [AlarmType.border.marker]) :
    border = if marker env s c = 0 then conditions
      else conditions.dropLast ++ [marker env s c] := by
  rw [hBorder, hRegion, marker]
  by_cases hNone : borderPositions env s c = []
  · by_cases hCount : regionCount env s c = 0
    · simp [hNone, hCount]
    · simp [hNone, hCount, AlarmType.marker]
  · by_cases hCount : regionCount env s c = 0
    · simp [hNone, hCount, AlarmType.marker]
    · simp [hNone, hCount, AlarmType.marker]

theorem detected_resultCondition : (detected env s c).resultCondition =
    if regionCount env s c = 0 then (pushFrame c.frame s).resultCondition
    else (pushFrame c.frame s).resultCondition.dropLast ++ [AlarmType.region.marker] := by
  obtain ⟨cover, _, hRaises⟩ := detected_raises env s c
  exact hRaises.resultCondition

/-- The fields that no clip touches, after the crossing check. -/
theorem crossed_fields (hSaved : ¬ clipFault c .region (dueMarker s c) (window s c) = true) :
    (crossed env s c).resultVideos = window s c ∧
      (crossed env s c).videoId =
        s.videoId + regionCount env s c + (borderPositions env s c).length ∧
      (crossed env s c).videoname1 = (detected env s c).videoname1 ∧
      (crossed env s c).resultCondition =
        if marker env s c = 0 then (pushFrame c.frame s).resultCondition
        else (pushFrame c.frame s).resultCondition.dropLast ++ [marker env s c] := by
  obtain ⟨hVideos, _, _⟩ := detected_window env s c
  obtain ⟨hBorder, _, _⟩ := crossed_spec env s c
  have hPositions : borderPositions env s c =
      crossedTrails env.judges c.borders 0 (detected env s c).trails := if_neg hSaved
  rw [← hPositions] at hBorder
  refine ⟨hBorder.resultVideos.trans hVideos, ?_, hBorder.others .region (by decide), ?_⟩
  · rw [← detected_videoId env s c]
    exact hBorder.videoId
  · exact marker_overwrites env s c _ (detected_resultCondition env s c) hBorder.resultCondition

/-- What an accepted call does to the state, apart from the trails and the
trace. Either the crossing check was reached or the call ended before it. -/
theorem step_fields (hAccepted : ¬ Blocked s c) :
    (step env s c).resultVideos = window s c ∧
      (step env s c).videoId =
        s.videoId + regionCount env s c + (borderPositions env s c).length ∧
      (step env s c).videoname1 = (detected env s c).videoname1 ∧
      (step env s c).alarmFlag = (detected env s c).alarmFlag ∧
      (step env s c).resultCondition =
        if marker env s c = 0 then (pushFrame c.frame s).resultCondition
        else (pushFrame c.frame s).resultCondition.dropLast ++ [marker env s c] := by
  rw [step_accepted env s c hAccepted]
  by_cases hFault : clipFault c .region (dueMarker s c) (window s c) = true
  · obtain ⟨hVideos, _, _⟩ := detected_window env s c
    have hNone : borderPositions env s c = [] := if_pos hFault
    have hCondition := marker_overwrites env s c _ (detected_resultCondition env s c)
      (if_pos (by rw [hNone]; rfl)).symm
    rw [if_pos hFault]
    refine ⟨hVideos, ?_, rfl, rfl, hCondition⟩
    rw [hNone]
    exact detected_videoId env s c
  · obtain ⟨hVideos, hId, hName, hCondition⟩ := crossed_fields env s c hFault
    have hFlag := crossed_alarmFlag env s c
    rw [if_neg hFault]
    by_cases hLater : clipFault c .border (dueMarker s c) (window s c) = true
    · rw [if_pos hLater]
      exact ⟨hVideos, hId, hName, hFlag, hCondition⟩
    · rw [if_neg hLater]
      exact ⟨hVideos, hId, hName, hFlag, hCondition⟩

/-- The two names after an accepted call: each is the number of the last alarm
of its type. -/
theorem step_names (hAccepted : ¬ Blocked s c) :
    (step env s c).videoname1 = (if regionCount env s c = 0 then s.videoname1
      else toString (s.videoId + regionCount env s c - 1)) ∧
    (step env s c).videoname2 = (if (borderPositions env s c).length = 0 then s.videoname2
      else toString (s.videoId + regionCount env s c + (borderPositions env s c).length - 1)) := by
  obtain ⟨cover, _, hRegion⟩ := detected_raises env s c
  obtain ⟨_, _, hVideoId, _, _, _, hNames⟩ := pushFrame_fields s c.frame
  have hFirst : (detected env s c).videoname1 = (if regionCount env s c = 0 then s.videoname1
      else toString (s.videoId + regionCount env s c - 1)) := by
    have hNamed := hRegion.named
    change (detected env s c).videoname1 = if regionCount env s c = 0 then
      (pushFrame c.frame s).videoname .region
      else toString ((pushFrame c.frame s).videoId + regionCount env s c - 1) at hNamed
    rwa [hNames .region, hVideoId] at hNamed
  have hOther : (detected env s c).videoname2 = s.videoname2 :=
    (hRegion.others .border (by decide)).trans (hNames .border)
  refine ⟨(step_fields env s c hAccepted).2.2.1.trans hFirst, ?_⟩
  rw [step_accepted env s c hAccepted]
  by_cases hFault : clipFault c .region (dueMarker s c) (window s c) = true
  · rw [if_pos hFault, borderPositions, if_pos hFault]
    exact hOther
  · rw [if_neg hFault, borderPositions, if_neg hFault]
    obtain ⟨hRaises, _, _⟩ := crossed_spec env s c
    have hSecond := hRaises.named
    change (crossed env s c).videoname2 = if _ then (detected env s c).videoname2
      else toString ((detected env s c).videoId + _ - 1) at hSecond
    rw [hOther, detected_videoId] at hSecond
    split_ifs at hSecond ⊢ <;> exact hSecond

/-- The events of an accepted call, in the order of its phases. -/
theorem step_trace (hAccepted : ¬ Blocked s c) : (step env s c).trace =
    (detected env s c).trace ++
      clipEvents c .region (dueMarker s c) (step env s c).videoname1 (window s c) ++
      crossEvents c (s.videoId + regionCount env s c) (borderPositions env s c) ++
      clipEvents c .border (dueMarker s c) (step env s c).videoname2 (window s c) := by
  rw [(step_fields env s c hAccepted).2.2.1]
  by_cases hFault : clipFault c .region (dueMarker s c) (window s c) = true
  · have hNone : clipEvents c .border (dueMarker s c) (step env s c).videoname2 (window s c) =
        [] := by
      rw [clipFault_due hFault]
      rfl
    rw [hNone, step_accepted env s c hAccepted, if_pos hFault, borderPositions, if_pos hFault]
    simp [afterRegionClip, crossEvents]
  · obtain ⟨_, _, hTrace⟩ := crossed_spec env s c
    have hEnd : (afterBorderClip env s c).trace = (detected env s c).trace ++
        clipEvents c .region (dueMarker s c) (detected env s c).videoname1 (window s c) ++
        crossEvents c (s.videoId + regionCount env s c) (borderPositions env s c) ++
        clipEvents c .border (dueMarker s c) (crossed env s c).videoname2 (window s c) := by
      rw [afterBorderClip, hTrace, detected_videoId, borderPositions, if_neg hFault]
      rfl
    rw [step_accepted env s c hAccepted, if_neg hFault]
    by_cases hLater : clipFault c .border (dueMarker s c) (window s c) = true
    · rw [if_pos hLater]
      exact hEnd
    · rw [if_neg hLater]
      exact hEnd

theorem step_raisedIds (hAccepted : ¬ Blocked s c) :
    raisedIds .region (step env s c).trace = List.range' s.videoId (regionCount env s c) ∧
      raisedIds .border (step env s c).trace =
        List.range' (s.videoId + regionCount env s c) (borderPositions env s c).length := by
  obtain ⟨hPhase, hRegion, _⟩ := detected_trace env s c
  have hCross := crossEvents_ofPhase c (s.videoId + regionCount env s c) (borderPositions env s c)
  rw [step_trace env s c hAccepted]
  simp only [raisedIds_append, raisedIds_clipEvents, hRegion, raisedIds_crossEvents,
    raisedIds_of_other (show AlarmType.border ≠ .region by decide) hPhase,
    raisedIds_of_other (show AlarmType.region ≠ .border by decide) hCross, List.append_nil,
    List.nil_append]
  exact ⟨trivial, trivial⟩

/-- At most one clip is asked for, namely the one that the marker names. -/
theorem step_savesIn (hAccepted : ¬ Blocked s c) : savesIn (step env s c).trace =
    if dueMarker s c = AlarmType.region.marker then [(.region, window s c)]
    else if dueMarker s c = AlarmType.border.marker then [(.border, window s c)]
    else [] := by
  obtain ⟨hPhase, _, _⟩ := detected_trace env s c
  have hCross := crossEvents_ofPhase c (s.videoId + regionCount env s c) (borderPositions env s c)
  rw [step_trace env s c hAccepted]
  simp only [savesIn_append, savesIn_clipEvents, savesIn_of_phase hPhase,
    savesIn_of_phase hCross, List.append_nil, List.nil_append]
  by_cases hRegion : dueMarker s c = AlarmType.region.marker
  · rw [if_pos hRegion, if_pos hRegion, hRegion]
    rfl
  · rw [if_neg hRegion, if_neg hRegion, List.nil_append]

/-- The alarms that a call appends are those that its trace reports. -/
theorem step_alarms (hAccepted : ¬ Blocked s c) : (step env s c).alarms.map Alarm.type =
    s.alarms.map Alarm.type ++ reportedIn (step env s c).trace := by
  obtain ⟨_, _, hDetected⟩ := detected_trace env s c
  rw [step_trace env s c hAccepted]
  simp only [reportedIn_append, reportedIn_clipEvents, List.append_nil]
  rw [step_accepted env s c hAccepted, ← List.append_assoc, ← hDetected]
  by_cases hFault : clipFault c .region (dueMarker s c) (window s c) = true
  · rw [if_pos hFault, borderPositions, if_pos hFault]
    exact (List.append_nil _).symm
  · obtain ⟨hRaises, _, hTrace⟩ := crossed_spec env s c
    obtain ⟨events, hEvents, _, hTypes, _⟩ := hRaises.trace
    rw [hTrace, detected_videoId] at hEvents
    rw [if_neg hFault, borderPositions, if_neg hFault, List.append_cancel_left hEvents]
    split_ifs <;> exact hTypes

section Run

/-- The engine as it is constructed. -/
def init : DstEngine := {}

/-- The calls of a run that get past the cover write. -/
def acceptedSteps (calls : List Call) : List (Machine.Transition DstEngine Call) :=
  (Machine.history (step env) init calls).filter (fun t => ¬ Blocked t.before t.input)

variable {env}

/-- Induction over the accepted calls of a run. A blocked call changes nothing
that can be seen by a later one. -/
theorem accepted_rule {motive : List (Machine.Transition DstEngine Call) → DstEngine → Prop}
    (initial : motive [] init)
    (blocked : ∀ past state, motive past state → motive past { state with trace := [] })
    (extend : ∀ past state input, motive past state → ¬ Blocked state input →
      motive (past ++ [⟨state, input, step env state input⟩]) (step env state input))
    (calls : List Call) :
    motive (acceptedSteps env calls) (Machine.run (step env) init calls) := by
  apply Machine.history_rule
    (motive := fun past state => motive (past.filter (fun t => ¬ Blocked t.before t.input)) state)
    initial
  intro past state input h
  rw [List.filter_append]
  by_cases hBlocked : Blocked state input
  · rw [step_blocked env state input hBlocked]
    simpa [hBlocked] using blocked _ state h
  · simpa [hBlocked] using extend _ state input h hBlocked

end Run

section Sample

/-- Exact on the squares that the sample runs come across. -/
def sampleSqrt (x : ℚ) : ℚ :=
  (((List.range 200).find? (fun n : Nat => ((n ^ 2 : Nat) : ℚ) = x)).getD 0 : Nat)

def sampleEnv : Env ℚ :=
  { judges := Judges.ofSource (crossLine (.finite 0)) false
    metric := Metric.ofSource sampleSqrt
    ip := "192.168.1.10" }

/-- A frame with a person in each of the boxes, every file being writable. -/
def sampleCall (boxes : List Rectangle) (borders : List Border) : Call :=
  { frame :=
      { detectResult := boxes.map (fun box =>
          { classId := personLabel, confidence := 9 / 10, location := box })
        imgOrigin := { width := 1920, height := 1080, data := [255, 216, 255] } }
    borders := borders
    opens := { cover := true, clip := fun _ => true }
    clock := fun id => { ms := 40 * id, str := toString id } }

end Sample

end DstEngine
end Hengda

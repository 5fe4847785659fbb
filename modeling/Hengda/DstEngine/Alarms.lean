import Hengda.DstEngine.Engine
import Hengda.Library.Window

/-! What one call can do, phase by phase. Raising alarms is described once, by
`Raises`; every phase of `ProcessResult` is then either a sequence of alarms of
one type or leaves the alarm bookkeeping alone. -/
namespace Hengda

/-- The numbers of the alarms of one type, in the order of raising. -/
def raisedIds (type : AlarmType) (trace : List Event) : List Nat :=
  trace.filterMap fun
    | .raised other id _ => if other = type then some id else none
    | _ => none

/-- The clips that were asked for, with the queue they were given. -/
def savesIn (trace : List Event) : List (AlarmType × List DeviceStreamData) :=
  trace.filterMap fun
    | .saveVideo type queue => some (type, queue)
    | _ => none

def writesIn (trace : List Event) : List (ClipFile × List UInt8) :=
  trace.filterMap fun
    | .wrote file data => some (file, data)
    | _ => none

def encodesIn (trace : List Event) : List String :=
  trace.filterMap fun
    | .encode videoname => some videoname
    | _ => none

/-- The types of the alarms that were appended to `alarms_`. -/
def reportedIn (trace : List Event) : List AlarmType :=
  trace.filterMap fun
    | .reported type => some type
    | _ => none

/-- The events of the phase that raises alarms of one type. -/
def Event.ofPhase (type : AlarmType) : Event → Bool
  | .cover _ => type = .region
  | .raised other _ _ => other = type
  | .reported other => other = type
  | .cleared _ => type = .border
  | _ => false

/-- The events of saving a clip. -/
def Event.ofClip : Event → Bool
  | .saveVideo _ _ => true
  | .wrote _ _ => true
  | .encode _ => true
  | _ => false

section Projections

variable (first second : List Event)

@[simp]
theorem raisedIds_append (type : AlarmType) :
    raisedIds type (first ++ second) = raisedIds type first ++ raisedIds type second :=
  List.filterMap_append

@[simp]
theorem savesIn_append : savesIn (first ++ second) = savesIn first ++ savesIn second :=
  List.filterMap_append

@[simp]
theorem writesIn_append : writesIn (first ++ second) = writesIn first ++ writesIn second :=
  List.filterMap_append

@[simp]
theorem encodesIn_append : encodesIn (first ++ second) = encodesIn first ++ encodesIn second :=
  List.filterMap_append

@[simp]
theorem reportedIn_append : reportedIn (first ++ second) = reportedIn first ++ reportedIn second :=
  List.filterMap_append

variable {first} {type : AlarmType}

/-- A projection that ignores the events of a phase sees nothing of it. -/
theorem filterMap_of_ignored {β : Type*} {part : Event → Bool} {project : Event → Option β}
    (ignored : ∀ e, part e = true → project e = none) (all : ∀ e ∈ first, part e = true) :
    first.filterMap project = [] :=
  List.filterMap_eq_nil_iff.mpr fun e mem => ignored e (all e mem)

theorem raisedIds_of_other {other : AlarmType} (hType : other ≠ type)
    (quiet : ∀ e ∈ first, e.ofPhase type = true) : raisedIds other first = [] := by
  refine filterMap_of_ignored ?_ quiet
  intro e hEvent
  cases e with
  | raised t id trail =>
      have hSame : t = type := by simpa [Event.ofPhase] using hEvent
      simp [hSame, Ne.symm hType]
  | _ => rfl

theorem savesIn_of_phase (quiet : ∀ e ∈ first, e.ofPhase type = true) : savesIn first = [] :=
  filterMap_of_ignored (fun e hPhase => by cases e <;> first | rfl | cases hPhase) quiet

theorem writesIn_of_phase (quiet : ∀ e ∈ first, e.ofPhase type = true) : writesIn first = [] :=
  filterMap_of_ignored (fun e hPhase => by cases e <;> first | rfl | cases hPhase) quiet

theorem encodesIn_of_phase (quiet : ∀ e ∈ first, e.ofPhase type = true) : encodesIn first = [] :=
  filterMap_of_ignored (fun e hPhase => by cases e <;> first | rfl | cases hPhase) quiet

theorem raisedIds_of_clip (other : AlarmType) (clip : ∀ e ∈ first, e.ofClip = true) :
    raisedIds other first = [] :=
  filterMap_of_ignored (fun e hClip => by cases e <;> first | rfl | cases hClip) clip

theorem reportedIn_of_clip (clip : ∀ e ∈ first, e.ofClip = true) : reportedIn first = [] :=
  filterMap_of_ignored (fun e hClip => by cases e <;> first | rfl | cases hClip) clip

end Projections

namespace DstEngine

/-- The process-wide name that belongs to a type of alarm. -/
def videoname (s : DstEngine) : AlarmType → String
  | .region => s.videoname1
  | .border => s.videoname2

/-- `k` alarms of one type take `s` to `s'`. The trails, the hit counter and
the queue of alarms are described elsewhere. -/
structure Raises (type : AlarmType) (k : Nat) (s s' : DstEngine) : Prop where
  videoId : s'.videoId = s.videoId + k
  frameId : s'.frameId = s.frameId
  resultVideos : s'.resultVideos = s.resultVideos
  resultCondition : s'.resultCondition =
    if k = 0 then s.resultCondition else s.resultCondition.dropLast ++ [type.marker]
  named : s'.videoname type = if k = 0 then s.videoname type else toString (s.videoId + k - 1)
  others : ∀ other, other ≠ type → s'.videoname other = s.videoname other
  trace : ∃ events, s'.trace = s.trace ++ events ∧
    raisedIds type events = List.range' s.videoId k ∧
    s'.alarms.map Alarm.type = s.alarms.map Alarm.type ++ reportedIn events ∧
    ∀ e ∈ events, e.ofPhase type = true

theorem Raises.refl (type : AlarmType) (s : DstEngine) : Raises type 0 s s where
  videoId := rfl
  frameId := rfl
  resultVideos := rfl
  resultCondition := rfl
  named := rfl
  others _ _ := rfl
  trace := ⟨[], by simp, rfl, by simp [reportedIn], by simp⟩

theorem Raises.trans {type : AlarmType} {k l : Nat} {first second third : DstEngine}
    (left : Raises type k first second) (right : Raises type l second third) :
    Raises type (k + l) first third where
  videoId := by rw [right.videoId, left.videoId, Nat.add_assoc]
  frameId := right.frameId.trans left.frameId
  resultVideos := right.resultVideos.trans left.resultVideos
  resultCondition := by
    rw [right.resultCondition, left.resultCondition]
    by_cases hk : k = 0 <;> by_cases hl : l = 0 <;> simp [hk, hl]
  named := by
    rw [right.named, left.named, left.videoId]
    by_cases hk : k = 0 <;> by_cases hl : l = 0 <;> simp [hk, hl, Nat.add_assoc]
  others other hType := (right.others other hType).trans (left.others other hType)
  trace := by
    obtain ⟨before, hBefore, hIds, hTypes, hAlarms⟩ := left.trace
    obtain ⟨after, hAfter, hIds', hTypes', hAlarms'⟩ := right.trace
    refine ⟨before ++ after, by rw [hAfter, hBefore, List.append_assoc], ?_, ?_, ?_⟩
    · rw [raisedIds_append, hIds, hIds', left.videoId, List.range'_append_1]
    · rw [hTypes', hTypes, reportedIn_append, List.append_assoc]
    · intro e mem
      exact (List.mem_append.mp mem).elim (hAlarms e) (hAlarms' e)

section Alarm

variable (ip : String) (c : Call) (type : AlarmType) (trail : Option Nat) (s : DstEngine)

/-- The events of one alarm: it is reported only if there is an image. -/
def alarmEvents (c : Call) (type : AlarmType) (id : Nat) (trail : Option Nat) : List Event :=
  .raised type id trail :: if (getJpg c.frame).isEmpty then [] else [.reported type]

/-- What one alarm appends to `alarms_`. -/
def alarmMessages (ip : String) (c : Call) (type : AlarmType) (id : Nat) : List Alarm :=
  if (getJpg c.frame).isEmpty then []
  else
    [{ reqId := (c.clock id).ms, method := "report_alarm", ipcIp := ip, img := getJpg c.frame,
       time := (c.clock id).str, type := type }]

/-- Everything that an alarm changes, at once. -/
theorem raiseAlarm_eq : raiseAlarm ip c type trail s =
    { nameVideo type s with
      videoId := s.videoId + 1
      resultCondition := s.resultCondition.dropLast ++ [type.marker]
      alarms := s.alarms ++ alarmMessages ip c type s.videoId
      trace := s.trace ++ alarmEvents c type s.videoId trail } := by
  unfold raiseAlarm makeAndReportAlarm alarmMessages alarmEvents
  dsimp only
  cases type <;> split_ifs <;> simp [nameVideo]

@[simp]
theorem raiseAlarm_trails : (raiseAlarm ip c type trail s).trails = s.trails := by
  rw [raiseAlarm_eq]
  cases type <;> rfl

@[simp]
theorem raiseAlarm_alarmFlag : (raiseAlarm ip c type trail s).alarmFlag = s.alarmFlag := by
  rw [raiseAlarm_eq]
  cases type <;> rfl

theorem raiseAlarm_trace : (raiseAlarm ip c type trail s).trace =
    s.trace ++ alarmEvents c type s.videoId trail := by
  rw [raiseAlarm_eq]

theorem alarmEvents_ofPhase (id : Nat) :
    ∀ e ∈ alarmEvents c type id trail, e.ofPhase type = true := by
  unfold alarmEvents
  intro e mem
  rcases List.mem_cons.mp mem with rfl | mem
  · simp [Event.ofPhase]
  · split_ifs at mem with h
    · cases mem
    · rw [List.mem_singleton.mp mem]
      simp [Event.ofPhase]

theorem raisedIds_alarmEvents (id : Nat) : raisedIds type (alarmEvents c type id trail) = [id] := by
  unfold alarmEvents
  split_ifs <;> simp [raisedIds]

theorem alarmMessages_type (id : Nat) : (alarmMessages ip c type id).map Alarm.type =
    reportedIn (alarmEvents c type id trail) := by
  unfold alarmMessages alarmEvents
  split_ifs <;> rfl

theorem raiseAlarm_raises : Raises type 1 s (raiseAlarm ip c type trail s) := by
  rw [raiseAlarm_eq]
  constructor
  · rfl
  · cases type <;> rfl
  · cases type <;> rfl
  · rfl
  · cases type <;> rfl
  · intro other hType
    cases type <;> cases other <;> first | rfl | contradiction
  · refine ⟨_, rfl, raisedIds_alarmEvents c type trail _, ?_, alarmEvents_ofPhase c type trail _⟩
    rw [List.map_append, alarmMessages_type ip c type trail]

end Alarm
end DstEngine
end Hengda

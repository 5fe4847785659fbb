import Hengda.DstEngine.CallSpec
import Hengda.Library.Schedule

/-! The hand-off of alarms from the frames to the coroutine that sends them.
Every access to the shared vector is one step, since it happens under the mutex,
and everything else of the coroutine may be interrupted at any place. -/
namespace Hengda.AlarmQueue

/-- Where `report_alarm_fun` stands: at the test of the loop, in front of the
wait, in the wait, at the test behind it, in front of the swap, or in the loop
over its own vector. -/
inductive ReportPoint
  | test
  | entering
  | waiting
  | woken
  | swapping
  | sending (alarms : List Alarm) (i : Nat)
  | finished

/-- The members that the coroutine shares, and the arguments of `cli->call` so
far, first one first. -/
structure Reporter where
  point : ReportPoint := .test
  stop : Bool := false
  alarms : List Alarm := []
  called : List Alarm := []

/-- The event wakes whoever waits. Nothing is kept of a signal that finds nobody
waiting. -/
def signal (s : Reporter) : Reporter :=
  match s.point with
  | .waiting => { s with point := .woken }
  | _ => s

def reportAlarm (alarm : Alarm) (s : Reporter) : Reporter :=
  signal { s with alarms := s.alarms ++ [alarm] }

/-- The next step of `report_alarm_fun`. In the wait there is none. -/
def reportAlarmFun (s : Reporter) : Option Reporter :=
  match s.point with
  | .test => some { s with point := if s.stop then .finished else .entering }
  | .entering => some { s with point := .waiting }
  | .waiting => none
  | .woken => some { s with point := if s.stop then .finished else .swapping }
  | .swapping => some { s with point := .sending s.alarms 0, alarms := [] }
  | .sending alarms i =>
      match alarms[i]? with
      | some alarm =>
          some { s with point := .sending alarms (i + 1), called := s.called ++ [alarm] }
      | none => some { s with point := .test }
  | .finished => none

/-- A call of `report_alarm` by whatever thread, a step of the coroutine, the end
of its wait after 256 milliseconds, and the two steps of the destructor. The
last one also stands for a signal that comes later than its push. -/
inductive Move
  | reportAlarm (alarm : Alarm)
  | proceed
  | timeout
  | stop
  | signal

def step (s : Reporter) : Move → Option Reporter
  | .reportAlarm alarm => some (reportAlarm alarm s)
  | .proceed => reportAlarmFun s
  | .timeout =>
      match s.point with
      | .waiting => some { s with point := .woken }
      | _ => none
  | .stop => some { s with stop := true }
  | .signal => some (signal s)

/-- What the coroutine has taken out and not sent yet. -/
def ReportPoint.unsent : ReportPoint → List Alarm
  | .sending alarms i => alarms.drop i
  | _ => []

/-- The alarms of a schedule in the order of their calls. -/
def pushed (moves : List Move) : List Alarm :=
  moves.filterMap fun
    | .reportAlarm alarm => some alarm
    | _ => none

/-- All alarms that are on their way or have been sent. -/
def handled (s : Reporter) : List Alarm :=
  s.called ++ s.point.unsent ++ s.alarms

@[simp]
theorem handled_signal (s : Reporter) : handled (signal s) = handled s := by
  obtain ⟨point, stop, alarms, called⟩ := s
  cases point <;> rfl

theorem handled_reportAlarm (alarm : Alarm) (s : Reporter) :
    handled (reportAlarm alarm s) = handled s ++ [alarm] := by
  rw [reportAlarm, handled_signal]
  simp [handled]

/-- A step of the coroutine moves alarms on and neither loses nor repeats one. -/
theorem handled_reportAlarmFun {s after : Reporter} (hStep : reportAlarmFun s = some after) :
    handled after = handled s := by
  obtain ⟨point, stop, alarms, called⟩ := s
  cases point with
  | test =>
      cases hStep
      cases stop <;> rfl
  | entering =>
      cases hStep
      rfl
  | waiting => cases hStep
  | woken =>
      cases hStep
      cases stop <;> rfl
  | swapping =>
      cases hStep
      simp [handled, ReportPoint.unsent]
  | sending batch i =>
      unfold reportAlarmFun at hStep
      dsimp only at hStep
      cases hGet : batch[i]? with
      | none =>
          have hDone : batch.drop i = [] :=
            List.drop_eq_nil_of_le (List.getElem?_eq_none_iff.mp hGet)
          rw [hGet] at hStep
          cases hStep
          simp [handled, ReportPoint.unsent, hDone]
      | some alarm =>
          have hRest : batch.drop i = alarm :: batch.drop (i + 1) := by
            obtain ⟨hLength, hHere⟩ := List.getElem?_eq_some_iff.mp hGet
            rw [List.drop_eq_getElem_cons hLength, hHere]
          rw [hGet] at hStep
          cases hStep
          simp [handled, ReportPoint.unsent, hRest]
  | finished => cases hStep

theorem handled_step {s after : Reporter} {move : Move} (hStep : step s move = some after) :
    handled after = handled s ++ pushed [move] := by
  cases move with
  | reportAlarm alarm =>
      cases hStep
      exact handled_reportAlarm alarm s
  | proceed =>
      rw [handled_reportAlarmFun hStep]
      exact (List.append_nil _).symm
  | timeout =>
      obtain ⟨point, stop, alarms, called⟩ := s
      cases point with
      | waiting =>
          cases hStep
          exact (List.append_nil _).symm
      | _ => cases hStep
  | stop =>
      cases hStep
      exact (List.append_nil _).symm
  | signal =>
      cases hStep
      rw [handled_signal]
      exact (List.append_nil _).symm

theorem handled_run {moves : List Move} {s : Reporter}
    (hRun : Schedule.run step {} moves = some s) : handled s = pushed moves := by
  apply Schedule.run_rule (motive := fun moves s => handled s = pushed moves) rfl ?_ hRun
  intro past before move after hPast hStep
  rw [handled_step hStep, hPast, pushed, pushed, pushed, List.filterMap_append]

/-- The alarms arrive in the order in which they were reported and none of them
twice. -/
theorem called_of_pushed {moves : List Move} {s : Reporter}
    (hRun : Schedule.run step {} moves = some s) : s.called <+: pushed moves := by
  rw [← handled_run hRun, handled, List.append_assoc]
  exact List.prefix_append _ _

/-- The loop over the local vector sends the rest of it. -/
theorem run_sending (stop : Bool) (alarms called batch : List Alarm) (i : Nat) :
    Schedule.run step ⟨.sending batch i, stop, alarms, called⟩
        (List.replicate ((batch.drop i).length + 1) .proceed) =
      some ⟨.test, stop, alarms, called ++ batch.drop i⟩ := by
  induction hRest : batch.drop i generalizing i called with
  | nil =>
      have hNone : batch[i]? = none :=
        List.getElem?_eq_none_iff.mpr (List.drop_eq_nil_iff.mp hRest)
      simp [Schedule.run, step, reportAlarmFun, hNone]
  | cons alarm rest ih =>
      have hGet : batch[i]? = some alarm := by
        rw [← List.head?_drop, hRest]
        rfl
      have hTail : batch.drop (i + 1) = rest := by
        rw [← List.tail_drop, hRest]
        rfl
      have hLater := ih (called ++ [alarm]) (i + 1) hTail
      rw [List.length_cons, List.replicate_succ, Schedule.run_cons]
      have hStep : step ⟨.sending batch i, stop, alarms, called⟩ .proceed =
          some ⟨.sending batch (i + 1), stop, alarms, called ++ [alarm]⟩ := by
        simp only [step, reportAlarmFun, hGet]
      rw [hStep, Option.bind_some, hLater, List.append_assoc]
      rfl

/-- A round that is not interrupted by the destructor leaves nothing behind of
what was reported before its swap. -/
theorem run_round (alarms called : List Alarm) :
    Schedule.run step ⟨.swapping, false, alarms, called⟩
        (List.replicate (alarms.length + 2) .proceed) =
      some ⟨.test, false, [], called ++ alarms⟩ := by
  rw [List.replicate_succ, Schedule.run_cons]
  exact run_sending false [] called alarms 0

/-- The hand-off is first in first out and exactly once, whatever the callers
and the coroutine do in between. -/
theorem handoff (moves : List Move) (s : Reporter)
    (hRun : Schedule.run step {} moves = some s) :
    s.called ++ s.point.unsent ++ s.alarms = pushed moves :=
  handled_run hRun

section Sample

def sampleAlarm (reqId : Int) : Alarm :=
  { reqId, method := "report_alarm", ipcIp := "192.168.1.10", img := [], time := "",
    type := .border }

/-- Two alarms are swapped out, and a third one is reported when the first of them has been
sent. Nobody hears of the signal. -/
theorem handoff_sample :
    [sampleAlarm 1] ++ [sampleAlarm 2] ++ [sampleAlarm 3] =
      pushed [.proceed, .reportAlarm (sampleAlarm 1), .reportAlarm (sampleAlarm 2), .proceed,
        .timeout, .proceed, .proceed, .proceed, .reportAlarm (sampleAlarm 3)] :=
  handoff _ ⟨.sending [sampleAlarm 1, sampleAlarm 2] 1, false, [sampleAlarm 3], [sampleAlarm 1]⟩ rfl

end Sample

section Engine

variable {α : Type*} [LT α] [DecidableLT α]

/-- The vector of the engine is what its frames have reported. A schedule that
reports a part of it sends nothing else and keeps its order. -/
theorem called_of_engine (env : Env α) (calls : List Call) {moves : List Move} {s : Reporter}
    (hReported : pushed moves <+: (Machine.run (DstEngine.step env) DstEngine.init calls).alarms)
    (hRun : Schedule.run step {} moves = some s) :
    s.called <+: (Machine.run (DstEngine.step env) DstEngine.init calls).alarms :=
  (called_of_pushed hRun).trans hReported

end Engine

end Hengda.AlarmQueue

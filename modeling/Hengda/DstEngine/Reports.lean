import Hengda.Common.RpcClient
import Hengda.DstEngine.AlarmQueue

/-! What becomes of the alarms that the coroutine passes to its client. The result of a
call is not looked at, and the batch is dropped when the loop over it is done. -/
namespace Hengda.AlarmQueue

/-- An alarm that has been passed to `cli->call`. -/
structure Report where
  alarm : Alarm
  answered : Bool
deriving DecidableEq, Repr

/-- The coroutine with its client and with `res`. All calls so far are in `reports`,
first one first. -/
structure Sender where
  queue : Reporter := {}
  client : Rpc.ClientImpl := {}
  res : Json := .null
  reports : List Report := []

/-- The alarm that a step passes to `cli->call`. -/
def sent (s : Reporter) : Move → Option Alarm
  | .proceed =>
      match s.point with
      | .sending alarms i => alarms[i]?
      | _ => none
  | _ => none

/-- `res` is declared anew behind the swap. -/
def declareRes (s : Reporter) (res : Json) : Move → Json
  | .proceed =>
      match s.point with
      | .swapping => .null
      | _ => res
  | _ => res

variable (parse : Text → Json)

/-- A step together with what the network does in it, should it be a call. -/
def report (s : Sender) (entry : Move × Rpc.Exchange) : Option Sender :=
  match step s.queue entry.1 with
  | none => none
  | some queue =>
      match sent s.queue entry.1 with
      | some alarm =>
          let result := s.client.call parse entry.2 s.res
          some { queue, client := result.1, res := result.2,
                 reports := s.reports ++ [⟨alarm, s.client.answered parse entry.2⟩] }
      | none => some { s with queue, res := declareRes s.queue s.res entry.1 }

def answered (s : Sender) : List Alarm :=
  (s.reports.filter Report.answered).map Report.alarm

def failed (s : Sender) : List Alarm :=
  (s.reports.filter fun r => !r.answered).map Report.alarm

/-- The alarms in the local batch that are still to be sent, and those in `alarms_`. -/
def held (s : Sender) : List Alarm :=
  s.queue.point.unsent ++ s.queue.alarms

theorem called_signal (s : Reporter) : (signal s).called = s.called := by
  obtain ⟨point, stop, alarms, called⟩ := s
  cases point <;> rfl

theorem called_step {s after : Reporter} {move : Move} (hStep : step s move = some after) :
    after.called = s.called ++ (sent s move).toList := by
  obtain ⟨point, stop, alarms, called⟩ := s
  cases move with
  | reportAlarm alarm =>
      cases hStep
      exact (called_signal _).trans (List.append_nil _).symm
  | proceed =>
      cases point with
      | test | entering | woken | swapping =>
          cases hStep
          exact (List.append_nil _).symm
      | waiting | finished => cases hStep
      | sending batch i =>
          unfold step reportAlarmFun at hStep
          unfold sent
          dsimp only at hStep ⊢
          cases hGet : batch[i]? with
          | none =>
              rw [hGet] at hStep
              cases hStep
              exact (List.append_nil _).symm
          | some alarm =>
              rw [hGet] at hStep
              cases hStep
              rfl
  | timeout =>
      cases point with
      | waiting =>
          cases hStep
          exact (List.append_nil _).symm
      | _ => cases hStep
  | stop =>
      cases hStep
      exact (List.append_nil _).symm
  | signal =>
      cases hStep
      exact (called_signal _).trans (List.append_nil _).symm

variable {parse} {s after : Sender}

/-- The queue takes its own step, and there is a new report for the alarm that it sends. -/
theorem report_step {entry : Move × Rpc.Exchange} (hStep : report parse s entry = some after) :
    step s.queue entry.1 = some after.queue ∧
      after.reports.map Report.alarm =
        s.reports.map Report.alarm ++ (sent s.queue entry.1).toList := by
  unfold report at hStep
  cases hQueue : step s.queue entry.1 with
  | none =>
      rw [hQueue] at hStep
      cases hStep
  | some queue =>
      rw [hQueue] at hStep
      dsimp only at hStep
      cases hSent : sent s.queue entry.1 with
      | none =>
          rw [hSent] at hStep
          cases hStep
          exact ⟨rfl, (List.append_nil _).symm⟩
      | some alarm =>
          rw [hSent] at hStep
          cases hStep
          exact ⟨rfl, List.map_append⟩

theorem queue_run {entries : List (Move × Rpc.Exchange)}
    (hRun : Schedule.run (report parse) {} entries = some s) :
    Schedule.run step {} (entries.map Prod.fst) = some s.queue ∧
      s.reports.map Report.alarm = s.queue.called := by
  apply Schedule.run_rule (motive := fun entries s =>
    Schedule.run step {} (entries.map Prod.fst) = some s.queue ∧
      s.reports.map Report.alarm = s.queue.called) ⟨rfl, rfl⟩ ?_ hRun
  intro past before entry after hPast hStep
  obtain ⟨hQueue, hReports⟩ := report_step hStep
  constructor
  · rw [List.map_append, List.map_singleton, Schedule.run_concat, hPast.1, Option.bind_some]
    exact hQueue
  · rw [hReports, hPast.2, called_step hQueue]

/-- The whereabouts of the alarms that were pushed: each of them has been passed to one
call, which was answered or has failed, or is still held. -/
structure Accounted (moves : List Move) (s : Sender) : Prop where
  order : pushed moves = s.reports.map Report.alarm ++ held s
  partition : (answered s ++ failed s ++ held s).Perm (pushed moves)
  kept : (answered s ++ held s).Perm (pushed moves) ↔ failed s = []

/-- Alarms are lost by failed calls, each by one, and in no other way. -/
theorem accounted (parse : Text → Json) (entries : List (Move × Rpc.Exchange)) (s : Sender)
    (hRun : Schedule.run (report parse) {} entries = some s) :
    Accounted (entries.map Prod.fst) s := by
  obtain ⟨hQueue, hCalled⟩ := queue_run hRun
  have hOrder : pushed (entries.map Prod.fst) = s.reports.map Report.alarm ++ held s := by
    rw [hCalled, ← handled_run hQueue, handled, held, List.append_assoc]
  have hReports : (answered s ++ failed s).Perm (s.reports.map Report.alarm) := by
    unfold answered failed
    rw [← List.map_append]
    exact (List.filter_append_perm Report.answered s.reports).map _
  have hPartition : (answered s ++ failed s ++ held s).Perm (pushed (entries.map Prod.fst)) := by
    rw [hOrder]
    exact hReports.append_right _
  refine ⟨hOrder, hPartition, ?_⟩
  constructor
  · intro hKept
    have hLength := (hKept.trans hPartition.symm).length_eq
    simp only [List.length_append] at hLength
    exact List.eq_nil_of_length_eq_zero (by omega)
  · intro hNone
    rw [hNone, List.append_nil] at hPartition
    exact hPartition

section Sample

/-- The alarm server cannot be reached. -/
def offline : Rpc.Exchange :=
  { connects := false, sends := false, header := .closed, body := .closed }

/-- One alarm is pushed, taken out and passed to a call, and the loop is done. -/
def lostEntries : List (Move × Rpc.Exchange) :=
  [.reportAlarm (sampleAlarm 1), .proceed, .proceed, .timeout, .proceed, .proceed, .proceed,
    .proceed].map fun move => (move, offline)

def lostState : Sender :=
  { queue := { called := [sampleAlarm 1] }, reports := [⟨sampleAlarm 1, false⟩] }

theorem accounted_sample : Accounted (lostEntries.map Prod.fst) lostState :=
  accounted (fun _ => .null) lostEntries lostState rfl

/-- The alarm has not been answered and nobody holds it any more. -/
theorem alarm_lost : ¬ ∀ (entries : List (Move × Rpc.Exchange)) (s : Sender),
    Schedule.run (report fun _ => .null) {} entries = some s → s.queue.stop = false →
      ∀ alarm ∈ pushed (entries.map Prod.fst), alarm ∈ answered s ∨ alarm ∈ held s := by
  intro hKept
  have hPushed : sampleAlarm 1 ∈ pushed (lostEntries.map Prod.fst) := by decide
  rcases hKept lostEntries lostState rfl rfl _ hPushed with hAnswered | hHeld
  · cases hAnswered
  · cases hHeld

end Sample

end Hengda.AlarmQueue

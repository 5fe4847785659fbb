import Hengda.DstEngine.CallSpec
import Hengda.Base.JsonRoundTrip
import Hengda.Common.Base64Decode

/-! What the receiver of an alarm makes of its text: the image of the frame that raised it. -/
namespace Hengda

open CoJson

/-- The members in the order in which `make_and_report_alarm` adds them. -/
def Alarm.json (alarm : Alarm) : Json :=
  .object [("req_id", .int alarm.reqId), ("method", .string alarm.method),
    ("ipc_ip", .string alarm.ipcIp), ("img", .string (String.ofList alarm.img)),
    ("time", .string alarm.time), ("type", .string alarm.type.name)]

namespace DstEngine

section Sources

variable {α : Type*} (env : Env α)

/-- The alarm has been made in this call. -/
def Made (ip : String) (c : Call) (alarm : Alarm) : Prop :=
  ∃ type id, alarm ∈ alarmMessages ip c type id

/-- All alarms are old ones, or have been made in this call. -/
def MadeSince (c : Call) (old : List Alarm) (s : DstEngine) : Prop :=
  ∀ alarm ∈ s.alarms, alarm ∈ old ∨ Made env.ip c alarm

variable {env} {c : Call} {old : List Alarm} {s : DstEngine}

theorem MadeSince.of_alarms {s' : DstEngine} (hMade : MadeSince env c old s)
    (hSame : s'.alarms = s.alarms) : MadeSince env c old s' := by
  intro alarm hMem
  rw [hSame] at hMem
  exact hMade alarm hMem

theorem MadeSince.raiseAlarm (hMade : MadeSince env c old s) (type : AlarmType)
    (trail : Option Nat) : MadeSince env c old (raiseAlarm env.ip c type trail s) := by
  intro alarm hMem
  rw [raiseAlarm_eq] at hMem
  rcases List.mem_append.mp hMem with hOld | hNew
  · exact hMade alarm hOld
  · exact Or.inr ⟨_, _, hNew⟩

theorem MadeSince.checkIntrusion (hMade : MadeSince env c old s) (p : Point) (border : Border) :
    MadeSince env c old (checkIntrusion env c p s border) := by
  have hCounted : MadeSince env c old { s with alarmFlag := s.alarmFlag + 1 } := hMade
  unfold DstEngine.checkIntrusion
  split
  · dsimp only
    split
    · exact hCounted
    · exact hCounted.raiseAlarm .region none
  · exact hMade

theorem MadeSince.crossBorder (i : Nat) (p : Trail × DstEngine) (border : Border)
    (hMade : MadeSince env c old p.2) :
    MadeSince env c old (crossBorder env c i p border).2 := by
  unfold DstEngine.crossBorder
  split
  · exact hMade.raiseAlarm .border (some i)
  · exact hMade

theorem MadeSince.crossTrails (trails : List Trail) (i : Nat) (hMade : MadeSince env c old s) :
    MadeSince env c old (crossTrails env c i trails s).2 := by
  have hAll : ∀ i, ∀ borders : List Border, ∀ p : Trail × DstEngine, MadeSince env c old p.2 →
      MadeSince env c old (borders.foldl (DstEngine.crossBorder env c i) p).2 := by
    intro i borders
    induction borders with
    | nil => exact fun p h => h
    | cons border rest ih => exact fun p h => ih _ (MadeSince.crossBorder i p border h)
  induction trails generalizing i s with
  | nil => exact hMade
  | cons trail rest ih => exact ih (i + 1) (hAll i c.borders (trail, s) hMade)

theorem MadeSince.checkCrossings (hMade : MadeSince env c old s) :
    MadeSince env c old (checkCrossings env c s) := by
  unfold DstEngine.checkCrossings
  split
  · exact MadeSince.crossTrails s.trails 0 hMade
  · exact hMade

theorem saveClip_alarms (type : AlarmType) (center : Nat) (videoname : String) :
    (saveClip c type center videoname s).2.alarms = s.alarms := by
  unfold saveClip
  split
  · rfl
  · rfl

variable [LT α] [DecidableLT α]

theorem MadeSince.processDetection (hMade : MadeSince env c old s) (det : DetectInfo) :
    MadeSince env c old (processDetection env c s det) := by
  unfold DstEngine.processDetection
  split
  · exact hMade
  · have hAll : ∀ borders : List Border, ∀ s, MadeSince env c old s →
        MadeSince env c old (borders.foldl (DstEngine.checkIntrusion env c det.foot) s) := by
      intro borders
      induction borders with
      | nil => exact fun s h => h
      | cons border rest ih => exact fun s h => ih _ (h.checkIntrusion _ _)
    exact hAll c.borders s hMade

theorem pushFrame_alarms (frame : DeviceStreamData) (s : DstEngine) :
    (pushFrame frame s).alarms = s.alarms := by
  unfold pushFrame
  dsimp only
  split
  · rfl
  · rfl

theorem MadeSince.detect (hMade : MadeSince env c old s) :
    MadeSince env c old (detect env c s) := by
  have hAll : ∀ detections : List DetectInfo, ∀ s, MadeSince env c old s →
      MadeSince env c old (detections.foldl (DstEngine.processDetection env c) s) := by
    intro detections
    induction detections with
    | nil => exact fun s h => h
    | cons det rest ih => exact fun s h => ih _ (h.processDetection det)
  refine hAll _ _ (hMade.of_alarms ?_)
  rw [pushFrame_alarms]
  split
  · rfl
  · rfl

theorem step_made (s : DstEngine) (c : Call) : MadeSince env c s.alarms (step env s c) := by
  have hStart : MadeSince env c s.alarms { s with trace := [] } := fun alarm hMem => Or.inl hMem
  unfold step processResult
  dsimp only
  split
  · exact hStart
  · have hDetected := hStart.detect
    split
    · exact hDetected.of_alarms (saveClip_alarms ..)
    · have hCrossed : ∀ center name, MadeSince env c s.alarms (DstEngine.checkCrossings env c
          (saveClip c .region center name (DstEngine.detect env c { s with trace := [] })).2) :=
        fun _ _ => (hDetected.of_alarms (saveClip_alarms ..)).checkCrossings
      split
      · exact (hCrossed _ _).of_alarms (saveClip_alarms ..)
      · exact (hCrossed _ _).of_alarms (saveClip_alarms ..)

/-- Every alarm of a run has been made in one of its calls. -/
theorem run_made (calls : List Call) {alarm : Alarm}
    (hMem : alarm ∈ (Machine.run (step env) init calls).alarms) :
    ∃ c ∈ calls, Made env.ip c alarm := by
  induction calls using List.reverseRecOn with
  | nil =>
      have hNone : alarm ∈ ([] : List Alarm) := hMem
      cases hNone
  | append_singleton calls c ih =>
      rw [Machine.run_concat] at hMem
      rcases step_made _ c alarm hMem with hOld | hNew
      · obtain ⟨earlier, hCall, hMade⟩ := ih hOld
        exact ⟨earlier, List.mem_append_left _ hCall, hMade⟩
      · exact ⟨c, by simp, hNew⟩

end Sources

section Texts

variable {doubles : Doubles}

theorem entabAt_noZero (n : Nat) : entabAt n ≠ '\x00' := by
  by_cases hSmall : n < 64
  · have hAll : ∀ n < 64, entabAt n ≠ '\x00' := by decide +kernel
    exact hAll n hSmall
  · have hPadding : entabAt n = '=' := by
      have hLength : entab.length = 64 := by decide +kernel
      rw [entabAt, List.getD_eq_getElem?_getD, List.getElem?_eq_none (by omega), Option.getD_none]
    rw [hPadding]
    decide

/-- Nothing of the encoded image cuts the text short. -/
theorem base64Encode_noZero (bytes : List UInt8) : ∀ ch ∈ base64Encode bytes, ch ≠ '\x00' := by
  induction bytes using base64Encode.induct with
  | case1 a b c rest ih =>
      intro ch hMem
      simp only [base64Encode, List.mem_cons] at hMem
      rcases hMem with rfl | rfl | rfl | rfl | hRest
      · exact entabAt_noZero _
      · exact entabAt_noZero _
      · exact entabAt_noZero _
      · exact entabAt_noZero _
      · exact ih ch hRest
  | case2 a b =>
      intro ch hMem
      simp only [base64Encode, List.mem_cons, List.not_mem_nil, or_false] at hMem
      rcases hMem with rfl | rfl | rfl | rfl
      · exact entabAt_noZero _
      · exact entabAt_noZero _
      · exact entabAt_noZero _
      · decide
  | case3 c =>
      intro ch hMem
      simp only [base64Encode, List.mem_cons, List.not_mem_nil, or_false] at hMem
      rcases hMem with rfl | rfl | rfl | rfl
      · exact entabAt_noZero _
      · exact entabAt_noZero _
      · decide
      · decide
  | case4 =>
      intro ch hMem
      cases hMem

/-- What is asked of the texts that the engine gets from outside. -/
def Printable (t : String) : Prop :=
  ∀ ch ∈ t.toList, ch ≠ '\x00'

theorem isKey_members : IsKey "req_id".toList ∧ IsKey "method".toList ∧ IsKey "ipc_ip".toList ∧
    IsKey "img".toList ∧ IsKey "time".toList ∧ IsKey "type".toList := by
  simp [IsKey]

theorem json_storable {alarm : Alarm} (hId : -9223372036854775808 ≤ alarm.reqId ∧
      alarm.reqId < 9223372036854775808) (hMethod : Printable alarm.method)
    (hIp : Printable alarm.ipcIp) (hImg : ∀ ch ∈ alarm.img, ch ≠ '\x00')
    (hTime : Printable alarm.time) : Storable alarm.json := by
  obtain ⟨hKeyId, hKeyMethod, hKeyIp, hKeyImg, hKeyTime, hKeyType⟩ := isKey_members
  have hImage : Storable (.string (String.ofList alarm.img)) := by
    rw [Storable, String.toList_ofList]
    exact hImg
  have hType : Printable alarm.type.name := by
    cases alarm.type with
    | region => simp [Printable, AlarmType.name]
    | border => simp [Printable, AlarmType.name]
  exact ⟨⟨hKeyId, hId⟩, ⟨hKeyMethod, hMethod⟩, ⟨hKeyIp, hIp⟩, ⟨hKeyImg, hImage⟩,
    ⟨hKeyTime, hTime⟩, ⟨hKeyType, hType⟩, trivial⟩

/-- The receiver of an alarm reads the alarm that has been made, and in it the image of a frame on
which a person has been detected. -/
theorem alarm_received {α : Type} [LT α] [DecidableLT α] {doubles : Doubles}
    (plain : doubles.Plain) (env : Env α) (calls : List Call) (hIp : Printable env.ip)
    (hClock : ∀ c ∈ calls, ∀ id, Printable (c.clock id).str ∧
      -9223372036854775808 ≤ (c.clock id).ms ∧ (c.clock id).ms < 9223372036854775808)
    (alarm : Alarm) (hMem : alarm ∈ (Machine.run (step env) init calls).alarms) :
    ∃ c ∈ calls, (∃ det ∈ c.frame.detectResult, det.classId = personLabel) ∧
      ∃ id, parseFrom doubles (str doubles alarm.json) = some (.object
          [("req_id", .int (c.clock id).ms), ("method", .string "report_alarm"),
            ("ipc_ip", .string env.ip), ("img", .string (String.ofList alarm.img)),
            ("time", .string (c.clock id).str), ("type", .string alarm.type.name)]) ∧
        base64Decode alarm.img = some c.frame.imgOrigin.data := by
  obtain ⟨c, hCall, type, id, hMade⟩ := run_made calls hMem
  obtain ⟨hTime, hId⟩ := hClock c hCall id
  rw [alarmMessages] at hMade
  split at hMade
  · cases hMade
  · next hImage =>
      cases List.mem_singleton.mp hMade
      have hPerson : c.frame.detectResult.any (fun det => det.classId = personLabel) = true := by
        by_contra hNone
        rw [getJpg, if_neg hNone] at hImage
        exact hImage rfl
      have hJpg : getJpg c.frame = base64Encode c.frame.imgOrigin.data := if_pos hPerson
      have hBytes : c.frame.imgOrigin.data ≠ [] := by
        intro hEmpty
        rw [hJpg, hEmpty] at hImage
        exact hImage rfl
      refine ⟨c, hCall, ?_, id, ?_, ?_⟩
      · obtain ⟨det, hDet, hClass⟩ := List.any_eq_true.mp hPerson
        exact ⟨det, hDet, of_decide_eq_true hClass⟩
      · rw [parseFrom_str plain (json_storable hId ?_ hIp ?_ hTime) trivial]
        · rfl
        · simp [Printable]
        · rw [hJpg]
          exact base64Encode_noZero _
      · show base64Decode (getJpg c.frame) = _
        rw [hJpg, decode_unbroken hBytes]

/-- A person within a rectangle, at a fixed time. -/
def sampleAlarmed : Call :=
  { sampleCall [⟨⟨500, 200⟩, ⟨540, 300⟩⟩] [⟨Graph.rectangle.value, [⟨400, 100⟩, ⟨900, 500⟩]⟩] with
    clock := fun _ => { ms := 40, str := "12:00" } }

theorem alarm_received_sample :
    ∃ c ∈ [sampleAlarmed], (∃ det ∈ c.frame.detectResult, det.classId = personLabel) ∧
      ∃ id, parseFrom sampleDoubles (str sampleDoubles
            { reqId := 40, method := "report_alarm", ipcIp := "192.168.1.10",
              img := ['/', '9', 'j', '/'], time := "12:00", type := .region : Alarm }.json) =
          some (.object
            [("req_id", .int (c.clock id).ms), ("method", .string "report_alarm"),
              ("ipc_ip", .string "192.168.1.10"),
              ("img", .string (String.ofList ['/', '9', 'j', '/'])),
              ("time", .string (c.clock id).str), ("type", .string "region")]) ∧
        base64Decode ['/', '9', 'j', '/'] = some c.frame.imgOrigin.data := by
  have hIp : Printable sampleEnv.ip := by simp [Printable, sampleEnv]
  have hTime : Printable "12:00" := by simp [Printable]
  have hClock : ∀ c ∈ [sampleAlarmed], ∀ id, Printable (c.clock id).str ∧
      -9223372036854775808 ≤ (c.clock id).ms ∧ (c.clock id).ms < 9223372036854775808 := by
    intro c hMem id
    cases List.mem_singleton.mp hMem
    exact ⟨hTime, (by decide : (-9223372036854775808 : Int) ≤ 40),
      (by decide : (40 : Int) < 9223372036854775808)⟩
  exact alarm_received sampleDoubles_lawful.toPlain sampleEnv [sampleAlarmed] hIp hClock _
    (by decide +kernel)

end Texts

end DstEngine

end Hengda

import Hengda.Common.Base64
import Hengda.DstEngine.Assignment
import Hengda.DstEngine.Judge
import Hengda.Library.Run

/-! The alarm engine: one call of `ProcessResult` per frame. The window of the
last twenty frames and the markers of their alarms decide when a clip is saved;
the trails decide about border alarms, single feet about region alarms. -/
namespace Hengda

/-- `FRAME_RATE*SAVE_TIME*2` frames make one clip. -/
def clipLength : Nat := 20

/-- `FRAME_RATE*SAVE_TIME` is the position in the window that is looked at. -/
def clipCenter : Nat := 10

/-- `SAMPLE_P`: one hit out of six raises a region alarm. -/
def sampleP : UInt32 := 6

/-- `SAMPLE_N` is `FRAME_RATE/2`. -/
def sampleN : UInt32 := 1

inductive AlarmType
  | region | border
deriving DecidableEq, Repr

def AlarmType.name : AlarmType → String
  | .region => "region"
  | .border => "border"

/-- What `result_condition` holds for a frame with such an alarm. -/
def AlarmType.marker : AlarmType → Nat
  | .region => 1
  | .border => 2

/-- `RESULT_VIDEO_1` and `RESULT_VIDEO_2`. -/
def AlarmType.folder : AlarmType → String
  | .region => "result_videos_ruqin/"
  | .border => "result_videos_yuejie/"

/-- The image `folder` + `%03d` + `.jpg` of a clip. -/
structure ClipFile where
  folder : String
  number : Nat
deriving DecidableEq, Repr

/-- Which calls of `fopen` succeed. -/
structure Opens where
  cover : Bool
  clip : ClipFile → Bool

/-- Readings of `now::ms()` and `now::str()`. -/
structure Stamp where
  ms : Int
  str : String

structure Alarm where
  reqId : Int
  method : String
  ipcIp : String
  img : List Char
  time : String
  type : AlarmType
deriving DecidableEq, Repr

/-- What a call does that can be seen from outside of the tracker. -/
inductive Event
  /-- The first frame is written to the cover file. -/
  | cover (data : List UInt8)
  /-- `make_and_report_alarm` is called; a border alarm has a trail. -/
  | raised (type : AlarmType) (videoId : Nat) (trail : Option Nat)
  /-- The alarm is appended to `alarms_`. -/
  | reported (type : AlarmType)
  /-- `clear_` resets the trail at this position. -/
  | cleared (trail : Nat)
  /-- `SaveVideoToJpg` is called with this queue. -/
  | saveVideo (type : AlarmType) (queue : List DeviceStreamData)
  /-- One image of a clip is written. -/
  | wrote (file : ClipFile) (data : List UInt8)
  /-- `system("./saveVideo.sh " + videoname + "&")`. -/
  | encode (videoname : String)
deriving DecidableEq, Repr

/-- The state of the engine, with the two process-wide names of the next clips.
`trace` is no variable of the source: it lists what the last call did. -/
structure DstEngine where
  videoId : Nat := 1
  frameId : UInt32 := 0
  trails : List Trail := []
  resultCondition : List Nat := []
  resultVideos : List DeviceStreamData := []
  alarmFlag : UInt32 := 0
  alarms : List Alarm := []
  videoname1 : String := ""
  videoname2 : String := ""
  trace : List Event := []
deriving DecidableEq, Repr

/-- What stays fixed while the engine runs. -/
structure Env (α : Type*) where
  judges : Judges
  metric : Metric α
  ip : String

/-- What one call finds: the frame, the borders that the loader returns, the
outcomes of opening files, and the clock at each alarm. -/
structure Call where
  frame : DeviceStreamData
  borders : List Border
  opens : Opens
  clock : Nat → Stamp

/-- The image is encoded only if some detection of the frame is a person. -/
def getJpg (frame : DeviceStreamData) : List Char :=
  if frame.detectResult.any (fun det => det.classId = personLabel) then
    base64Encode frame.imgOrigin.data
  else []

namespace DstEngine

/-- The detached thread that stores a copy of the image is left out: nothing
waits for it and its result is dropped. -/
def makeAndReportAlarm (ip : String) (c : Call) (type : AlarmType) (stamp : Stamp)
    (s : DstEngine) : DstEngine :=
  let jpg := getJpg c.frame
  if jpg.isEmpty then s
  else
    { s with
      alarms := s.alarms ++
        [{ reqId := stamp.ms, method := "report_alarm", ipcIp := ip, img := jpg,
           time := stamp.str, type := type }]
      trace := s.trace ++ [.reported type] }

/-- The name of the clip is the running number of the alarm. -/
def nameVideo (type : AlarmType) (s : DstEngine) : DstEngine :=
  match type with
  | .region => { s with videoname1 := toString s.videoId }
  | .border => { s with videoname2 := toString s.videoId }

/-- The body shared by the four places that raise an alarm: name the clip, mark
the newest frame of the window, report. -/
def raiseAlarm (ip : String) (c : Call) (type : AlarmType) (trail : Option Nat)
    (s : DstEngine) : DstEngine :=
  let named := nameVideo type s
  makeAndReportAlarm ip c type (c.clock s.videoId)
    { named with
      videoId := named.videoId + 1
      resultCondition := named.resultCondition.dropLast ++ [type.marker]
      trace := named.trace ++ [.raised type s.videoId trail] }

/-- Push the frame with marker 0 and drop the oldest entries beyond the window. -/
def pushFrame (frame : DeviceStreamData) (s : DstEngine) : DstEngine :=
  let s := { s with
    resultVideos := s.resultVideos ++ [frame]
    resultCondition := s.resultCondition ++ [0] }
  if s.resultVideos.length > clipLength then
    { s with
      resultVideos := s.resultVideos.tail
      resultCondition := s.resultCondition.tail }
  else s

variable {α : Type*} [LT α] [DecidableLT α] (env : Env α)

/-- A foot inside a zone counts, and every sixth count raises an alarm. -/
def checkIntrusion (c : Call) (p : Point) (s : DstEngine) (border : Border) : DstEngine :=
  if env.judges.intrudes p border then
    let s := { s with alarmFlag := s.alarmFlag + 1 }
    if s.alarmFlag % sampleP ≠ 1 then s else raiseAlarm env.ip c .region none s
  else s

def processDetection (c : Call) (s : DstEngine) (det : DetectInfo) : DstEngine :=
  if det.classId ≠ personLabel then s
  else
    let s := c.borders.foldl (checkIntrusion env c det.foot) s
    { s with
      trails := assign env.metric det.location.anchorLt det.location.anchorRb s.trails }

/-- One border of the crossing check of one trail. -/
def crossBorder (c : Call) (i : Nat) (p : Trail × DstEngine) (border : Border) :
    Trail × DstEngine :=
  if env.judges.crosses p.1.points border then
    let s := raiseAlarm env.ip c .border (some i) p.2
    (p.1.clear, { s with trace := s.trace ++ [.cleared i] })
  else p

def crossTrails (c : Call) : Nat → List Trail → DstEngine → List Trail × DstEngine
  | _, [], s => ([], s)
  | i, t :: rest, s =>
      let checked := c.borders.foldl (crossBorder env c i) (t, s)
      let others := crossTrails c (i + 1) rest checked.2
      (checked.1 :: others.1, others.2)

def checkCrossings (c : Call) (s : DstEngine) : DstEngine :=
  if s.trails.isEmpty = false ∧ s.frameId % sampleN = 0 then
    let checked := crossTrails env c 0 s.trails s
    { checked.2 with trails := checked.1 }
  else s

/-- The copying loop of `SaveVideoToJpg`: the remaining rounds, the number of
the next image and the queue, whose first element moves to the back. -/
def saveImages (opens : Opens) (folder : String) :
    Nat → Nat → List DeviceStreamData → Bool × List Event
  | 0, _, _ => (true, [])
  | _ + 1, _, [] => (false, [])
  | rounds + 1, number, video :: rest =>
      if opens.clip ⟨folder, number⟩ then
        let saved := saveImages opens folder rounds (number + 1) (rest ++ [video])
        (saved.1, .wrote ⟨folder, number⟩ video.imgOrigin.data :: saved.2)
      else (false, [])

def saveVideoToJpg (c : Call) (type : AlarmType) (videoname : String) (s : DstEngine) :
    Bool × DstEngine :=
  let saved := saveImages c.opens type.folder clipLength 1 s.resultVideos
  (saved.1, { s with trace := s.trace ++ .saveVideo type s.resultVideos :: saved.2 ++
    if saved.1 then [.encode videoname] else [] })

/-- The marker nine frames back, once the window is full. -/
def resultCenter (carried : Nat) (s : DstEngine) : Nat :=
  if s.resultCondition.length = clipLength then s.resultCondition.getD clipCenter 0
  else carried

/-- Everything up to the region clip: window, ageing, region alarms and the
assignment of the detections. -/
def detect (c : Call) (s : DstEngine) : DstEngine :=
  let s := if s.frameId = 0 then
      { s with trace := s.trace ++ [.cover c.frame.imgOrigin.data] } else s
  let s := pushFrame c.frame s
  let s := { s with trails := ageTrails s.trails }
  c.frame.detectResult.foldl (processDetection env c) s

/-- Save a clip if the centre of the window carries its marker. -/
def saveClip (c : Call) (type : AlarmType) (center : Nat) (videoname : String)
    (s : DstEngine) : Bool × DstEngine :=
  if center = type.marker then saveVideoToJpg c type videoname s else (true, s)

def processResult (s : DstEngine) (c : Call) : Status × DstEngine :=
  let s := { s with trace := [] }
  if s.frameId = 0 ∧ c.opens.cover = false then (.error, s)
  else
    let s := detect env c s
    let center := resultCenter 0 s
    let saved := saveClip c .region center s.videoname1 s
    if saved.1 = false then (.error, saved.2)
    else
      let s := checkCrossings env c saved.2
      let center := resultCenter center s
      let saved := saveClip c .border center s.videoname2 s
      if saved.1 = false then (.error, saved.2)
      else (.ok, { saved.2 with frameId := saved.2.frameId + 1 })

/-- The state after a call, which is what the next frame starts from. -/
def step (s : DstEngine) (c : Call) : DstEngine :=
  (processResult env s c).2

end DstEngine
end Hengda

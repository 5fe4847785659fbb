import Hengda.Common.StreamData
import Hengda.Library.Schedule
import Hengda.Library.Sessions

/-! The engine that pulls a camera stream and sends its packets to the decoder.
The thread that handles start requests and the pulling threads take turns at
every access to a shared variable; at most one of the latter should be alive. -/
namespace Hengda

inductive VideoFormat
  | h264 | h265
deriving DecidableEq, Repr

inductive AVCodecID
  | h264 | h265
  | other (id : Nat)
deriving DecidableEq, Repr

/-- The stream is a video stream, or of another media type. -/
structure AVStream where
  isVideo : Bool
  codecId : AVCodecID
deriving DecidableEq, Repr

/-- `streams[0]` is the only stream that is looked at. -/
structure AVFormatContext where
  stream : AVStream
deriving DecidableEq, Repr

structure AVPacket where
  streamIndex : Int
  size : Int
  data : List UInt8
deriving DecidableEq, Repr

/-- `buf` holds the `len_of_byte` bytes of the buffer, and nothing at the end of
a stream. -/
structure StreamRawData where
  channelId : Nat
  format : VideoFormat
  isEOS : Nat
  buf : List UInt8
deriving DecidableEq, Repr

/-- Where a thread of `pullStreamDataLoop` stands. -/
inductive PullPoint
  | testStop
  | testCtx
  | reading
  | allocating (pkt : AVPacket)
  | sending (output : StreamRawData)
  | leaving
  | storing
  | returned
deriving DecidableEq, Repr

/-- Where the controlling thread stands. Inside `stopStream` it goes on to
`startStream` with a name, or to the end of the destructor. -/
inductive ControlPoint
  | idle
  | stopping (next : Option String)
  | joining (next : Option String)
  | clearing (streamName : String)
  | creating (streamName : String)
  | inspecting
  | launching
  | destroyed
deriving DecidableEq, Repr

/-- `threads` holds the pulling threads in the order of their start, and
`sendDataRunner` the number of the one that can be joined. `submitted` lists
what was passed to `SendData` on port 0, with the number of its thread. -/
structure StreamPuller where
  channelId : Nat
  format : VideoFormat
  videoIndex : Int
  streamName : String
  pFormatCtx : Option AVFormatContext := none
  stop : Bool := false
  sendDataRunner : Option Nat := none
  frameIndex : Nat := 0
  control : ControlPoint := .idle
  threads : List PullPoint := []
  submitted : List (Nat × StreamRawData) := []
deriving DecidableEq, Repr

namespace StreamPuller

/-- A codec that is not supported leaves the format as it was. -/
def getStreamInfo (s : StreamPuller) : StreamPuller :=
  match s.pFormatCtx with
  | none => s
  | some ctx =>
      if ctx.stream.isVideo then
        match ctx.stream.codecId with
        | .h264 => { s with videoIndex := 0, format := .h264 }
        | .h265 => { s with videoIndex := 0, format := .h265 }
        | .other _ => { s with videoIndex := 0 }
      else { s with videoIndex := -1 }

/-- What the libraries answer to a pulling thread. -/
inductive PullAct
  | proceed
  | read (pkt : Option AVPacket)
  | malloc (result : Status)
  | sendData (result : Status)
deriving DecidableEq, Repr

def packetMessage (s : StreamPuller) (pkt : AVPacket) : StreamRawData :=
  { channelId := s.channelId, format := s.format, isEOS := 0, buf := pkt.data.take pkt.size.toNat }

def endMessage (s : StreamPuller) : StreamRawData :=
  { channelId := s.channelId, format := s.format, isEOS := 1, buf := [] }

/-- One step of thread `k`. A message that could not be sent is dropped, and so
is a packet of another stream or without data; only a failed allocation leaves
the loop. -/
def pullStreamDataLoop (k : Nat) (s : StreamPuller) :
    PullPoint → PullAct → Option (StreamPuller × PullPoint)
  | .testStop, .proceed => some (s, if s.stop then .leaving else .testCtx)
  | .testCtx, .proceed => some (s, if s.pFormatCtx.isNone then .leaving else .reading)
  | .reading, .read none => some (s, .testStop)
  | .reading, .read (some pkt) =>
      if pkt.streamIndex = s.videoIndex then
        if pkt.size ≤ 0 then some (s, .testStop) else some (s, .allocating pkt)
      else some (s, .testStop)
  | .allocating _, .malloc .error => some (s, .leaving)
  | .allocating pkt, .malloc .ok => some (s, .sending (s.packetMessage pkt))
  | .sending output, .sendData _ =>
      some ({ s with submitted := s.submitted ++ [(k, output)] }, .testStop)
  | .leaving, .sendData _ =>
      some ({ s with submitted := s.submitted ++ [(k, s.endMessage)] }, .storing)
  | .storing, .proceed => some ({ s with stop := true }, .returned)
  | _, _ => none

/-- `Process` handles every twelfth call. A null argument is only counted, and an
empty name stands for the one used last. -/
def process (s : StreamPuller) (arg0 : Option String) : StreamPuller :=
  let counted := { s with frameIndex := s.frameIndex + 1 }
  if s.frameIndex % 12 ≠ 0 then counted
  else
    match arg0 with
    | none => counted
    | some inputArg =>
        let streamName := if inputArg.isEmpty then s.streamName else inputArg
        { counted with streamName := streamName, control := .stopping (some streamName) }

/-- Where `stopStream` returns to. -/
def afterStop : Option String → ControlPoint
  | some streamName => .clearing streamName
  | none => .destroyed

/-- The next step of the controlling thread. It has none while the joined thread
is running. An assignment to a thread that can still be joined would end the
process. -/
def proceed (s : StreamPuller) : Option StreamPuller :=
  match s.control with
  | .stopping next => some { s with stop := true, control := .joining next }
  | .joining next =>
      match s.sendDataRunner with
      | none => some { s with control := afterStop next }
      | some k =>
          if s.threads[k]? = some .returned then
            some { s with sendDataRunner := none, control := afterStop next }
          else none
  | .clearing streamName => some { s with stop := false, control := .creating streamName }
  | .inspecting => some { s.getStreamInfo with control := .launching }
  | .launching =>
      match s.sendDataRunner with
      | none =>
          some { s with
            sendDataRunner := some s.threads.length
            threads := s.threads ++ [.testStop]
            control := .idle }
      | some _ => none
  | _ => none

inductive Move
  | process (arg0 : Option String)
  | destroy
  | proceed
  | createFormatContext (result : Option AVFormatContext)
  | pull (k : Nat) (act : PullAct)
deriving DecidableEq, Repr

def step (s : StreamPuller) : Move → Option StreamPuller
  | .process arg0 => if s.control = .idle then some (s.process arg0) else none
  | .destroy => if s.control = .idle then some { s with control := .stopping none } else none
  | .proceed => s.proceed
  | .createFormatContext result =>
      match s.control with
      | .creating _ =>
          some { s with
            pFormatCtx := result
            control := if result.isNone then .idle else .inspecting }
      | _ => none
  | .pull k act =>
      match s.threads[k]? with
      | none => none
      | some point =>
          match pullStreamDataLoop k s point act with
          | none => none
          | some (after, next) => some { after with threads := after.threads.set k next }

/-- All that a step of thread `k` can do. -/
inductive LoopStep (k : Nat) (s : StreamPuller) :
    PullPoint → PullAct → StreamPuller → PullPoint → Prop
  | stopped (hStop : s.stop = true) : LoopStep k s .testStop .proceed s .leaving
  | running (hStop : s.stop = false) : LoopStep k s .testStop .proceed s .testCtx
  | noContext (hCtx : s.pFormatCtx.isNone = true) : LoopStep k s .testCtx .proceed s .leaving
  | context (hCtx : s.pFormatCtx.isNone = false) : LoopStep k s .testCtx .proceed s .reading
  | readFails : LoopStep k s .reading (.read none) s .testStop
  | otherStream {pkt : AVPacket} (hStream : pkt.streamIndex ≠ s.videoIndex) :
      LoopStep k s .reading (.read (some pkt)) s .testStop
  | noData {pkt : AVPacket} (hSize : pkt.size ≤ 0) :
      LoopStep k s .reading (.read (some pkt)) s .testStop
  | packet {pkt : AVPacket} (hStream : pkt.streamIndex = s.videoIndex) (hSize : 0 < pkt.size) :
      LoopStep k s .reading (.read (some pkt)) s (.allocating pkt)
  | mallocFails {pkt : AVPacket} : LoopStep k s (.allocating pkt) (.malloc .error) s .leaving
  | allocated {pkt : AVPacket} :
      LoopStep k s (.allocating pkt) (.malloc .ok) s (.sending (s.packetMessage pkt))
  | sent {output : StreamRawData} {result : Status} :
      LoopStep k s (.sending output) (.sendData result)
        { s with submitted := s.submitted ++ [(k, output)] } .testStop
  | ended {result : Status} :
      LoopStep k s .leaving (.sendData result)
        { s with submitted := s.submitted ++ [(k, s.endMessage)] } .storing
  | stored : LoopStep k s .storing .proceed { s with stop := true } .returned

theorem loopStep_of_eq {k : Nat} {s after : StreamPuller} {point next : PullPoint} {act : PullAct}
    (hStep : pullStreamDataLoop k s point act = some (after, next)) :
    LoopStep k s point act after next := by
  cases point with
  | testStop =>
      cases act with
      | proceed =>
          cases hStep
          cases hStop : s.stop with
          | true => exact .stopped hStop
          | false => exact .running hStop
      | _ => cases hStep
  | testCtx =>
      cases act with
      | proceed =>
          cases hStep
          cases hCtx : s.pFormatCtx.isNone with
          | true => exact .noContext hCtx
          | false => exact .context hCtx
      | _ => cases hStep
  | reading =>
      cases act with
      | read result =>
          cases result with
          | none =>
              cases hStep
              exact .readFails
          | some pkt =>
              simp only [pullStreamDataLoop] at hStep
              split_ifs at hStep with hStream hSize
              · cases hStep
                exact .noData hSize
              · cases hStep
                exact .packet hStream (Int.not_le.mp hSize)
              · cases hStep
                exact .otherStream hStream
      | _ => cases hStep
  | allocating pkt =>
      cases act with
      | malloc result =>
          cases result with
          | error =>
              cases hStep
              exact .mallocFails
          | ok =>
              cases hStep
              exact .allocated
      | _ => cases hStep
  | sending output =>
      cases act with
      | sendData result =>
          cases hStep
          exact .sent
      | _ => cases hStep
  | leaving =>
      cases act with
      | sendData result =>
          cases hStep
          exact .ended
      | _ => cases hStep
  | storing =>
      cases act with
      | proceed =>
          cases hStep
          exact .stored
      | _ => cases hStep
  | returned => cases act <;> cases hStep

/-- No step of a pulling thread touches the list of threads itself. -/
theorem LoopStep.threads_eq {k : Nat} {s after : StreamPuller} {point next : PullPoint}
    {act : PullAct} (loopStep : LoopStep k s point act after next) :
    after.threads = s.threads := by
  cases loopStep <;> rfl

/-- All that a step of the engine can do. -/
inductive EngineStep (s : StreamPuller) : Move → StreamPuller → Prop
  | process {arg0 : Option String} (hIdle : s.control = .idle) :
      EngineStep s (.process arg0) (s.process arg0)
  | destroy (hIdle : s.control = .idle) :
      EngineStep s .destroy { s with control := .stopping none }
  | stopped {next : Option String} (hControl : s.control = .stopping next) :
      EngineStep s .proceed { s with stop := true, control := .joining next }
  | unstarted {next : Option String} (hControl : s.control = .joining next)
      (hRunner : s.sendDataRunner = none) :
      EngineStep s .proceed { s with sendDataRunner := none, control := afterStop next }
  | joined {next : Option String} {k : Nat} (hControl : s.control = .joining next)
      (hRunner : s.sendDataRunner = some k) (hReturned : s.threads[k]? = some .returned) :
      EngineStep s .proceed { s with sendDataRunner := none, control := afterStop next }
  | cleared {streamName : String} (hControl : s.control = .clearing streamName) :
      EngineStep s .proceed { s with stop := false, control := .creating streamName }
  | opened {streamName : String} {result : Option AVFormatContext}
      (hControl : s.control = .creating streamName) :
      EngineStep s (.createFormatContext result) { s with
        pFormatCtx := result
        control := if result.isNone then .idle else .inspecting }
  | inspected (hControl : s.control = .inspecting) :
      EngineStep s .proceed { s.getStreamInfo with control := .launching }
  | launched (hControl : s.control = .launching) (hRunner : s.sendDataRunner = none) :
      EngineStep s .proceed { s with
        sendDataRunner := some s.threads.length
        threads := s.threads ++ [.testStop]
        control := .idle }
  | pulled {k : Nat} {act : PullAct} {point next : PullPoint} {middle : StreamPuller}
      (hGet : s.threads[k]? = some point) (loopStep : LoopStep k s point act middle next) :
      EngineStep s (.pull k act) { middle with threads := middle.threads.set k next }

theorem engineStep_of_proceed {s after : StreamPuller} (hStep : s.proceed = some after) :
    EngineStep s .proceed after := by
  unfold proceed at hStep
  cases hControl : s.control with
  | stopping next =>
      rw [hControl] at hStep
      cases hStep
      exact .stopped hControl
  | joining next =>
      rw [hControl] at hStep
      dsimp only at hStep
      cases hRunner : s.sendDataRunner with
      | none =>
          rw [hRunner] at hStep
          cases hStep
          exact .unstarted hControl hRunner
      | some k =>
          rw [hRunner] at hStep
          dsimp only at hStep
          split_ifs at hStep with hReturned
          cases hStep
          exact .joined hControl hRunner hReturned
  | clearing streamName =>
      rw [hControl] at hStep
      cases hStep
      exact .cleared hControl
  | inspecting =>
      rw [hControl] at hStep
      cases hStep
      exact .inspected hControl
  | launching =>
      rw [hControl] at hStep
      dsimp only at hStep
      cases hRunner : s.sendDataRunner with
      | none =>
          rw [hRunner] at hStep
          cases hStep
          exact .launched hControl hRunner
      | some k =>
          rw [hRunner] at hStep
          cases hStep
  | idle | creating streamName | destroyed =>
      rw [hControl] at hStep
      cases hStep

theorem engineStep_of_eq {s after : StreamPuller} {move : Move}
    (hStep : step s move = some after) : EngineStep s move after := by
  cases move with
  | process arg0 =>
      simp only [step] at hStep
      split_ifs at hStep with hIdle
      cases hStep
      exact .process hIdle
  | destroy =>
      simp only [step] at hStep
      split_ifs at hStep with hIdle
      cases hStep
      exact .destroy hIdle
  | proceed => exact engineStep_of_proceed hStep
  | createFormatContext result =>
      simp only [step] at hStep
      cases hControl : s.control with
      | creating streamName =>
          rw [hControl] at hStep
          cases hStep
          exact .opened hControl
      | _ =>
          rw [hControl] at hStep
          cases hStep
  | pull k act =>
      simp only [step] at hStep
      cases hGet : s.threads[k]? with
      | none =>
          rw [hGet] at hStep
          cases hStep
      | some point =>
          rw [hGet] at hStep
          dsimp only at hStep
          cases hPull : pullStreamDataLoop k s point act with
          | none =>
              rw [hPull] at hStep
              cases hStep
          | some result =>
              rw [hPull] at hStep
              cases hStep
              exact .pulled hGet (loopStep_of_eq hPull)

/-- `Process` does not touch the threads or what they have sent. -/
theorem process_frame (s : StreamPuller) (arg0 : Option String) :
    (s.process arg0).threads = s.threads ∧ (s.process arg0).submitted = s.submitted ∧
      (s.process arg0).sendDataRunner = s.sendDataRunner := by
  unfold process
  dsimp only
  split_ifs
  · exact ⟨rfl, rfl, rfl⟩
  · cases arg0 <;> exact ⟨rfl, rfl, rfl⟩

theorem getStreamInfo_frame (s : StreamPuller) :
    s.getStreamInfo.threads = s.threads ∧ s.getStreamInfo.submitted = s.submitted ∧
      s.getStreamInfo.sendDataRunner = s.sendDataRunner := by
  unfold getStreamInfo
  cases s.pFormatCtx with
  | none => exact ⟨rfl, rfl, rfl⟩
  | some ctx =>
      dsimp only
      split_ifs
      · cases ctx.stream.codecId <;> exact ⟨rfl, rfl, rfl⟩
      · exact ⟨rfl, rfl, rfl⟩

end StreamPuller
end Hengda

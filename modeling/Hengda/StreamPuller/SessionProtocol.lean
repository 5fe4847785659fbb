import Hengda.StreamPuller.StreamPuller

/-! What the pulling threads send, one after the other. A thread is only started
when all threads before it have returned, so that no two of them can send in
turn, whatever happens to the flag that stops them. -/
namespace Hengda.StreamPuller

open Sessions

def isEnd (m : StreamRawData) : Bool :=
  m.isEOS ≠ 0

/-- What a thread has sent by the time it stands at a point of its loop. -/
def Agrees (messages : List StreamRawData) : PullPoint → Prop
  | .storing | .returned => Closed isEnd messages
  | .sending output => Open isEnd messages ∧ output.isEOS = 0
  | _ => Open isEnd messages

theorem Agrees.opened {messages : List StreamRawData} {point : PullPoint}
    (agrees : Agrees messages point) (hStoring : point ≠ .storing)
    (hReturned : point ≠ .returned) : Open isEnd messages := by
  cases point with
  | storing => exact absurd rfl hStoring
  | returned => exact absurd rfl hReturned
  | sending output => exact agrees.1
  | _ => exact agrees

/-- One step of a pulling thread that has sent `messages` so far. -/
structure PullStep (k : Nat) (s : StreamPuller) (point : PullPoint) (after : StreamPuller)
    (next : PullPoint) : Prop where
  alive : point ≠ .returned
  control : after.control = s.control
  sendDataRunner : after.sendDataRunner = s.sendDataRunner
  threads : after.threads = s.threads
  submitted : (after.submitted = s.submitted ∧ Agrees (session s.submitted k) next) ∨
    (Open isEnd (session s.submitted k) ∧ ∃ m, after.submitted = s.submitted ++ [(k, m)] ∧
      m.isEOS ≤ 1 ∧ Agrees (session s.submitted k ++ [m]) next)

theorem isEnd_packet {m : StreamRawData} (hFlag : m.isEOS = 0) : isEnd m = false := by
  simp [isEnd, hFlag]

theorem LoopStep.pullStep {k : Nat} {s after : StreamPuller} {point next : PullPoint}
    {act : PullAct} (loopStep : LoopStep k s point act after next)
    (agrees : Agrees (session s.submitted k) point) : PullStep k s point after next := by
  have silent {target : PullPoint} (alive : point ≠ .returned)
      (hNext : Agrees (session s.submitted k) target) : PullStep k s point s target :=
    ⟨alive, rfl, rfl, rfl, Or.inl ⟨rfl, hNext⟩⟩
  cases loopStep with
  | stopped | running | noContext | context | readFails | otherStream | noData | packet |
    mallocFails => exact silent (by simp) agrees
  | allocated => exact silent (by simp) ⟨agrees, rfl⟩
  | sent =>
      refine ⟨by simp, rfl, rfl, rfl, Or.inr ⟨agrees.1, _, rfl, ?_, ?_⟩⟩
      · exact Nat.le_of_eq agrees.2 |>.trans (Nat.zero_le 1)
      · exact agrees.1.concat (isEnd_packet agrees.2)
  | ended =>
      refine ⟨by simp, rfl, rfl, rfl, Or.inr ⟨agrees, s.endMessage, rfl, Nat.le_refl 1, ?_⟩⟩
      exact Open.close agrees rfl
  | stored => exact ⟨by simp, rfl, rfl, rfl, Or.inl ⟨rfl, agrees⟩⟩

/-- The places at which `startStream` has joined the thread before the one that
it is about to start. -/
def ControlPoint.joined : ControlPoint → Bool
  | .clearing _ | .creating _ | .inspecting | .launching | .destroyed => true
  | _ => false

structure Holds (s : StreamPuller) : Prop where
  protocol : Protocol isEnd s.threads.length s.submitted
  flags : ∀ entry ∈ s.submitted, entry.2.isEOS ≤ 1
  agrees : ∀ k point, s.threads[k]? = some point → Agrees (session s.submitted k) point
  earlier : ∀ k point, s.threads[k]? = some point → k + 1 < s.threads.length → point = .returned
  runner : ∀ k, s.sendDataRunner = some k → k + 1 = s.threads.length
  unjoinable : s.sendDataRunner = none → ∀ point ∈ s.threads, point = .returned
  joined : ControlPoint.joined s.control = true → s.sendDataRunner = none

/-- Nothing that the pulling threads and the protocol depend on has changed. -/
theorem Holds.frame {s after : StreamPuller} (holds : Holds s)
    (hThreads : after.threads = s.threads)
    (hSubmitted : after.submitted = s.submitted)
    (hRunner : after.sendDataRunner = s.sendDataRunner)
    (hJoined : ControlPoint.joined after.control = true → s.sendDataRunner = none) :
    Holds after where
  protocol := by
    rw [hThreads, hSubmitted]
    exact holds.protocol
  flags := by
    rw [hSubmitted]
    exact holds.flags
  agrees := by
    rw [hThreads, hSubmitted]
    exact holds.agrees
  earlier := by
    rw [hThreads]
    exact holds.earlier
  runner := by
    rw [hThreads, hRunner]
    exact holds.runner
  unjoinable := by
    rw [hThreads, hRunner]
    exact holds.unjoinable
  joined := by
    rw [hRunner]
    exact hJoined

/-- With no thread to join all sessions are over. -/
theorem Holds.closed {s : StreamPuller} (holds : Holds s) (hRunner : s.sendDataRunner = none)
    {k : Nat} (hk : k < s.threads.length) : Closed isEnd (session s.submitted k) := by
  have hReturned := holds.unjoinable hRunner _ (List.getElem_mem hk)
  have hAgrees := holds.agrees k _ (List.getElem?_eq_getElem hk)
  rw [hReturned] at hAgrees
  exact hAgrees

/-- The thread that can be joined is the newest one, so once it has returned all
of them have. -/
theorem Holds.all_returned {s : StreamPuller} (holds : Holds s) {k : Nat}
    (hRunner : s.sendDataRunner = some k) (hReturned : s.threads[k]? = some .returned) :
    ∀ point ∈ s.threads, point = .returned := by
  intro point mem
  obtain ⟨j, hGet⟩ := List.getElem?_of_mem mem
  have hLength := holds.runner k hRunner
  have hj := (List.getElem?_eq_some_iff.mp hGet).1
  by_cases hNewest : j = k
  · rw [hNewest, hReturned] at hGet
    exact (Option.some.inj hGet).symm
  · exact holds.earlier j point hGet (by omega)

/-- The new thread begins a session behind all others. -/
theorem Holds.launch {s : StreamPuller} (holds : Holds s) (hRunner : s.sendDataRunner = none) :
    Holds { s with
      sendDataRunner := some s.threads.length
      threads := s.threads ++ [.testStop]
      control := .idle } where
  protocol := by
    rw [List.length_append, List.length_singleton]
    exact holds.protocol.begin (fun k hk => holds.closed hRunner (by omega))
  flags := holds.flags
  agrees k point hGet := by
    by_cases hOld : k < s.threads.length
    · rw [List.getElem?_append_left hOld] at hGet
      exact holds.agrees k point hGet
    · have hNew : session s.submitted k = [] := by
        apply session_eq_nil
        intro entry mem
        have hKnown := holds.protocol.known entry mem
        omega
      obtain ⟨hLength, hPoint⟩ := List.getElem?_eq_some_iff.mp hGet
      rw [List.getElem_append_right (Nat.le_of_not_lt hOld), List.getElem_singleton] at hPoint
      rw [← hPoint]
      change Open isEnd (session s.submitted k)
      rw [hNew]
      intro m mem
      cases mem
  earlier k point hGet hk := by
    rw [List.length_append, List.length_singleton] at hk
    have hOld : k < s.threads.length := by omega
    rw [List.getElem?_append_left hOld] at hGet
    exact holds.unjoinable hRunner point (List.mem_of_getElem? hGet)
  runner k hk := by
    rw [List.length_append, List.length_singleton, Option.some.inj hk]
  unjoinable hNone := by cases hNone
  joined hJoined := by cases hJoined

/-- A thread that takes a step is the newest one. -/
theorem Holds.pull {s after : StreamPuller} {k : Nat} {point next : PullPoint} (holds : Holds s)
    (hGet : s.threads[k]? = some point) (hPull : PullStep k s point after next) :
    Holds { after with threads := after.threads.set k next } := by
  have hLength := (List.getElem?_eq_some_iff.mp hGet).1
  have hNewest : s.threads.length = k + 1 := by
    by_contra hOlder
    exact hPull.alive (holds.earlier k point hGet (by omega))
  have hSame : (after.threads.set k next).length = s.threads.length := by
    rw [List.length_set, hPull.threads]
  have hOther {j : Nat} (hNe : j ≠ k) : (after.threads.set k next)[j]? = s.threads[j]? := by
    rw [List.getElem?_set_ne (Ne.symm hNe), hPull.threads]
  have hHere : (after.threads.set k next)[k]? = some next := by
    rw [hPull.threads, List.getElem?_set_self hLength]
  have hSubmitted : Protocol isEnd s.threads.length after.submitted ∧
      (∀ entry ∈ after.submitted, entry.2.isEOS ≤ 1) ∧
      Agrees (session after.submitted k) next ∧
      ∀ j, j ≠ k → session after.submitted j = session s.submitted j := by
    rcases hPull.submitted with ⟨hQuiet, hNext⟩ | ⟨hOpen, m, hSent, hFlag, hNext⟩
    · rw [hQuiet]
      exact ⟨holds.protocol, holds.flags, hNext, fun _ _ => rfl⟩
    · have hProtocol := holds.protocol
      rw [hNewest] at hProtocol
      rw [hSent, hNewest]
      refine ⟨hProtocol.send hOpen m, ?_, ?_, ?_⟩
      · intro entry mem
        rcases List.mem_append.mp mem with mem | mem
        · exact holds.flags entry mem
        · rw [List.mem_singleton.mp mem]
          exact hFlag
      · rw [session_concat, if_pos rfl]
        exact hNext
      · intro j hNe
        rw [session_concat, if_neg (Ne.symm hNe), List.append_nil]
  obtain ⟨hProtocol, hFlags, hAgrees, hFrame⟩ := hSubmitted
  constructor
  · rw [hSame]
    exact hProtocol
  · exact hFlags
  · intro j other hThread
    by_cases hNe : j = k
    · rw [hNe, hHere] at hThread
      rw [hNe, ← Option.some.inj hThread]
      exact hAgrees
    · rw [hOther hNe] at hThread
      change Agrees (session after.submitted j) other
      rw [hFrame j hNe]
      exact holds.agrees j other hThread
  · intro j other hThread hj
    rw [hSame, hNewest] at hj
    have hNe : j ≠ k := by omega
    rw [hOther hNe] at hThread
    exact holds.earlier j other hThread (by omega)
  · intro j hRunner
    rw [hSame]
    exact holds.runner j (hPull.sendDataRunner ▸ hRunner)
  · intro hNone
    have hAll := holds.unjoinable (hPull.sendDataRunner ▸ hNone)
    exact absurd (hAll point (List.mem_of_getElem? hGet)) hPull.alive
  · intro hJoined
    exact hPull.sendDataRunner.trans (holds.joined (hPull.control ▸ hJoined))

theorem Holds.step {s after : StreamPuller} {move : Move} (holds : Holds s)
    (hStep : step s move = some after) : Holds after := by
  cases engineStep_of_eq hStep with
  | @process arg0 hIdle =>
      obtain ⟨hThreads, hSubmitted, hRunner⟩ := process_frame s arg0
      apply holds.frame hThreads hSubmitted hRunner
      unfold StreamPuller.process
      dsimp only
      split_ifs
      · exact holds.joined
      · cases arg0 with
        | none => exact holds.joined
        | some inputArg => exact fun hJoined => by cases hJoined
  | destroy | stopped => exact holds.frame rfl rfl rfl (fun hJoined => by cases hJoined)
  | unstarted hControl hRunner => exact holds.frame rfl rfl hRunner.symm (fun _ => hRunner)
  | joined hControl hRunner hReturned =>
      exact ⟨holds.protocol, holds.flags, holds.agrees, holds.earlier,
        fun _ hNone => (by cases hNone), fun _ => holds.all_returned hRunner hReturned,
        fun _ => rfl⟩
  | cleared hControl | opened hControl =>
      exact holds.frame rfl rfl rfl (fun _ => holds.joined (by rw [hControl]; rfl))
  | inspected hControl =>
      obtain ⟨hThreads, hSubmitted, hRunner⟩ := getStreamInfo_frame s
      exact holds.frame hThreads hSubmitted hRunner
        (fun _ => holds.joined (by rw [hControl]; rfl))
  | launched hControl hRunner => exact holds.launch hRunner
  | pulled hGet loopStep =>
      exact holds.pull hGet (loopStep.pullStep (holds.agrees _ _ hGet))

/-- The engine after `Init`. The content of `videoIndex` is not defined yet. -/
def created (channelId : Nat) (format : VideoFormat) (videoIndex : Int) (streamName : String) :
    StreamPuller :=
  { channelId, format, videoIndex, streamName }

variable {channelId : Nat} {format : VideoFormat} {videoIndex : Int} {streamName : String}

theorem holds_run {moves : List Move} {s : StreamPuller}
    (hRun : Schedule.run step (created channelId format videoIndex streamName) moves = some s) :
    Holds s := by
  apply Schedule.Reachable.invariant ⟨moves, hRun⟩
  · exact ⟨Protocol.empty, fun _ mem => (by cases mem), fun _ _ hGet => (by cases hGet),
      fun _ _ hGet => (by cases hGet), fun _ hRunner => (by cases hRunner),
      fun _ _ mem => (by cases mem), fun _ => rfl⟩
  · intro before move after holds hStep
    exact holds.step hStep

/-- The sessions on port 0, one for each pulling thread. -/
structure SessionProtocol (s : StreamPuller) : Prop where
  sessions : s.submitted.map Prod.snd =
    (List.range s.threads.length).flatMap (session s.submitted)
  shape : ∀ k, ∃ datas eos, session s.submitted k = datas ++ eos ∧
    (∀ m ∈ datas, m.isEOS = 0) ∧ (eos = [] ∨ ∃ m, eos = [m] ∧ m.isEOS = 1)
  ended : ∀ k, s.threads[k]? = some .returned → ∃ datas m, session s.submitted k = datas ++ [m] ∧
    (∀ m ∈ datas, m.isEOS = 0) ∧ m.isEOS = 1
  order : ∀ before k m after j, s.submitted = before ++ (k, m) :: after → j < k →
    ∃ final, (j, final) ∈ before ∧ final.isEOS = 1

theorem isEnd_iff {m : StreamRawData} (hFlag : m.isEOS ≤ 1) : isEnd m = true ↔ m.isEOS = 1 := by
  simp only [isEnd, ne_eq, decide_not, Bool.not_eq_true', decide_eq_false_iff_not]
  omega

theorem eq_zero_of_open {messages : List StreamRawData} (opened : Open isEnd messages) :
    ∀ m ∈ messages, m.isEOS = 0 := by
  intro m mem
  have hEnd := opened m mem
  simpa [isEnd] using hEnd

theorem Holds.session_flags {s : StreamPuller} (holds : Holds s) {k : Nat} {m : StreamRawData}
    (mem : m ∈ session s.submitted k) : m.isEOS ≤ 1 :=
  holds.flags (k, m) (mem_session.mp mem)

theorem Holds.of_closed {s : StreamPuller} (holds : Holds s) {k : Nat}
    (closed : Closed isEnd (session s.submitted k)) :
    ∃ datas m, session s.submitted k = datas ++ [m] ∧ (∀ m ∈ datas, m.isEOS = 0) ∧
      m.isEOS = 1 := by
  obtain ⟨datas, m, hSession, opened, hLast⟩ := closed
  have hFlag : m.isEOS ≤ 1 := holds.session_flags (k := k) (by rw [hSession]; simp)
  exact ⟨datas, m, hSession, eq_zero_of_open opened, (isEnd_iff hFlag).mp hLast⟩

theorem Holds.sessionProtocol {s : StreamPuller} (holds : Holds s) : SessionProtocol s where
  sessions := holds.protocol.concat
  shape k := by
    rcases holds.protocol.shape k with opened | closed
    · exact ⟨session s.submitted k, [], by simp, eq_zero_of_open opened, Or.inl rfl⟩
    · obtain ⟨datas, m, hSession, hDatas, hLast⟩ := holds.of_closed closed
      exact ⟨datas, [m], hSession, hDatas, Or.inr ⟨m, rfl, hLast⟩⟩
  ended k hReturned := holds.of_closed (holds.agrees k _ hReturned)
  order before k m after j hSplit hLess := by
    obtain ⟨final, mem, hLast⟩ := holds.protocol.order before k m after j hSplit hLess
    refine ⟨final, mem, ?_⟩
    have hFlag : final.isEOS ≤ 1 := holds.flags (j, final) (by rw [hSplit]; simp [mem])
    exact (isEnd_iff hFlag).mp hLast

/-- Every run of start requests, in every order of the two threads' steps. -/
theorem session_protocol (channelId : Nat) (format : VideoFormat) (videoIndex : Int)
    (streamName : String) (moves : List Move) (s : StreamPuller)
    (hRun : Schedule.run step (created channelId format videoIndex streamName) moves = some s) :
    SessionProtocol s :=
  (holds_run hRun).sessionProtocol

/-- An assignment to `sendDataRunner` never meets a thread that was not joined. -/
theorem launching_unjoinable {moves : List Move} {s : StreamPuller}
    (hRun : Schedule.run step (created channelId format videoIndex streamName) moves = some s)
    (hLaunching : s.control = .launching) : s.sendDataRunner = none :=
  (holds_run hRun).joined (by rw [hLaunching]; rfl)

section Sample

def sampleContext : AVFormatContext :=
  { stream := { isVideo := true, codecId := .h264 } }

/-- A stream is started, sends one packet and is still pulled when the twelfth
call after it starts another one. -/
def sampleMoves : List Move :=
  [.process (some "rtsp://a"), .proceed, .proceed, .proceed,
    .createFormatContext (some sampleContext), .proceed, .proceed,
    .pull 0 .proceed, .pull 0 .proceed, .pull 0 (.read (some ⟨0, 2, [7, 8]⟩)),
    .pull 0 (.malloc .ok), .pull 0 (.sendData .ok)] ++
  List.replicate 11 (.process none) ++
  [.process (some "rtsp://b"), .proceed, .pull 0 .proceed, .pull 0 (.sendData .ok),
    .pull 0 .proceed, .proceed, .proceed, .createFormatContext (some sampleContext), .proceed,
    .proceed, .pull 1 .proceed]

def sampleEnd : StreamPuller :=
  { created 3 .h265 0 "rtsp://b" with
    format := .h264
    pFormatCtx := some sampleContext
    sendDataRunner := some 1
    frameIndex := 13
    threads := [.returned, .testCtx]
    submitted := [(0, ⟨3, .h264, 0, [7, 8]⟩), (0, ⟨3, .h264, 1, []⟩)] }

theorem session_protocol_sample : SessionProtocol sampleEnd :=
  session_protocol 3 .h265 0 "" sampleMoves sampleEnd (by decide +kernel)

end Sample

end Hengda.StreamPuller

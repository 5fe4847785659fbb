import Hengda.Library.Slot
import Hengda.StreamPuller.SessionProtocol

/-! The packets that `av_read_frame` returns to a pulling thread. They share one
variable, which has to be released before it is used for the next one. -/
namespace Hengda.StreamPuller

/-- What a step of the loop does with `pkt`: `av_init_packet` makes it blank, a frame
that was read fills it, and `av_packet_unref` releases it. -/
def packetEvents : StreamPuller → PullPoint → PullAct → List (Slot.Event AVPacket)
  | s, .testCtx, .proceed => if s.pFormatCtx.isNone then [] else [.blank]
  | _, .reading, .read (some pkt) => [.fill pkt]
  | _, .allocating _, .malloc .error => [.release]
  | _, .sending _, .sendData .ok => [.release]
  | _, .storing, .proceed => [.blank]
  | _, _, _ => []

/-- The same for any move, as far as thread `k` is concerned. -/
def moveEvents (k : Nat) (s : StreamPuller) : Move → List (Slot.Event AVPacket)
  | .pull j act =>
      if j = k then
        match s.threads[k]? with
        | some point => packetEvents s point act
        | none => []
      else []
  | _ => []

theorem moveEvents_self {k : Nat} {s : StreamPuller} {point : PullPoint}
    (hGet : s.threads[k]? = some point) (act : PullAct) :
    moveEvents k s (.pull k act) = packetEvents s point act := by
  simp only [moveEvents, if_true, hGet]

theorem moveEvents_other {k j : Nat} (hOther : j ≠ k) (s : StreamPuller) (act : PullAct) :
    moveEvents k s (.pull j act) = [] := by
  simp only [moveEvents, if_neg hOther]

/-- What thread `k` has done with its packets in a run. -/
def packetTrace (start : StreamPuller) (k : Nat) (moves : List Move) :
    List (Slot.Event AVPacket) :=
  (Schedule.history step start moves).flatMap fun entry => moveEvents k entry.1 entry.2

/-- The thread goes on to the next packet and leaves this one as it is: the packet is
of another stream or empty, or could not be sent. -/
def Forgets : StreamPuller → PullPoint → PullAct → Prop
  | s, .reading, .read (some pkt) => pkt.streamIndex ≠ s.videoIndex ∨ pkt.size ≤ 0
  | _, .sending _, .sendData .error => True
  | _, _, _ => False

/-- The move is such a step of thread `k`. -/
def MoveForgets (k : Nat) (s : StreamPuller) (move : Move) : Prop :=
  ∃ point act, move = .pull k act ∧ s.threads[k]? = some point ∧ Forgets s point act

/-- The thread is about to begin an iteration of its loop, or has returned. -/
def AtHead (k : Nat) (s : StreamPuller) : Prop :=
  s.threads[k]? = some .testStop ∨ s.threads[k]? = some .returned

/-- Whenever thread `k` begins an iteration or has returned, each packet that was read
has been released exactly once, and before `pkt` was made blank again. -/
def PacketsReleased (start : StreamPuller) (k : Nat) (moves : List Move) : Prop :=
  ∀ past, past <+: moves → ∀ s, Schedule.run step start past = some s → AtHead k s →
    Slot.Released (packetTrace start k past)

/-- What a move does to the threads. -/
inductive ThreadsAfter (s : StreamPuller) : Move → List PullPoint → Prop
  | same {move : Move} (hMove : ∀ k act, move ≠ .pull k act) : ThreadsAfter s move s.threads
  | launched : ThreadsAfter s .proceed (s.threads ++ [.testStop])
  | pulled {k : Nat} {act : PullAct} {point next : PullPoint} {middle : StreamPuller}
      (hGet : s.threads[k]? = some point) (loopStep : LoopStep k s point act middle next) :
      ThreadsAfter s (.pull k act) (s.threads.set k next)

theorem EngineStep.threads {s after : StreamPuller} {move : Move}
    (engineStep : EngineStep s move after) : ThreadsAfter s move after.threads := by
  cases engineStep with
  | @process arg0 hIdle =>
      rw [(process_frame s arg0).1]
      exact .same (fun _ _ hMove => by cases hMove)
  | inspected hControl =>
      dsimp only
      rw [(getStreamInfo_frame s).1]
      exact .same (fun _ _ hMove => by cases hMove)
  | launched => exact .launched
  | pulled hGet loopStep =>
      dsimp only
      rw [loopStep.threads_eq]
      exact .pulled hGet loopStep
  | _ => exact .same (fun _ _ hMove => by cases hMove)

/-- What a thread has done with its packets by the time it stands at a point of its
loop, if it has not forgotten one. -/
def Fits : Option PullPoint → List (Slot.Event AVPacket) → Prop
  | none, trace => trace = []
  | some .reading, trace => ∃ before, Slot.Settled before ∧ trace = before ++ [.blank]
  | some (.allocating _), trace | some (.sending _), trace =>
      ∃ before pkt, Slot.Settled before ∧ trace = before ++ [.blank, .fill pkt]
  | some _, trace => Slot.Settled trace

variable {k : Nat} {s after : StreamPuller} {trace : List (Slot.Event AVPacket)}

theorem Fits.loopStep {j : Nat} {point next : PullPoint} {act : PullAct}
    (fits : Fits (some point) trace) (loopStep : LoopStep j s point act after next)
    (hKept : ¬ Forgets s point act) :
    Fits (some next) (trace ++ packetEvents s point act) := by
  cases loopStep with
  | stopped | running => exact (List.append_nil trace).symm ▸ fits
  | noContext hCtx =>
      have hEvents : packetEvents s .testCtx .proceed = [] := if_pos hCtx
      rw [hEvents, List.append_nil]
      exact fits
  | context hCtx =>
      have hEvents : packetEvents s .testCtx .proceed = [.blank] :=
        if_neg (Bool.not_eq_true _ ▸ hCtx)
      rw [hEvents]
      exact ⟨trace, fits, rfl⟩
  | readFails =>
      obtain ⟨before, settled, rfl⟩ := fits
      exact (List.append_nil _).symm ▸ settled.blank
  | otherStream hStream => exact absurd (Or.inl hStream) hKept
  | noData hSize => exact absurd (Or.inr hSize) hKept
  | packet =>
      obtain ⟨before, settled, rfl⟩ := fits
      exact ⟨before, _, settled, List.append_assoc _ _ _⟩
  | mallocFails =>
      obtain ⟨before, pkt, settled, rfl⟩ := fits
      rw [List.append_assoc]
      exact settled.use pkt
  | allocated => exact (List.append_nil trace).symm ▸ fits
  | @sent output result =>
      cases result with
      | ok =>
          obtain ⟨before, pkt, settled, rfl⟩ := fits
          rw [List.append_assoc]
          exact settled.use pkt
      | error => exact absurd trivial hKept
  | ended => exact (List.append_nil trace).symm ▸ fits
  | stored => exact Slot.Settled.blank fits

theorem Fits.step {move : Move} (fits : Fits s.threads[k]? trace)
    (hStep : step s move = some after) (hKept : ¬ MoveForgets k s move) :
    Fits after.threads[k]? (trace ++ moveEvents k s move) := by
  have hThreads := (engineStep_of_eq hStep).threads
  generalize after.threads = threads at hThreads ⊢
  cases hThreads with
  | same hMove =>
      have hNone : moveEvents k s move = [] := by
        cases move with
        | pull j act => exact absurd rfl (hMove j act)
        | _ => rfl
      rw [hNone, List.append_nil]
      exact fits
  | launched =>
      rw [show moveEvents k s .proceed = [] from rfl, List.append_nil]
      rcases Nat.lt_trichotomy k s.threads.length with hOld | hNew | hLater
      · rw [List.getElem?_append_left hOld]
        exact fits
      · rw [hNew, List.getElem?_eq_none (Nat.le_refl _)] at fits
        rw [hNew, List.getElem?_concat_length, show trace = [] from fits]
        exact .nil
      · rw [List.getElem?_eq_none (Nat.le_of_lt hLater)] at fits
        rw [List.getElem?_eq_none (by rw [List.length_append, List.length_singleton]; omega)]
        exact fits
  | @pulled j act point next middle hGet loopStep =>
      by_cases hHere : j = k
      · subst hHere
        have hBound := (List.getElem?_eq_some_iff.mp hGet).1
        rw [moveEvents_self hGet, List.getElem?_set_self hBound]
        rw [hGet] at fits
        exact fits.loopStep loopStep (fun hForgets => hKept ⟨point, act, rfl, hGet, hForgets⟩)
      · rw [moveEvents_other hHere, List.append_nil, List.getElem?_set_ne hHere]
        exact fits

/-- A thread that forgets a packet begins its next iteration right away, and owes a
release then. -/
theorem Fits.forgets {j : Nat} {point next : PullPoint} {act : PullAct}
    (fits : Fits (some point) trace) (loopStep : LoopStep j s point act after next)
    (hForgets : Forgets s point act) :
    next = .testStop ∧ ¬ Slot.Released (trace ++ packetEvents s point act) := by
  cases loopStep with
  | otherStream | noData =>
      obtain ⟨before, settled, rfl⟩ := fits
      rw [List.append_assoc]
      exact ⟨rfl, settled.not_released _⟩
  | @packet pkt hStream hSize =>
      rcases hForgets with hOther | hEmpty
      · exact absurd hStream hOther
      · exact absurd hEmpty (Int.not_le.mpr hSize)
  | @sent output result =>
      cases result with
      | ok => cases hForgets
      | error =>
          obtain ⟨before, pkt, settled, rfl⟩ := fits
          rw [show packetEvents s (.sending output) (.sendData .error) = [] from rfl,
            List.append_nil]
          exact ⟨rfl, settled.not_released pkt⟩
  | _ => cases hForgets

/-- The same for a move of the engine. -/
theorem not_released_of_forgets {move : Move} (fits : Fits s.threads[k]? trace)
    (hStep : step s move = some after) (hForgets : MoveForgets k s move) :
    AtHead k after ∧ ¬ Slot.Released (trace ++ moveEvents k s move) := by
  obtain ⟨point, act, rfl, hGet, hForgets⟩ := hForgets
  have hThreads := (engineStep_of_eq hStep).threads
  have hBound := (List.getElem?_eq_some_iff.mp hGet).1
  rw [hGet] at fits
  rw [moveEvents_self hGet]
  unfold AtHead
  generalize after.threads = threads at hThreads ⊢
  cases hThreads with
  | same hMove => exact absurd rfl (hMove k act)
  | @pulled _ _ there next middle hThere loopStep =>
      cases hThere.symm.trans hGet
      obtain ⟨rfl, hOwed⟩ := fits.forgets loopStep hForgets
      exact ⟨Or.inl (List.getElem?_set_self hBound), hOwed⟩

theorem Fits.atHead (fits : Fits s.threads[k]? trace) (hHead : AtHead k s) :
    Slot.Released trace := by
  rcases hHead with hStop | hReturned
  · rw [hStop] at fits
    exact Slot.Settled.released fits
  · rw [hReturned] at fits
    exact Slot.Settled.released fits

section Run

variable {channelId : Nat} {format : VideoFormat} {videoIndex : Int} {streamName : String}
  {moves : List Move}

theorem packetTrace_concat {start : StreamPuller} (hRun : Schedule.run step start moves = some s)
    (move : Move) :
    packetTrace start k (moves ++ [move]) = packetTrace start k moves ++ moveEvents k s move := by
  unfold packetTrace
  rw [Schedule.history_concat hRun, List.flatMap_append, List.flatMap_singleton]

theorem fits_run
    (hRun : Schedule.run step (created channelId format videoIndex streamName) moves = some s)
    (hKept : ∀ entry ∈ Schedule.history step (created channelId format videoIndex streamName) moves,
      ¬ MoveForgets k entry.1 entry.2) :
    Fits s.threads[k]? (packetTrace (created channelId format videoIndex streamName) k moves) := by
  induction moves using List.reverseRecOn generalizing s with
  | nil =>
      cases hRun
      rfl
  | append_singleton past move ih =>
      rw [Schedule.run_concat, Option.bind_eq_some_iff] at hRun
      obtain ⟨before, hPast, hStep⟩ := hRun
      rw [Schedule.history_concat hPast] at hKept
      rw [packetTrace_concat hPast]
      apply (ih hPast (fun entry mem => hKept entry (List.mem_append_left _ mem))).step hStep
      exact hKept (before, move) (List.mem_append_right _ (List.mem_singleton_self _))

/-- The packets of a thread are released exactly once each if and only if it forgets
none of them. -/
theorem packetsReleased_iff (channelId : Nat) (format : VideoFormat) (videoIndex : Int)
    (streamName : String) (moves : List Move) (s : StreamPuller)
    (hRun : Schedule.run step (created channelId format videoIndex streamName) moves = some s)
    (k : Nat) :
    PacketsReleased (created channelId format videoIndex streamName) k moves ↔
      ∀ entry ∈ Schedule.history step (created channelId format videoIndex streamName) moves,
        ¬ MoveForgets k entry.1 entry.2 := by
  constructor
  · intro hReleased
    induction moves using List.reverseRecOn generalizing s with
    | nil =>
        intro entry mem
        cases mem
    | append_singleton past move ih =>
        have hAll := hRun
        rw [Schedule.run_concat, Option.bind_eq_some_iff] at hRun
        obtain ⟨before, hPast, hStep⟩ := hRun
        have hKept := ih before hPast
          (fun first hFirst => hReleased first (hFirst.trans (List.prefix_append _ _)))
        intro entry mem
        rw [Schedule.history_concat hPast, List.mem_append, List.mem_singleton] at mem
        rcases mem with mem | rfl
        · exact hKept entry mem
        · intro hForgets
          obtain ⟨hHead, hOwed⟩ := not_released_of_forgets (fits_run hPast hKept) hStep hForgets
          rw [← packetTrace_concat hPast] at hOwed
          exact hOwed (hReleased _ (List.prefix_refl _) s hAll hHead)
  · rintro hKept past ⟨later, rfl⟩ middle hPast hHead
    rw [Schedule.history_append hPast] at hKept
    apply (fits_run hPast _).atHead hHead
    intro entry mem
    exact hKept entry (List.mem_append_left _ mem)

end Run

section Sample

/-- One packet is read and sent, a second thread has just begun. -/
theorem packetsReleased_iff_sample :
    PacketsReleased (created 3 .h265 0 "") 0 sampleMoves ↔
      ∀ entry ∈ Schedule.history step (created 3 .h265 0 "") sampleMoves,
        ¬ MoveForgets 0 entry.1 entry.2 :=
  packetsReleased_iff 3 .h265 0 "" sampleMoves sampleEnd (by decide +kernel) 0

/-- The camera also sends sound, as stream 1. -/
def audioMoves : List Move :=
  [.process (some "rtsp://a"), .proceed, .proceed, .proceed,
    .createFormatContext (some sampleContext), .proceed, .proceed,
    .pull 0 .proceed, .pull 0 .proceed, .pull 0 (.read (some ⟨1, 2, [7, 8]⟩))]

theorem audio_forgotten : ¬ PacketsReleased (created 3 .h265 0 "") 0 audioMoves := by
  intro hReleased
  have hHead : (Schedule.run step (created 3 .h265 0 "") audioMoves).map (fun s => s.threads[0]?) =
      some (some .testStop) := by decide +kernel
  obtain ⟨s, hRun, hStop⟩ := Option.map_eq_some_iff.mp hHead
  have hBalanced := (hReleased audioMoves (List.prefix_refl _) s hRun (Or.inl hStop)).balanced
  have hOwed : Slot.fills (packetTrace (created 3 .h265 0 "") 0 audioMoves) ≠
      Slot.releases (packetTrace (created 3 .h265 0 "") 0 audioMoves) := by decide +kernel
  exact hOwed hBalanced

end Sample

end Hengda.StreamPuller

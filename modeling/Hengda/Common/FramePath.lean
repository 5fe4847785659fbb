import Hengda.DstEngine.CallSpec
import Hengda.Library.Schedule
import Hengda.SSDDetection.Batches
import Hengda.StreamPuller.StreamPuller

/-! The way of a frame through the graph: the decoder numbers it, the detector marks it, the
encoder compresses it, and the alarm engine looks at it. The engines take turns, and each of
the connections between them keeps what has been sent in its order. -/
namespace Hengda.FramePath

/-- `StreamInfo`, as far as an engine reads it. -/
structure StreamInfo where
  frameId : Nat
  format : VideoFormat
  channelId : Nat
  isEOS : Nat
deriving DecidableEq, Repr

/-- `DeviceStreamData` with its `info`. -/
structure Message where
  info : StreamInfo
  frame : DeviceStreamData
deriving DecidableEq, Repr

/-- The engines and the messages that wait in front of each. The images that have been decoded,
the messages that the detector has got and the calls of the alarm engine are kept for the
record, as is the number of end signals that went to `main`. -/
structure Path where
  inputInfo : StreamInfo
  frameId : Nat := 0
  decoded : List ImageInfo := []
  toDetector : List Message := []
  detector : SSDDetection := {}
  arrived : List Message := []
  toEncoder : List Message := []
  toAlarms : List Message := []
  engine : DstEngine := {}
  processed : List Message := []
  calls : List Call := []
  ended : Nat := 0

/-- What an engine does next, with the outcome of what it calls. `sends` says whether `SendData`
succeeds. -/
inductive Move
  | packet (data : StreamRawData)
  | frame (image : ImageInfo) (sends : Bool)
  | detect (resizes : Nat → ResizeOutcome) (succeeds : Bool) (sends : Nat → Bool)
  | encode (jpeg : Option (List UInt8)) (sends : Bool)
  | alarm (borders : List Border) (opens : Opens) (clock : Nat → Stamp)

variable {α : Type*} [LT α] [DecidableLT α] (model : Model)
  (setup : SSDDetection.Setup) (env : Env α)

/-- `VDecEngine::Process` keeps what belongs to the packet for the frames to come. -/
def packet (s : Path) (data : StreamRawData) : Path :=
  { s with inputInfo :=
      { s.inputInfo with format := data.format, channelId := data.channelId, isEOS := data.isEOS } }

/-- `VDecEngine::frameCallback` -/
def frameCallback (s : Path) (image : ImageInfo) (sends : Bool) : Path :=
  let out : Message :=
    { info := { s.inputInfo with frameId := s.frameId, isEOS := 0 }
      frame := { detectResult := [], imgOrigin := image } }
  { s with
    frameId := s.frameId + 1
    decoded := s.decoded ++ [image]
    toDetector := if sends then s.toDetector ++ [out] else s.toDetector }

/-- What the detector forwards for one entry of its queue. -/
def forward (arrived : List Message) (sends : Nat → Bool) (a : Arrival) : Option Message :=
  if sends a.index then (arrived[a.index]?).map fun m => { m with frame := a.frame } else none

def detect (s : Path) (m : Message) (rest : List Message) (resizes : Nat → ResizeOutcome)
    (succeeds : Bool) (sends : Nat → Bool) : Path :=
  let detector := SSDDetection.step model setup s.detector ⟨some m.frame, resizes, succeeds⟩
  let arrived := s.arrived ++ [m]
  { s with
    toDetector := rest
    detector := detector
    arrived := arrived
    toEncoder := s.toEncoder ++ detector.sent.filterMap (forward arrived sends) }

/-- `JpegEncode::Process`. An image that cannot be encoded goes no further. -/
def encoded (m : Message) (jpeg : Option (List UInt8)) : Option Message :=
  if m.info.isEOS ≠ 0 then some m
  else jpeg.map fun data =>
    { m with frame := { m.frame with imgOrigin := { m.frame.imgOrigin with data := data } } }

def encode (s : Path) (m : Message) (rest : List Message) (jpeg : Option (List UInt8))
    (sends : Bool) : Path :=
  let out := if sends then (encoded m jpeg).toList else []
  { s with toEncoder := rest, toAlarms := s.toAlarms ++ out }

/-- `DstEngine::Process` -/
def alarm (s : Path) (m : Message) (rest : List Message) (borders : List Border) (opens : Opens)
    (clock : Nat → Stamp) : Path :=
  if m.info.isEOS ≠ 0 then { s with toAlarms := rest, ended := s.ended + 1 }
  else
    let c : Call := { frame := m.frame, borders, opens, clock }
    { s with
      toAlarms := rest
      engine := DstEngine.step env s.engine c
      processed := s.processed ++ [m]
      calls := s.calls ++ [c] }

def step (s : Path) : Move → Option Path
  | .packet data => some (packet s data)
  | .frame image sends => some (frameCallback s image sends)
  | .detect resizes succeeds sends =>
      match s.toDetector with
      | m :: rest => some (detect model setup s m rest resizes succeeds sends)
      | [] => none
  | .encode jpeg sends =>
      match s.toEncoder with
      | m :: rest => some (encode s m rest jpeg sends)
      | [] => none
  | .alarm borders opens clock =>
      match s.toAlarms with
      | m :: rest => some (alarm env s m rest borders opens clock)
      | [] => none

def Message.frameId (m : Message) : Nat :=
  m.info.frameId

/-- The number of the frame behind an entry of the detector's queue. -/
def queuedId (arrived : List Message) (a : Arrival) : Option Nat :=
  (arrived[a.index]?).map Message.frameId

/-- The numbers of all frames that are under way, the first decoded ones first. -/
def flight (s : Path) : List Nat :=
  (s.processed ++ s.toAlarms ++ s.toEncoder).map Message.frameId ++
    s.detector.inputArgQueue.filterMap (queuedId s.arrived) ++
    s.toDetector.map Message.frameId

/-- A message is about the image that was decoded under its number. -/
def Fits (decoded : List ImageInfo) (m : Message) : Prop :=
  m.info.isEOS = 0 ∧ ∃ image, decoded[m.info.frameId]? = some image ∧
    m.frame.imgOrigin.width = image.width ∧ m.frame.imgOrigin.height = image.height

structure Inv (s : Path) : Prop where
  counted : s.decoded.length = s.frameId
  delivered : s.detector.arrived = s.arrived.length
  queued : ∀ a ∈ s.detector.inputArgQueue, ∃ m, s.arrived[a.index]? = some m ∧
    Fits s.decoded { m with frame := a.frame }
  increasing : (flight s).Pairwise (· < ·)
  decodedBefore : ∀ i ∈ flight s, i < s.frameId
  fits : ∀ m ∈ s.processed ++ s.toAlarms ++ s.toEncoder ++ s.toDetector, Fits s.decoded m
  endless : s.ended = 0
  calls : s.calls.map Call.frame = s.processed.map Message.frame ∧
    s.engine = Machine.run (DstEngine.step env) {} s.calls

variable {model setup env} {s after : Path}

theorem Fits.later {decoded : List ImageInfo} {m : Message} (fits : Fits decoded m)
    (more : List ImageInfo) : Fits (decoded ++ more) m := by
  obtain ⟨hEnd, image, hImage, hSize⟩ := fits
  obtain ⟨hInside, -⟩ := List.getElem?_eq_some_iff.mp hImage
  exact ⟨hEnd, image, by rw [List.getElem?_append_left hInside, hImage], hSize⟩

/-- The next frame gets the next number. -/
theorem Inv.frameCallback (inv : Inv env s) (image : ImageInfo) (sends : Bool) :
    Inv env (frameCallback s image sends) := by
  have hOld : ∀ m ∈ s.processed ++ s.toAlarms ++ s.toEncoder ++ s.toDetector,
      Fits (s.decoded ++ [image]) m := fun m hMem => (inv.fits m hMem).later [image]
  have hFlight : flight (FramePath.frameCallback s image sends) =
      flight s ++ if sends then [s.frameId] else [] := by
    cases sends with
    | false => simp [flight, FramePath.frameCallback]
    | true => simp [flight, FramePath.frameCallback, Message.frameId]
  exact {
    counted := by
      show (s.decoded ++ [image]).length = s.frameId + 1
      rw [List.length_append, inv.counted]
      rfl
    delivered := inv.delivered
    queued := by
      intro a hMem
      obtain ⟨m, hArrived, fits⟩ := inv.queued a hMem
      exact ⟨m, hArrived, fits.later [image]⟩
    increasing := by
      rw [hFlight, List.pairwise_append]
      refine ⟨inv.increasing, by split_ifs <;> simp, fun i hFirst j hLast => ?_⟩
      split_ifs at hLast with hSends
      · rw [List.mem_singleton.mp hLast]
        exact inv.decodedBefore i hFirst
      · cases hLast
    decodedBefore := by
      intro i hMem
      show i < s.frameId + 1
      rw [hFlight, List.mem_append] at hMem
      rcases hMem with hFirst | hLast
      · exact Nat.lt_succ_of_lt (inv.decodedBefore i hFirst)
      · split_ifs at hLast with hSends
        · rw [List.mem_singleton.mp hLast]
          exact Nat.lt_succ_self _
        · cases hLast
    fits := by
      intro m hMem
      show Fits (s.decoded ++ [image]) m
      cases sends with
      | false => exact hOld m hMem
      | true =>
          have hNew : m ∈ (s.processed ++ s.toAlarms ++ s.toEncoder ++ s.toDetector) ∨
              m = { info := { s.inputInfo with frameId := s.frameId, isEOS := 0 }
                    frame := { detectResult := [], imgOrigin := image } } := by
            simpa [FramePath.frameCallback, or_assoc] using hMem
          rcases hNew with hMember | rfl
          · exact hOld m hMember
          · refine ⟨rfl, image, ?_, rfl, rfl⟩
            rw [← inv.counted, List.getElem?_append_right (Nat.le_refl _), Nat.sub_self]
            rfl
    endless := inv.endless
    calls := inv.calls }

/-- A step that passes on some of the messages in front of one engine, in their order, and loses
the others. -/
theorem Inv.pass (inv : Inv env s) (hFlight : (flight after).Sublist (flight s))
    (hDecoded : after.decoded = s.decoded) (hId : after.frameId = s.frameId)
    (hDelivered : after.detector.arrived = after.arrived.length)
    (hQueued : ∀ a ∈ after.detector.inputArgQueue, ∃ m, after.arrived[a.index]? = some m ∧
      Fits s.decoded { m with frame := a.frame })
    (hFits : ∀ m ∈ after.processed ++ after.toAlarms ++ after.toEncoder ++ after.toDetector,
      Fits s.decoded m)
    (hEnded : after.ended = s.ended)
    (hCalls : after.calls = s.calls ∧ after.processed = s.processed ∧ after.engine = s.engine) :
    Inv env after where
  counted := by rw [hDecoded, hId, inv.counted]
  delivered := hDelivered
  queued := by rwa [hDecoded]
  increasing := inv.increasing.sublist hFlight
  decodedBefore := by
    intro i hMem
    rw [hId]
    exact inv.decodedBefore i (hFlight.subset hMem)
  fits := by rwa [hDecoded]
  endless := by rw [hEnded, inv.endless]
  calls := by
    rw [hCalls.1, hCalls.2.1, hCalls.2.2]
    exact inv.calls

/-- An index of the queue stands for the same message after the next one has come. -/
theorem Inv.queuedId (inv : Inv env s) (m : Message) :
    s.detector.inputArgQueue.filterMap (queuedId (s.arrived ++ [m])) =
      s.detector.inputArgQueue.filterMap (queuedId s.arrived) := by
  refine List.filterMap_congr fun a hMem => ?_
  obtain ⟨x, hArrived, -⟩ := inv.queued a hMem
  obtain ⟨hInside, -⟩ := List.getElem?_eq_some_iff.mp hArrived
  rw [FramePath.queuedId, FramePath.queuedId, List.getElem?_append_left hInside]

/-- What is forwarded of the marked batch are frames of the batch in their order. -/
theorem forwarded_ids (cast : ℚ → Int) (rows : List Row) (queue : List Arrival)
    (arrived : List Message) (sends : Nat → Bool) :
    (((SSDDetection.postProcessDetection cast rows queue).filterMap (forward arrived sends)).map
      Message.frameId).Sublist (queue.filterMap (queuedId arrived)) := by
  have hForward : ∀ a, (forward arrived sends a).map Message.frameId =
      if sends a.index then (arrived[a.index]?).map Message.frameId else none := by
    intro a
    rw [forward]
    split_ifs
    · rw [Option.map_map]
      rfl
    · rfl
  have hSent : ((SSDDetection.postProcessDetection cast rows queue).filterMap
        (forward arrived sends)).map Message.frameId =
      (((SSDDetection.postProcessDetection cast rows queue).map Arrival.index).filter
        sends).filterMap fun i => (arrived[i]?).map Message.frameId := by
    rw [List.map_filterMap, List.filterMap_filter, List.filterMap_map]
    exact List.filterMap_congr fun a _ => hForward a
  have hQueue : queue.filterMap (queuedId arrived) =
      (queue.map Arrival.index).filterMap fun i => (arrived[i]?).map Message.frameId := by
    rw [List.filterMap_map]
    rfl
  rw [hSent, hQueue, SSDDetection.postProcess_index]
  exact List.Sublist.filterMap _ List.filter_sublist

theorem foldl_addTo_size (cast : ℚ → Int) (rows : List Row) (arrival : Arrival) :
    (rows.foldl (fun arrival row => row.addTo cast arrival) arrival).frame.imgOrigin.width =
        arrival.frame.imgOrigin.width ∧
      (rows.foldl (fun arrival row => row.addTo cast arrival) arrival).frame.imgOrigin.height =
        arrival.frame.imgOrigin.height := by
  induction rows generalizing arrival with
  | nil => exact ⟨rfl, rfl⟩
  | cons row rest ih =>
      obtain ⟨hWidth, hHeight⟩ := SSDDetection.addTo_size cast row arrival
      obtain ⟨hRestWidth, hRestHeight⟩ := ih (row.addTo cast arrival)
      rw [List.foldl_cons]
      exact ⟨hRestWidth.trans hWidth, hRestHeight.trans hHeight⟩

/-- Marking a frame does not change its size. -/
theorem fits_marked {decoded : List ImageInfo} {cast : ℚ → Int} {rows : List Row}
    {queue : List Arrival} {x : Arrival}
    (hMem : x ∈ SSDDetection.postProcessDetection cast rows queue) :
    ∃ a ∈ queue, x.index = a.index ∧ ∀ m : Message, Fits decoded { m with frame := a.frame } →
      Fits decoded { m with frame := x.frame } := by
  obtain ⟨k, hAt⟩ := List.mem_iff_getElem?.mp hMem
  rw [SSDDetection.postProcessDetection, Scatter.scatter_getElem?, Option.map_eq_some_iff] at hAt
  obtain ⟨a, hQueue, rfl⟩ := hAt
  obtain ⟨hWidth, hHeight⟩ := foldl_addTo_size cast (Scatter.own (Row.slot cast) rows k) a
  refine ⟨a, List.mem_of_getElem? hQueue, (SSDDetection.foldl_addTo cast _ a).1, ?_⟩
  rintro m ⟨hEnd, image, hImage, hSize⟩
  exact ⟨hEnd, image, hImage, hWidth.trans hSize.1, hHeight.trans hSize.2⟩

theorem Inv.detect_kept (inv : Inv env s) {m : Message} {rest : List Message}
    (hNext : s.toDetector = m :: rest)
    (hQueue : ∀ a ∈ s.detector.enqueue m.frame, ∃ x, (s.arrived ++ [m])[a.index]? = some x ∧
      Fits s.decoded { x with frame := a.frame })
    (hIds : (s.detector.enqueue m.frame).filterMap (FramePath.queuedId (s.arrived ++ [m])) =
      s.detector.inputArgQueue.filterMap (FramePath.queuedId s.arrived) ++ [m.frameId])
    (inputData : List UInt8) :
    Inv env { s with
      toDetector := rest
      detector := ⟨s.detector.enqueue m.frame, inputData, s.detector.arrived + 1, []⟩
      arrived := s.arrived ++ [m] } := by
  refine inv.pass ?_ rfl rfl ?_ hQueue ?_ rfl ⟨rfl, rfl, rfl⟩
  · have hFlight : flight { s with
        toDetector := rest
        detector := ⟨s.detector.enqueue m.frame, inputData, s.detector.arrived + 1, []⟩
        arrived := s.arrived ++ [m] } = flight s := by
      simp only [flight, hIds, hNext, List.map_cons, List.append_assoc, List.singleton_append]
    rw [hFlight]
  · show s.detector.arrived + 1 = (s.arrived ++ [m]).length
    rw [List.length_append, inv.delivered]
    rfl
  · intro x hMem
    refine inv.fits x ?_
    simp only [hNext, List.mem_append, List.mem_cons] at hMem ⊢
    tauto

theorem Inv.detect_sent (inv : Inv env s) {m : Message} {rest : List Message}
    (hNext : s.toDetector = m :: rest)
    (hQueue : ∀ a ∈ s.detector.enqueue m.frame, ∃ x, (s.arrived ++ [m])[a.index]? = some x ∧
      Fits s.decoded { x with frame := a.frame })
    (hIds : (s.detector.enqueue m.frame).filterMap (FramePath.queuedId (s.arrived ++ [m])) =
      s.detector.inputArgQueue.filterMap (FramePath.queuedId s.arrived) ++ [m.frameId])
    (inputData : List UInt8) (cast : ℚ → Int) (rows : List Row) (sends : Nat → Bool) :
    Inv env { s with
      toDetector := rest
      detector := ⟨[], inputData, s.detector.arrived + 1,
        SSDDetection.postProcessDetection cast rows (s.detector.enqueue m.frame)⟩
      arrived := s.arrived ++ [m]
      toEncoder := s.toEncoder ++
        (SSDDetection.postProcessDetection cast rows (s.detector.enqueue m.frame)).filterMap
          (forward (s.arrived ++ [m]) sends) } := by
  have hSent := forwarded_ids cast rows (s.detector.enqueue m.frame) (s.arrived ++ [m]) sends
  rw [hIds] at hSent
  refine inv.pass ?_ rfl rfl ?_ (by simp) ?_ rfl ⟨rfl, rfl, rfl⟩
  · simp only [flight, hNext, List.map_append, List.map_cons, List.filterMap_nil,
      List.append_assoc, List.nil_append]
    have hRest := hSent.append (List.Sublist.refl (rest.map Message.frameId))
    rw [List.append_assoc] at hRest
    exact (List.Sublist.refl _).append
      ((List.Sublist.refl _).append ((List.Sublist.refl _).append hRest))
  · show s.detector.arrived + 1 = (s.arrived ++ [m]).length
    rw [List.length_append, inv.delivered]
    rfl
  · intro x hMem
    have hSources : x ∈ s.processed ++ s.toAlarms ++ s.toEncoder ++ rest ∨
        x ∈ (SSDDetection.postProcessDetection cast rows (s.detector.enqueue m.frame)).filterMap
          (forward (s.arrived ++ [m]) sends) := by
      simp only [List.mem_append] at hMem ⊢
      tauto
    rcases hSources with hOld | hNew
    · refine inv.fits x ?_
      simp only [hNext, List.mem_append, List.mem_cons] at hOld ⊢
      tauto
    · obtain ⟨y, hMarked, hForward⟩ := List.mem_filterMap.mp hNew
      obtain ⟨a, hMember, hIndex, hFits⟩ := fits_marked hMarked
      obtain ⟨z, hArrived, fits⟩ := hQueue a hMember
      rw [forward, hIndex, hArrived] at hForward
      split_ifs at hForward
      cases hForward
      exact hFits z fits

theorem Inv.detect (inv : Inv env s) {m : Message} {rest : List Message}
    (hNext : s.toDetector = m :: rest) (resizes : Nat → ResizeOutcome) (succeeds : Bool)
    (sends : Nat → Bool) : Inv env (detect model setup s m rest resizes succeeds sends) := by
  have fits : Fits s.decoded m := inv.fits m (by simp [hNext])
  -- The message that has come is the last one in the queue.
  have hQueue : ∀ a ∈ s.detector.enqueue m.frame, ∃ x, (s.arrived ++ [m])[a.index]? = some x ∧
      Fits s.decoded { x with frame := a.frame } := by
    intro a hMem
    rcases List.mem_append.mp hMem with hOld | hNew
    · obtain ⟨x, hArrived, hFits⟩ := inv.queued a hOld
      obtain ⟨hInside, -⟩ := List.getElem?_eq_some_iff.mp hArrived
      exact ⟨x, by rw [List.getElem?_append_left hInside, hArrived], hFits⟩
    · rw [List.mem_singleton.mp hNew]
      refine ⟨m, ?_, fits⟩
      rw [inv.delivered, List.getElem?_append_right (Nat.le_refl _), Nat.sub_self]
      rfl
  have hIds : (s.detector.enqueue m.frame).filterMap (FramePath.queuedId (s.arrived ++ [m])) =
      s.detector.inputArgQueue.filterMap (FramePath.queuedId s.arrived) ++ [m.frameId] := by
    rw [SSDDetection.enqueue, List.filterMap_append, inv.queuedId]
    simp [FramePath.queuedId, inv.delivered]
  rcases SSDDetection.call_cases setup s.detector ⟨some m.frame, resizes, succeeds⟩ with
    hNone | ⟨frame, hArg, hKept | ⟨hFull, hSucceeds⟩⟩
  · cases hNone
  · cases hArg
    obtain ⟨inputData, hStep⟩ := SSDDetection.step_kept model setup s.detector rfl hKept
    rw [FramePath.detect, hStep, List.filterMap_nil, List.append_nil]
    exact inv.detect_kept hNext hQueue hIds inputData
  · cases hArg
    rw [FramePath.detect, SSDDetection.step_sent model setup s.detector rfl hFull hSucceeds]
    exact inv.detect_sent hNext hQueue hIds _ model.cast _ sends

theorem Inv.encode (inv : Inv env s) {m : Message} {rest : List Message}
    (hNext : s.toEncoder = m :: rest) (jpeg : Option (List UInt8)) (sends : Bool) :
    Inv env (encode s m rest jpeg sends) := by
  have fits : Fits s.decoded m := inv.fits m (by simp [hNext])
  have hOut : ∀ x, x ∈ (encoded m jpeg).toList → x.frameId = m.frameId ∧ Fits s.decoded x := by
    intro x hMem
    rw [encoded, if_neg (not_not.mpr fits.1), Option.mem_toList,
      Option.map_eq_some_iff] at hMem
    obtain ⟨data, -, rfl⟩ := hMem
    exact ⟨rfl, fits⟩
  have hIds : ((if sends then (encoded m jpeg).toList else []).map Message.frameId).Sublist
      [m.frameId] := by
    cases sends with
    | false => simp
    | true =>
        cases hEncoded : encoded m jpeg with
        | none => simp
        | some x =>
            have hSame := (hOut x (by rw [hEncoded]; simp)).1
            simp [hSame]
  refine inv.pass ?_ rfl rfl inv.delivered inv.queued ?_ rfl ⟨rfl, rfl, rfl⟩
  · simp only [flight, FramePath.encode, hNext, List.map_append, List.map_cons,
      List.append_assoc]
    exact (List.Sublist.refl _).append
      ((List.Sublist.refl _).append (hIds.append (List.Sublist.refl _)))
  · intro x hMem
    have hSources : x ∈ s.processed ++ s.toAlarms ++ rest ++ s.toDetector ∨
        x ∈ (encoded m jpeg).toList := by
      cases sends with
      | false => exact Or.inl (by simpa [FramePath.encode] using hMem)
      | true =>
          simp only [FramePath.encode, if_true, List.mem_append] at hMem ⊢
          tauto
    rcases hSources with hOld | hNew
    · exact inv.fits x (by simp only [hNext, List.mem_append, List.mem_cons] at hOld ⊢; tauto)
    · exact (hOut x hNew).2

theorem Inv.alarm (inv : Inv env s) {m : Message} {rest : List Message}
    (hNext : s.toAlarms = m :: rest) (borders : List Border) (opens : Opens)
    (clock : Nat → Stamp) : Inv env (alarm env s m rest borders opens clock) := by
  have fits : Fits s.decoded m := inv.fits m (by simp [hNext])
  have hFlight : flight (FramePath.alarm env s m rest borders opens clock) = flight s := by
    rw [FramePath.alarm, if_neg (not_not.mpr fits.1)]
    simp [flight, hNext]
  rw [FramePath.alarm, if_neg (not_not.mpr fits.1)] at hFlight ⊢
  exact {
    counted := inv.counted
    delivered := inv.delivered
    queued := inv.queued
    increasing := by
      rw [hFlight]
      exact inv.increasing
    decodedBefore := by
      rw [hFlight]
      exact inv.decodedBefore
    fits := fun x hMem => inv.fits x (by simpa [hNext, or_assoc, or_left_comm] using hMem)
    endless := inv.endless
    calls := by
      obtain ⟨hFrames, hEngine⟩ := inv.calls
      dsimp only
      rw [List.map_append, List.map_append, hFrames, Machine.run_concat, ← hEngine]
      exact ⟨rfl, rfl⟩ }

theorem Inv.step (inv : Inv env s) {move : Move}
    (hStep : step model setup env s move = some after) : Inv env after := by
  cases move with
  | packet data =>
      cases hStep
      exact ⟨inv.counted, inv.delivered, inv.queued, inv.increasing, inv.decodedBefore, inv.fits,
        inv.endless, inv.calls⟩
  | frame image sends =>
      cases hStep
      exact inv.frameCallback image sends
  | detect resizes succeeds sends =>
      cases hNext : s.toDetector with
      | nil => simp [FramePath.step, hNext] at hStep
      | cons m rest =>
          simp only [FramePath.step, hNext] at hStep
          cases hStep
          exact inv.detect hNext resizes succeeds sends
  | encode jpeg sends =>
      cases hNext : s.toEncoder with
      | nil => simp [FramePath.step, hNext] at hStep
      | cons m rest =>
          simp only [FramePath.step, hNext] at hStep
          cases hStep
          exact inv.encode hNext jpeg sends
  | alarm borders opens clock =>
      cases hNext : s.toAlarms with
      | nil => simp [FramePath.step, hNext] at hStep
      | cons m rest =>
          simp only [FramePath.step, hNext] at hStep
          cases hStep
          exact inv.alarm hNext borders opens clock

theorem inv_start (info : StreamInfo) (memory : List UInt8) :
    Inv env { inputInfo := info, detector := { inputData := memory } } where
  counted := rfl
  delivered := rfl
  queued := by simp
  increasing := List.Pairwise.nil
  decodedBefore := by simp [flight]
  fits := by simp
  endless := rfl
  calls := ⟨rfl, rfl⟩

/-- Over every interleaving and whatever fails on the way, the alarm engine looks at frames in
the order in which they were decoded, at none of them twice, and at each with the size of its
own image; its state is what these frames have made of it, and no end of the stream ever
reaches it. -/
theorem processed_in_order {info : StreamInfo} {memory : List UInt8} {moves : List Move}
    (hRun : Schedule.run (step model setup env)
      { inputInfo := info, detector := { inputData := memory } } moves = some s) :
    (s.processed.map Message.frameId).Pairwise (· < ·) ∧
      (∀ m ∈ s.processed, Fits s.decoded m) ∧
      s.calls.map Call.frame = s.processed.map Message.frame ∧
      s.engine = Machine.run (DstEngine.step env) {} s.calls ∧ s.ended = 0 := by
  have inv : Inv env s := Schedule.run_rule (motive := fun _ s => Inv env s) (inv_start info memory)
    (fun _ _ _ _ inv hStep => inv.step hStep) hRun
  refine ⟨inv.increasing.sublist ?_, fun m hMem => inv.fits m ?_, inv.calls.1, inv.calls.2,
    inv.endless⟩
  · rw [flight, List.map_append, List.map_append, List.append_assoc, List.append_assoc,
      List.append_assoc]
    exact List.sublist_append_left _ _
  · simp [hMem]

def sampleStart : Path where
  inputInfo := { frameId := 0, format := .h264, channelId := 0, isEOS := 0 }
  detector := { inputData := List.replicate 12 0 }

/-- Three frames are decoded, the first one is lost, and the second one gets to the alarm engine
while the third one is behind it. -/
def sampleMoves : List Move :=
  let image := SSDDetection.blackFrame.imgOrigin
  let scaled := fun _ => ⟨true, none, true⟩
  [.frame image false, .frame image true, .frame image true,
    .detect scaled true fun _ => true, .detect scaled true fun _ => true,
    .encode (some [255]) true, .alarm [] ⟨true, fun _ => true⟩ fun _ => ⟨0, ""⟩]

def sampleEnd : Path :=
  (Schedule.run (step SSDDetection.sampleModel (SSDDetection.sampleSetup 2) DstEngine.sampleEnv)
    sampleStart sampleMoves).getD sampleStart

theorem run_sampleMoves :
    Schedule.run (step SSDDetection.sampleModel (SSDDetection.sampleSetup 2) DstEngine.sampleEnv)
      sampleStart sampleMoves = some sampleEnd := rfl

theorem processed_in_order_sample :
    sampleEnd.processed.map Message.frameId = [1] ∧
      sampleEnd.engine = Machine.run (DstEngine.step DstEngine.sampleEnv) {} sampleEnd.calls :=
  ⟨rfl, (processed_in_order run_sampleMoves).2.2.2.1⟩

end Hengda.FramePath

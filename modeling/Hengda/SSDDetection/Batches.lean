import Hengda.SSDDetection.Detection

/-! Batches over whole runs. Frames are forwarded in order and at most once in
every run; that each of them has been through the model holds as long as every
inference that succeeds is on one frame alone. -/
namespace Hengda

theorem Row.slot_eq_some (cast : ℚ → Int) (row : Row) (k : Nat) :
    row.slot cast = some k ↔ scoreThreshold < row.score ∧ toInt cast row.batch = k := by
  unfold Row.slot
  split_ifs with hCounts
  · rw [Option.some.injEq]
    constructor
    · intro hSlot
      exact ⟨hCounts.1, by omega⟩
    · rintro ⟨_, hSlot⟩
      omega
  · simp only [false_iff]
    rintro ⟨hScore, hSlot⟩
    exact hCounts ⟨hScore, by omega⟩

namespace SSDDetection

section Rows

variable (cast : ℚ → Int)

theorem addTo_size (row : Row) (arrival : Arrival) :
    (row.addTo cast arrival).frame.imgOrigin.width = arrival.frame.imgOrigin.width ∧
      (row.addTo cast arrival).frame.imgOrigin.height = arrival.frame.imgOrigin.height := by
  unfold Row.addTo
  dsimp only
  split_ifs <;> exact ⟨rfl, rfl⟩

/-- Adding rows to a frame appends one detection for each of them, all in the
size of the frame. -/
theorem foldl_addTo (rows : List Row) (arrival : Arrival) :
    let after := rows.foldl (fun arrival row => row.addTo cast arrival) arrival
    after.index = arrival.index ∧
      after.frame.detectResult = arrival.frame.detectResult ++
        rows.map (fun row => row.info cast arrival.frame.imgOrigin.width
          arrival.frame.imgOrigin.height) := by
  induction rows generalizing arrival with
  | nil => simp
  | cons row rest ih =>
      obtain ⟨hIndex, hResult⟩ := ih (row.addTo cast arrival)
      obtain ⟨hWidth, hHeight⟩ := addTo_size cast row arrival
      refine ⟨hIndex, ?_⟩
      rw [List.foldl_cons, hResult, hWidth, hHeight, List.map_cons]
      simp [Row.addTo]

/-- The rows of the slot `k` that count. -/
def rowsOf (rows : List Row) (k : Nat) : List Row :=
  rows.filter (fun row => scoreThreshold < row.score ∧ toInt cast row.batch = k)

theorem own_slot (rows : List Row) (k : Nat) :
    Scatter.own (Row.slot cast) rows k = rowsOf cast rows k := by
  unfold Scatter.own rowsOf
  apply List.filter_congr
  intro row _
  simp [Row.slot_eq_some]

/-- Every entry of the queue keeps its place and gets its own rows. -/
theorem postProcess_getElem? (rows : List Row) (queue : List Arrival) (k : Nat) (x : Arrival)
    (hGet : (postProcessDetection cast rows queue)[k]? = some x) :
    ∃ a, queue[k]? = some a ∧ x.index = a.index ∧
      x.frame.detectResult = a.frame.detectResult ++ (rowsOf cast rows k).map
        (fun row => row.info cast a.frame.imgOrigin.width a.frame.imgOrigin.height) := by
  unfold postProcessDetection at hGet
  rw [Scatter.scatter_getElem?, own_slot, Option.map_eq_some_iff] at hGet
  obtain ⟨a, hQueue, rfl⟩ := hGet
  obtain ⟨hIndex, hResult⟩ := foldl_addTo cast (rowsOf cast rows k) a
  exact ⟨a, hQueue, hIndex, hResult⟩

theorem postProcess_index (rows : List Row) (queue : List Arrival) :
    (postProcessDetection cast rows queue).map Arrival.index = queue.map Arrival.index := by
  apply List.ext_getElem?
  intro k
  rw [List.getElem?_map, List.getElem?_map, postProcessDetection, Scatter.scatter_getElem?,
    Option.map_map]
  congr 1
  funext a
  exact (foldl_addTo cast _ a).1

end Rows

/-- The queue with a frame that has just arrived. -/
def enqueue (s : SSDDetection) (frame : DeviceStreamData) : List Arrival :=
  s.inputArgQueue ++ [⟨s.arrived, frame⟩]

@[simp]
theorem enqueue_length (s : SSDDetection) (frame : DeviceStreamData) :
    (s.enqueue frame).length = s.inputArgQueue.length + 1 := by
  rw [enqueue, List.length_append, List.length_singleton]

@[simp]
theorem enqueue_index (s : SSDDetection) (frame : DeviceStreamData) :
    (s.enqueue frame).map Arrival.index = s.inputArgQueue.map Arrival.index ++ [s.arrived] := by
  rw [enqueue, List.map_append, List.map_singleton]

/-- If the frame that has just arrived is the first one, no other one waits. -/
theorem waiting_eq_nil {s : SSDDetection} {frame : DeviceStreamData} {a : Arrival}
    (hEarlier : ∀ b ∈ s.inputArgQueue, b.index < s.arrived)
    (hFirst : (s.enqueue frame)[0]? = some a) (hIndex : a.index = s.arrived) :
    s.inputArgQueue = [] := by
  cases hWaiting : s.inputArgQueue with
  | nil => rfl
  | cons first rest =>
      rw [enqueue, hWaiting, List.cons_append, List.getElem?_cons_zero, Option.some.injEq] at hFirst
      have hLess := hEarlier first (by rw [hWaiting]; exact List.mem_cons_self)
      rw [hFirst, hIndex] at hLess
      exact absurd hLess (Nat.lt_irrefl _)

/-- The tensor has the bytes from `start` on, as far as it goes. -/
def Holds (tensor : List UInt8) (start : Nat) (bytes : List UInt8) : Prop :=
  ∀ i < bytes.length, start + i < tensor.length → tensor[start + i]? = bytes[i]?

theorem writeFrom_holds (inputData : List UInt8) (start : Nat) (bytes : List UInt8) :
    Holds (writeFrom inputData start bytes) start bytes := by
  intro i hi hInside
  have hCell : (writeFrom inputData start bytes)[start + i]? =
      inputData[start + i]?.map fun _ => bytes[i] := by
    apply Writes.putAll_of_agree
    · refine ⟨((start + i : Nat), bytes[i]), List.mem_map.mpr ⟨(bytes[i], i), ?_, rfl⟩, rfl⟩
      exact List.mk_mem_zipIdx_iff_getElem?.mpr (List.getElem?_eq_getElem hi)
    · rintro write hWrite hHere
      obtain ⟨⟨byte, j⟩, hByte, rfl⟩ := List.mem_map.mp hWrite
      have hIndex : j = i := by
        dsimp only at hHere
        omega
      subst hIndex
      rw [List.mk_mem_zipIdx_iff_getElem?, List.getElem?_eq_getElem hi] at hByte
      exact (Option.some.inj hByte).symm
  rw [List.getElem?_eq_getElem hInside] at hCell ⊢
  obtain ⟨_, _, hByte⟩ := Option.map_eq_some_iff.mp hCell.symm
  rw [← hByte, List.getElem?_eq_getElem hi]

section OneCall

variable (model : Model) (setup : Setup)

/-- The frame in place `k` of the queue is an input of the inference of the call: there
is such a slot in the tensor, its picture has been scaled, and the bytes that it got
begin where the slot does and end in the buffer. -/
def IsInput (d : Delivery) (queue : List Arrival) (k : Nat) : Prop :=
  k < setup.kBatchSize ∧ (d.resizes k).Scaled ∧
    ∃ range, (resizeRanges setup.kInputSize 0 queue)[k]? = some range ∧
      range.1 = k * (setup.kInputSize / setup.kBatchSize) ∧ range.1 < range.2 ∧
      ∀ bufferSize ∈ setup.inputDataBuffer, range.2 ≤ bufferSize

/-- Each frame that the call forwards was one of the inputs of a successful
inference of the same call, which found its picture in its slot, and has exactly the
rows of this slot added to its detections. -/
def FaithfulCall (t : Machine.Transition SSDDetection Delivery) : Prop :=
  ∀ x ∈ t.after.sent, ∃ frame, t.input.arg = some frame ∧ t.input.succeeds = true ∧
    let queue := t.before.enqueue frame
    let tensor := resizeLoop model setup t.input queue t.before.inputData
    ∃ k a, IsInput setup t.input queue k ∧ queue[k]? = some a ∧ x.index = a.index ∧
      Holds tensor (k * (setup.kInputSize / setup.kBatchSize))
        (vpcResize model.dvppCtl (t.input.resizes k) a.frame.imgOrigin setup.kWidth
          setup.kHeight).2 ∧
      x.frame.detectResult = a.frame.detectResult ++
        (rowsOf model.cast (model.infer tensor) k).map
          (fun row => row.info model.cast a.frame.imgOrigin.width a.frame.imgOrigin.height)

/-- The buffer has room for the first frame only, since the loop advances by its whole
size. -/
theorem isInput_iff {setup : Setup} (hBuffer : setup.inputDataBuffer = [setup.kInputSize])
    {d : Delivery} {queue : List Arrival} {k : Nat} :
    IsInput setup d queue k ↔ (k = 0 ∧ 0 < queue.length) ∧ 0 < setup.kBatchSize ∧
      0 < setup.kInputSize ∧ (d.resizes 0).Scaled := by
  unfold IsInput
  rw [hBuffer]
  simp only [List.forall_mem_singleton, resizeRanges_getElem?, Nat.zero_add]
  constructor
  · rintro ⟨hSlot, hScaled, range, hRange, -, hSome, hInside⟩
    split_ifs at hRange with hPlace
    cases hRange
    rw [Nat.add_mul, Nat.one_mul] at hSome hInside
    have hSize : 0 < setup.kInputSize := by omega
    have hFirst : k = 0 := by
      rcases Nat.eq_zero_or_pos k with hZero | hPos
      · exact hZero
      · have hBehind := Nat.le_mul_of_pos_left setup.kInputSize hPos
        omega
    subst hFirst
    exact ⟨⟨rfl, hPlace⟩, hSlot, hSize, hScaled⟩
  · rintro ⟨⟨rfl, hPlace⟩, hBatch, hSize, hScaled⟩
    refine ⟨hBatch, hScaled, _, if_pos hPlace, ?_⟩
    simpa using hSize

variable (s : SSDDetection) {d : Delivery} {frame : DeviceStreamData}

theorem step_none (hArg : d.arg = none) : step model setup s d = { s with sent := [] } := by
  rw [step, process, hArg]

/-- A frame waits if the batch is not complete or the inference on it fails. -/
theorem step_kept (hArg : d.arg = some frame)
    (hKept : s.inputArgQueue.length + 1 < setup.kBatchSize ∨ d.succeeds = false) :
    ∃ inputData, step model setup s d = ⟨s.enqueue frame, inputData, s.arrived + 1, []⟩ := by
  have hLength := enqueue_length s frame
  unfold enqueue at hLength ⊢
  rw [step, process, hArg]
  dsimp only
  rw [hLength]
  split_ifs with hWaiting hFailed
  · exact ⟨_, rfl⟩
  · exact ⟨_, rfl⟩
  · exact absurd hKept (not_or.mpr ⟨hWaiting, hFailed⟩)

theorem step_sent (hArg : d.arg = some frame)
    (hFull : setup.kBatchSize ≤ s.inputArgQueue.length + 1) (hSucceeds : d.succeeds = true) :
    let tensor := resizeLoop model setup d (s.enqueue frame) s.inputData
    step model setup s d = ⟨[], tensor, s.arrived + 1,
      postProcessDetection model.cast (model.infer tensor) (s.enqueue frame)⟩ := by
  have hLength := enqueue_length s frame
  unfold enqueue at hLength ⊢
  rw [step, process, hArg]
  dsimp only
  rw [hLength, if_neg (Nat.not_lt.mpr hFull), if_neg (by rw [hSucceeds]; decide)]

/-- The three ways in which a call can end. -/
theorem call_cases (d : Delivery) :
    d.arg = none ∨ ∃ frame, d.arg = some frame ∧
      ((s.inputArgQueue.length + 1 < setup.kBatchSize ∨ d.succeeds = false) ∨
        (setup.kBatchSize ≤ s.inputArgQueue.length + 1 ∧ d.succeeds = true)) := by
  cases hArg : d.arg with
  | none => exact Or.inl rfl
  | some frame =>
      refine Or.inr ⟨frame, rfl, ?_⟩
      rcases Nat.lt_or_ge (s.inputArgQueue.length + 1) setup.kBatchSize with hWaiting | hFull
      · exact Or.inl (Or.inl hWaiting)
      · cases hSucceeds : d.succeeds with
        | false => exact Or.inl (Or.inr rfl)
        | true => exact Or.inr ⟨hFull, rfl⟩

end OneCall

/-- A model that finds nothing, and a scaler that makes a picture of six bytes. -/
def sampleModel : Model where
  dvppCtl := fun _ data => data.take 6
  infer := fun _ => []
  cast := fun _ => 0

/-- Batches of the given size. -/
def sampleDims (batch : Nat) : TensorDimension :=
  ⟨batch, 3, 1, 1, 6 * batch⟩

def sampleSetup (batch : Nat) : Setup :=
  ⟨batch, 3, 1, 1, 6 * batch, 128, 16, [6 * batch], [28]⟩

theorem sampleSetup_init (batch : Nat) :
    init ⟨true, true, fun _ => true, fun _ => true⟩ [sampleDims batch] [⟨1, 7, 1, 1, 28⟩] =
      some (sampleSetup batch) := by
  simp [init, creatIOTensors, createTensors, sampleDims, sampleSetup, alignUp]

def blackFrame : DeviceStreamData :=
  { detectResult := []
    imgOrigin := ⟨2, 2, [0, 0, 0, 0, 0, 0]⟩ }

def sampleDelivery (succeeds : Bool) : Delivery where
  arg := some blackFrame
  resizes := fun _ => ⟨true, none, true⟩
  succeeds := succeeds

section Runs

variable (model : Model) (setup : Setup) (memory : List UInt8)

/-- The history of the detector, from an empty queue and a buffer with any contents. -/
def calls (ds : List Delivery) : List (Machine.Transition SSDDetection Delivery) :=
  Machine.history (step model setup) { inputData := memory } ds

/-- The detector after the deliveries. -/
def after (ds : List Delivery) : SSDDetection :=
  Machine.run (step model setup) { inputData := memory } ds

/-- The frames that a run forwards, in order. -/
def forwarded (past : List (Machine.Transition SSDDetection Delivery)) : List Arrival :=
  past.flatMap fun t => t.after.sent

/-- The outcomes of the inference for the calls that got a frame. -/
def outcomes (deliveries : List Delivery) : List Bool :=
  deliveries.filterMap fun d => d.arg.map fun _ => d.succeeds

theorem calls_concat (ds : List Delivery) (d : Delivery) :
    calls model setup memory (ds ++ [d]) = calls model setup memory ds ++
      [⟨after model setup memory ds, d, step model setup (after model setup memory ds) d⟩] :=
  Machine.history_concat (step model setup) { inputData := memory } ds d

theorem after_concat (ds : List Delivery) (d : Delivery) :
    after model setup memory (ds ++ [d]) = step model setup (after model setup memory ds) d :=
  Machine.run_concat (step model setup) { inputData := memory } ds d

theorem forwarded_concat (ds : List Delivery) (d : Delivery) :
    forwarded (calls model setup memory (ds ++ [d])) =
      forwarded (calls model setup memory ds) ++
        (step model setup (after model setup memory ds) d).sent := by
  rw [calls_concat, forwarded, List.flatMap_append, List.flatMap_singleton]
  rfl

theorem outcomes_concat_none (ds : List Delivery) {d : Delivery} (hArg : d.arg = none) :
    outcomes (ds ++ [d]) = outcomes ds := by
  simp [outcomes, List.filterMap_append, hArg]

theorem outcomes_concat_some (ds : List Delivery) {d : Delivery} {frame : DeviceStreamData}
    (hArg : d.arg = some frame) : outcomes (ds ++ [d]) = outcomes ds ++ [d.succeeds] := by
  simp [outcomes, List.filterMap_append, hArg]

/-- The frames that have been forwarded and those that wait are all that have
arrived, each once and in the order of arrival. -/
theorem forwarded_waiting (ds : List Delivery) :
    (forwarded (calls model setup memory ds) ++
        (after model setup memory ds).inputArgQueue).map Arrival.index =
      List.range (after model setup memory ds).arrived := by
  induction ds using List.reverseRecOn with
  | nil => rfl
  | append_singleton ds d ih =>
      have hNext : ∀ frame, (forwarded (calls model setup memory ds)).map Arrival.index ++
          ((after model setup memory ds).enqueue frame).map Arrival.index =
            List.range ((after model setup memory ds).arrived + 1) := by
        intro frame
        rw [enqueue_index, ← List.append_assoc, ← List.map_append, ih, List.range_succ]
      rw [forwarded_concat, after_concat]
      rcases call_cases setup (after model setup memory ds) d with
        hArg | ⟨frame, hArg, hKept | ⟨hFull, hSucceeds⟩⟩
      · rw [step_none model setup _ hArg, List.append_nil]
        exact ih
      · obtain ⟨inputData, hStep⟩ :=
          step_kept model setup (after model setup memory ds) hArg hKept
        rw [hStep, List.append_nil, List.map_append]
        exact hNext frame
      · rw [step_sent model setup _ hArg hFull hSucceeds, List.append_nil, List.map_append,
          postProcess_index]
        exact hNext frame

theorem waiting_earlier (ds : List Delivery) {a : Arrival}
    (ha : a ∈ (after model setup memory ds).inputArgQueue) :
    a.index < (after model setup memory ds).arrived := by
  rw [← List.mem_range, ← forwarded_waiting]
  exact List.mem_map_of_mem (List.mem_append_right _ ha)

theorem forwarded_ordered (ds : List Delivery) :
    ((forwarded (calls model setup memory ds)).map Arrival.index).Pairwise (· < ·) := by
  have hAll : (List.range (after model setup memory ds).arrived).Pairwise (· < ·) :=
    List.pairwise_lt_range
  rw [← forwarded_waiting, List.map_append, List.pairwise_append] at hAll
  exact hAll.1

theorem arrived_kept (ds : List Delivery) (i : Nat)
    (hi : i < (after model setup memory ds).arrived) :
    i ∈ (forwarded (calls model setup memory ds)).map Arrival.index ∨
      i ∈ (after model setup memory ds).inputArgQueue.map Arrival.index := by
  rw [← List.mem_range, ← forwarded_waiting, List.map_append, List.mem_append] at hi
  exact hi

/-- The inference of a call is on one frame, which has been scaled into the buffer: the
tensor has one slot, and all inferences before have succeeded. -/
structure Alone (past : List Delivery) (d : Delivery) : Prop where
  batch : setup.kBatchSize = 1
  room : 0 < setup.kInputSize
  scaled : (d.resizes 0).Scaled
  paid : ∀ outcome ∈ outcomes past, outcome = true

/-- Every inference that succeeds is on one frame. Before that many frames as a batch
has, there is no inference. -/
def OneByOne (ds : List Delivery) : Prop :=
  ∀ past d, past ++ [d] <+: ds → d.arg.isSome = true → d.succeeds = true →
    setup.kBatchSize ≤ (outcomes past).length + 1 → Alone setup past d

theorem oneByOne_concat {ds : List Delivery} {d : Delivery} :
    OneByOne setup (ds ++ [d]) ↔ OneByOne setup ds ∧
      (d.arg.isSome = true → d.succeeds = true →
        setup.kBatchSize ≤ (outcomes ds).length + 1 → Alone setup ds d) := by
  constructor
  · intro h
    exact ⟨fun past e hPrefix => h past e (hPrefix.trans (List.prefix_append ds [d])),
      h ds d (List.prefix_refl _)⟩
  · rintro ⟨hEarlier, hLast⟩ past e hPrefix
    rcases List.prefix_concat_iff.mp hPrefix with hSame | hPrefix
    · obtain ⟨rfl, hEnd⟩ := List.append_inj' hSame rfl
      cases hEnd
      exact hLast
    · exact hEarlier past e hPrefix

/-- With one slot it is enough that nothing fails. -/
theorem oneByOne_of_succeeds {setup : Setup} (hBatch : setup.kBatchSize = 1)
    (hRoom : 0 < setup.kInputSize) {ds : List Delivery}
    (hAll : ∀ d ∈ ds, d.succeeds = true ∧ (d.resizes 0).Scaled) : OneByOne setup ds := by
  intro past d hPrefix _ _ _
  refine ⟨hBatch, hRoom, (hAll d (hPrefix.subset (by simp))).2, ?_⟩
  intro outcome mem
  obtain ⟨e, hEarlier, hOutcome⟩ := List.mem_filterMap.mp mem
  obtain ⟨_, -, rfl⟩ := Option.map_eq_some_iff.mp hOutcome
  exact (hAll e (hPrefix.subset (List.mem_append_left _ hEarlier))).1

/-- How the queue and the outcomes go together as long as every frame that has been
forwarded was an input. -/
structure InStep (ds : List Delivery) : Prop where
  one : setup.kBatchSize = 1 → ((after model setup memory ds).inputArgQueue = [] ↔
    ∀ outcome ∈ outcomes ds, outcome = true)
  many : setup.kBatchSize ≠ 1 →
    (after model setup memory ds).inputArgQueue.length = (outcomes ds).length

variable {model setup memory}

/-- The last frame of the queue goes out as well, and only the first one can have been an
input. -/
theorem faithfulCall_sent_iff (hBuffer : setup.inputDataBuffer = [setup.kInputSize])
    {ds : List Delivery} {d : Delivery} {frame : DeviceStreamData} (hArg : d.arg = some frame)
    (hFull : setup.kBatchSize ≤ (after model setup memory ds).inputArgQueue.length + 1)
    (hSucceeds : d.succeeds = true) :
    FaithfulCall model setup ⟨after model setup memory ds, d,
        step model setup (after model setup memory ds) d⟩ ↔
      (setup.kBatchSize = 1 ∧ 0 < setup.kInputSize ∧ (d.resizes 0).Scaled) ∧
        (after model setup memory ds).inputArgQueue = [] := by
  have hEarlier : ∀ a ∈ (after model setup memory ds).inputArgQueue, a.index < _ :=
    fun a mem => waiting_earlier model setup memory ds mem
  unfold FaithfulCall
  generalize after model setup memory ds = s at hFull hEarlier
  have hStep := step_sent model setup s hArg hFull hSucceeds
  dsimp only at hStep ⊢
  rw [hStep]
  constructor
  · intro hFaithful
    have hLast : s.arrived ∈ (postProcessDetection model.cast (model.infer
        (resizeLoop model setup d (s.enqueue frame) s.inputData)) (s.enqueue frame)).map
          Arrival.index := by
      rw [postProcess_index, enqueue_index]
      exact List.mem_append_right _ (List.mem_singleton_self _)
    obtain ⟨x, hx, hArrived⟩ := List.mem_map.mp hLast
    obtain ⟨other, hOther, -, k, a, hInput, hQueue, hIndex, -⟩ := hFaithful x hx
    rw [hArg] at hOther
    cases hOther
    obtain ⟨⟨rfl, -⟩, hBatch, hSize, hScaled⟩ := (isInput_iff hBuffer).mp hInput
    have hEmpty := waiting_eq_nil hEarlier hQueue (hIndex.symm.trans hArrived)
    rw [hEmpty, List.length_nil] at hFull
    exact ⟨⟨by omega, hSize, hScaled⟩, hEmpty⟩
  · rintro ⟨⟨hBatch, hSize, hScaled⟩, hEmpty⟩ x hx
    refine ⟨frame, hArg, hSucceeds, ?_⟩
    obtain ⟨k, hGet⟩ := List.mem_iff_getElem?.mp hx
    obtain ⟨a, hQueue, hIndex, hResult⟩ := postProcess_getElem? _ _ _ k x hGet
    have hOnly : s.enqueue frame = [⟨s.arrived, frame⟩] := by rw [enqueue, hEmpty]; rfl
    have hFirst : k = 0 := by
      have hLess := (List.getElem?_eq_some_iff.mp hQueue).1
      rw [hOnly, List.length_singleton] at hLess
      omega
    subst hFirst
    have hInput : IsInput setup d (s.enqueue frame) 0 := by
      rw [isInput_iff hBuffer, hOnly]
      exact ⟨⟨rfl, Nat.one_pos⟩, by omega, hSize, hScaled⟩
    refine ⟨0, a, hInput, hQueue, hIndex, ?_, hResult⟩
    rw [hOnly] at hQueue ⊢
    cases hQueue
    rw [Nat.zero_mul]
    exact writeFrom_holds s.inputData 0 _

/-- A call that forwards nothing does no harm. -/
theorem faithfulCall_silent {t : Machine.Transition SSDDetection Delivery}
    (hSilent : t.after.sent = []) : FaithfulCall model setup t := by
  intro x hx
  rw [hSilent] at hx
  cases hx

/-- The call is faithful if and only if its inference, should it succeed, is on one frame. -/
theorem InStep.faithfulCall_iff (hBuffer : setup.inputDataBuffer = [setup.kInputSize])
    {ds : List Delivery} (h : InStep model setup memory ds) (d : Delivery) :
    FaithfulCall model setup ⟨after model setup memory ds, d,
        step model setup (after model setup memory ds) d⟩ ↔
      (d.arg.isSome = true → d.succeeds = true →
        setup.kBatchSize ≤ (outcomes ds).length + 1 → Alone setup ds d) := by
  rcases call_cases setup (after model setup memory ds) d with
    hArg | ⟨frame, hArg, hKept | ⟨hFull, hSucceeds⟩⟩
  · have hSilent : (step model setup (after model setup memory ds) d).sent = [] := by
      rw [step_none model setup _ hArg]
    apply iff_of_true (faithfulCall_silent hSilent)
    intro hFrame
    rw [hArg] at hFrame
    cases hFrame
  · obtain ⟨inputData, hStep⟩ := step_kept model setup (after model setup memory ds) hArg hKept
    have hSilent : (step model setup (after model setup memory ds) d).sent = [] := by rw [hStep]
    apply iff_of_true (faithfulCall_silent hSilent)
    intro _ hSucceeds hDue
    rcases hKept with hWaiting | hFailed
    · have hMany := h.many (by omega)
      omega
    · rw [hFailed] at hSucceeds
      cases hSucceeds
  · rw [faithfulCall_sent_iff hBuffer hArg hFull hSucceeds]
    constructor
    · rintro ⟨⟨hBatch, hSize, hScaled⟩, hEmpty⟩ _ _ _
      exact ⟨hBatch, hSize, hScaled, (h.one hBatch).mp hEmpty⟩
    · intro hAlone
      have hDue : setup.kBatchSize ≤ (outcomes ds).length + 1 := by
        by_cases hBatch : setup.kBatchSize = 1
        · omega
        · have hMany := h.many hBatch
          omega
      have alone := hAlone (by rw [hArg]; rfl) hSucceeds hDue
      exact ⟨⟨alone.batch, alone.room, alone.scaled⟩, (h.one alone.batch).mpr alone.paid⟩

theorem InStep.next (hBuffer : setup.inputDataBuffer = [setup.kInputSize])
    {ds : List Delivery} (h : InStep model setup memory ds) {d : Delivery}
    (hFaithful : FaithfulCall model setup ⟨after model setup memory ds, d,
      step model setup (after model setup memory ds) d⟩) :
    InStep model setup memory (ds ++ [d]) := by
  rcases call_cases setup (after model setup memory ds) d with
    hArg | ⟨frame, hArg, hKept | ⟨hFull, hSucceeds⟩⟩
  · constructor
    · rw [after_concat, step_none model setup _ hArg, outcomes_concat_none ds hArg]
      exact h.one
    · rw [after_concat, step_none model setup _ hArg, outcomes_concat_none ds hArg]
      exact h.many
  · obtain ⟨inputData, hStep⟩ := step_kept model setup (after model setup memory ds) hArg hKept
    rw [← after_concat] at hStep
    constructor
    · intro hBatch
      have hFailed : d.succeeds = false := hKept.resolve_left (by omega)
      rw [hStep, outcomes_concat_some ds hArg, hFailed]
      apply iff_of_false (by simp [enqueue])
      intro hAll
      cases hAll false (List.mem_append_right _ (List.mem_singleton_self _))
    · intro hBatch
      rw [hStep, outcomes_concat_some ds hArg, enqueue_length, List.length_append, h.many hBatch]
      rfl
  · obtain ⟨⟨hBatch, -⟩, hEmpty⟩ :=
      (faithfulCall_sent_iff hBuffer hArg hFull hSucceeds).mp hFaithful
    constructor
    · intro _
      rw [after_concat, step_sent model setup _ hArg hFull hSucceeds,
        outcomes_concat_some ds hArg, hSucceeds]
      apply iff_of_true rfl
      rw [List.forall_mem_append, List.forall_mem_singleton]
      exact ⟨(h.one hBatch).mp hEmpty, rfl⟩
    · intro hMany
      exact absurd hBatch hMany

/-- Up to the first frame that has not been an input, the queue and the outcomes go
together, so the two conditions fail in the same call. -/
theorem faithful_iff (hBuffer : setup.inputDataBuffer = [setup.kInputSize])
    (ds : List Delivery) :
    (∀ t ∈ calls model setup memory ds, FaithfulCall model setup t) ↔ OneByOne setup ds := by
  have hBoth : ((∀ t ∈ calls model setup memory ds, FaithfulCall model setup t) ↔
      OneByOne setup ds) ∧ ((∀ t ∈ calls model setup memory ds, FaithfulCall model setup t) →
        InStep model setup memory ds) := by
    induction ds using List.reverseRecOn with
    | nil =>
        refine ⟨iff_of_true (by rintro t ⟨⟩) ?_, fun _ => ⟨fun _ => ?_, fun _ => rfl⟩⟩
        · intro past d hPrefix
          cases List.append_ne_nil_of_right_ne_nil past (List.cons_ne_nil d [])
            (List.prefix_nil.mp hPrefix)
        · exact iff_of_true rfl (by rintro outcome ⟨⟩)
    | append_singleton ds d ih =>
        obtain ⟨hIff, hInStep⟩ := ih
        rw [calls_concat, List.forall_mem_append, List.forall_mem_singleton, oneByOne_concat]
        refine ⟨?_, fun hAll => (hInStep hAll.1).next hBuffer hAll.2⟩
        rw [hIff]
        apply and_congr_right
        intro hEarlier
        exact (hInStep (hIff.mpr hEarlier)).faithfulCall_iff hBuffer d
  exact hBoth.1

variable (model setup memory)

/-- Nothing is lost, duplicated or skipped: each forwarded frame was an input
of the inference of its call and has the rows of its own slot, the frames go
out in the order of arrival and at most once, and a frame that has arrived has
gone out or waits. -/
structure Lossless (ds : List Delivery) : Prop where
  faithful : ∀ t ∈ calls model setup memory ds, FaithfulCall model setup t
  ordered : ((forwarded (calls model setup memory ds)).map Arrival.index).Pairwise (· < ·)
  kept : ∀ i < (after model setup memory ds).arrived,
    i ∈ (forwarded (calls model setup memory ds)).map Arrival.index ∨
      i ∈ (after model setup memory ds).inputArgQueue.map Arrival.index

/-- The detector loses and skips nothing exactly as long as every inference that succeeds is
on one frame. -/
theorem lossless_iff {outcome : InitOutcome}
    {inputTensorDims outputTensorDims : List TensorDimension}
    (hInit : init outcome inputTensorDims outputTensorDims = some setup) (ds : List Delivery) :
    Lossless model setup memory ds ↔ OneByOne setup ds := by
  obtain ⟨dims, -, -, hSize, hBuffer⟩ := init_spec hInit
  rw [← hSize] at hBuffer
  rw [← faithful_iff hBuffer]
  constructor
  · intro hLossless
    exact hLossless.faithful
  · intro hFaithful
    exact ⟨hFaithful, forwarded_ordered model setup memory ds, arrived_kept model setup memory ds⟩

end Runs

/-- Two frames and nothing that fails. -/
theorem lossless_iff_sample : Lossless sampleModel (sampleSetup 1) (List.replicate 6 0)
    [sampleDelivery true, sampleDelivery true] := by
  apply (lossless_iff sampleModel (sampleSetup 1) _ (sampleSetup_init 1) _).mpr
  exact oneByOne_of_succeeds rfl (by decide) (by simp [sampleDelivery, ResizeOutcome.Scaled])

/-- A frame that arrives after a failed inference, the second frame of a batch, and a frame
that the scaler has refused go out without having been an input. -/
theorem frame_skipsInference :
    ¬ Lossless sampleModel (sampleSetup 1) (List.replicate 6 0)
        [sampleDelivery false, sampleDelivery true] ∧
      ¬ Lossless sampleModel (sampleSetup 2) (List.replicate 12 0)
        [sampleDelivery true, sampleDelivery true] ∧
      ¬ Lossless sampleModel (sampleSetup 1) (List.replicate 6 0)
        [{ sampleDelivery true with resizes := fun _ => ⟨false, none, true⟩ }] := by
  refine ⟨fun hLossless => ?_, fun hLossless => ?_, fun hLossless => ?_⟩
  · have alone := (faithful_iff rfl _).mp hLossless.faithful [sampleDelivery false]
      (sampleDelivery true) (List.prefix_refl _) rfl rfl (by decide)
    cases alone.paid false (List.mem_singleton_self _)
  · have alone := (faithful_iff rfl _).mp hLossless.faithful [sampleDelivery true]
      (sampleDelivery true) (List.prefix_refl _) rfl rfl (by decide)
    cases alone.batch
  · have alone := (faithful_iff rfl _).mp hLossless.faithful []
      { sampleDelivery true with resizes := fun _ => ⟨false, none, true⟩ }
      (List.prefix_refl _) rfl rfl (by decide)
    cases alone.scaled.1

end SSDDetection
end Hengda

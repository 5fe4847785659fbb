import Hengda.SSDDetection.Batches

/-! The resize loop over whole runs. The buffer of the input tensor is allocated in
the size of the whole batch, and the loop that fills it advances by that size for every
frame of the queue. -/
namespace Hengda.SSDDetection

variable (model : Model) (setup : Setup) (memory : List UInt8)

/-- The queue that the call resizes, if it gets as far as the loop. -/
def resized (s : SSDDetection) (d : Delivery) : Option (List Arrival) :=
  match d.arg with
  | none => none
  | some frame =>
      if (s.enqueue frame).length < setup.kBatchSize then none else some (s.enqueue frame)

/-- Whenever the loop runs, the queue is one batch. -/
def WholeBatches (ds : List Delivery) : Prop :=
  ∀ t ∈ calls model setup memory ds, ∀ queue, resized setup t.before t.input = some queue →
    queue.length = setup.kBatchSize

/-- Whenever the loop runs, every frame gets bytes of the buffer. -/
def InBuffer (bufferSize : Nat) (ds : List Delivery) : Prop :=
  ∀ t ∈ calls model setup memory ds, ∀ queue, resized setup t.before t.input = some queue →
    ∀ range ∈ resizeRanges setup.kInputSize 0 queue, range.2 ≤ bufferSize

/-- No frame arrives after an inference that has failed. The inferences of full
batches are due with the frames `B - 1`, `2 * B - 1` and so on. -/
def FailsLast (B : Nat) (outcomes : List Bool) : Prop :=
  ∀ i, i + 1 < outcomes.length → (i + 1) % B = 0 → outcomes[i]? = some true

theorem wholeBatches_concat {ds : List Delivery} {d : Delivery} :
    WholeBatches model setup memory (ds ++ [d]) ↔ WholeBatches model setup memory ds ∧
      ∀ queue, resized setup (after model setup memory ds) d = some queue →
        queue.length = setup.kBatchSize := by
  unfold WholeBatches
  rw [calls_concat, List.forall_mem_append, List.forall_mem_singleton]

theorem resized_none {s : SSDDetection} {d : Delivery} (hArg : d.arg = none) :
    resized setup s d = none := by
  rw [resized, hArg]

theorem resized_some {s : SSDDetection} {d : Delivery} {frame : DeviceStreamData}
    (hArg : d.arg = some frame) : resized setup s d =
      if s.inputArgQueue.length + 1 < setup.kBatchSize then none else some (s.enqueue frame) := by
  rw [resized, hArg]
  dsimp only
  rw [enqueue_length]

theorem FailsLast.of_concat {B : Nat} {outcomes : List Bool} {last : Bool}
    (h : FailsLast B (outcomes ++ [last])) : FailsLast B outcomes := by
  intro i hi hDue
  have hOutcome := h i (by rw [List.length_append]; omega) hDue
  rwa [List.getElem?_append_left (by omega)] at hOutcome

/-- All inferences that were due have succeeded. -/
def Paid (B : Nat) (outcomes : List Bool) : Prop :=
  ∀ i < outcomes.length, (i + 1) % B = 0 → outcomes[i]? = some true

/-- One more outcome can be anything. -/
theorem Paid.failsLast {B : Nat} {outcomes : List Bool} (hPaid : Paid B outcomes) (last : Bool) :
    FailsLast B (outcomes ++ [last]) := by
  intro i hi hDue
  rw [List.length_append, List.length_singleton] at hi
  rw [List.getElem?_append_left (by omega)]
  exact hPaid i (by omega) hDue

/-- One more outcome keeps the batches paid for, if it is a success wherever
it completes a batch. -/
theorem Paid.concat {B : Nat} {outcomes : List Bool} {last : Bool} (hPaid : Paid B outcomes)
    (hLast : (outcomes.length + 1) % B = 0 → last = true) : Paid B (outcomes ++ [last]) := by
  intro i hi hDue
  rw [List.length_append, List.length_singleton] at hi
  rcases Nat.lt_succ_iff_lt_or_eq.mp hi with hEarlier | rfl
  · rw [List.getElem?_append_left hEarlier]
    exact hPaid i hEarlier hDue
  · rw [List.getElem?_concat_length, hLast hDue]

/-- The queue has not reached a full batch since it was last cleared. -/
structure Collecting (ds : List Delivery) : Prop where
  whole : WholeBatches model setup memory ds
  room : (after model setup memory ds).inputArgQueue.length < setup.kBatchSize
  phase : (after model setup memory ds).inputArgQueue.length =
    (outcomes ds).length % setup.kBatchSize
  paid : Paid setup.kBatchSize (outcomes ds)

/-- An inference on a full batch has just failed. -/
structure JustFailed (ds : List Delivery) : Prop where
  whole : WholeBatches model setup memory ds
  full : (after model setup memory ds).inputArgQueue.length = setup.kBatchSize
  last : FailsLast setup.kBatchSize (outcomes ds)
  failed : ∃ i, i + 1 = (outcomes ds).length ∧ (i + 1) % setup.kBatchSize = 0 ∧
    (outcomes ds)[i]? = some false

/-- A queue of more than one batch has been resized. -/
structure Overfull (ds : List Delivery) : Prop where
  more : ¬ WholeBatches model setup memory ds
  early : ¬ FailsLast setup.kBatchSize (outcomes ds)

variable {model setup memory}

section Phases

variable {ds : List Delivery} {d : Delivery} {frame : DeviceStreamData}

theorem Collecting.failsLast (h : Collecting model setup memory ds) :
    FailsLast setup.kBatchSize (outcomes ds) :=
  fun i hi hDue => h.paid i (by omega) hDue

theorem WholeBatches.skip (h : WholeBatches model setup memory ds) (hArg : d.arg = none) :
    WholeBatches model setup memory (ds ++ [d]) := by
  refine (wholeBatches_concat model setup memory).mpr ⟨h, ?_⟩
  intro queue hQueue
  rw [resized_none setup hArg] at hQueue
  cases hQueue

theorem Collecting.skip (h : Collecting model setup memory ds) (hArg : d.arg = none) :
    Collecting model setup memory (ds ++ [d]) := by
  have hQueue : (after model setup memory (ds ++ [d])).inputArgQueue =
      (after model setup memory ds).inputArgQueue := by
    rw [after_concat, step_none model setup _ hArg]
  exact
    { whole := h.whole.skip hArg
      room := by rw [hQueue]; exact h.room
      phase := by rw [hQueue, outcomes_concat_none ds hArg]; exact h.phase
      paid := by rw [outcomes_concat_none ds hArg]; exact h.paid }

/-- A queue with room for one more frame is not longer than a batch with it. -/
theorem Collecting.whole_next (h : Collecting model setup memory ds) (hArg : d.arg = some frame) :
    WholeBatches model setup memory (ds ++ [d]) := by
  have hRoom := h.room
  refine (wholeBatches_concat model setup memory).mpr ⟨h.whole, ?_⟩
  intro queue hQueue
  rw [resized_some setup hArg] at hQueue
  split_ifs at hQueue with hWaiting
  cases hQueue
  rw [enqueue_length]
  omega

/-- The number of outcomes, counted within a batch, is the length of the queue. -/
theorem Collecting.count_wait (h : Collecting model setup memory ds)
    (hWaiting : (after model setup memory ds).inputArgQueue.length + 1 < setup.kBatchSize) :
    ((outcomes ds).length + 1) % setup.kBatchSize =
      (after model setup memory ds).inputArgQueue.length + 1 := by
  rw [Nat.add_mod, ← h.phase, Nat.mod_eq_of_lt (show 1 < setup.kBatchSize by omega),
    Nat.mod_eq_of_lt hWaiting]

theorem Collecting.count_full (h : Collecting model setup memory ds)
    (hFull : (after model setup memory ds).inputArgQueue.length + 1 = setup.kBatchSize) :
    ((outcomes ds).length + 1) % setup.kBatchSize = 0 := by
  rw [Nat.add_mod, ← h.phase, Nat.add_mod_mod, hFull, Nat.mod_self]

theorem Collecting.wait (h : Collecting model setup memory ds) (hArg : d.arg = some frame)
    (hWaiting : (after model setup memory ds).inputArgQueue.length + 1 < setup.kBatchSize) :
    Collecting model setup memory (ds ++ [d]) := by
  obtain ⟨inputData, hStep⟩ :=
    step_kept model setup (after model setup memory ds) hArg (Or.inl hWaiting)
  have hOutcomes := outcomes_concat_some ds hArg
  have hCount := h.count_wait hWaiting
  have hLength : (after model setup memory (ds ++ [d])).inputArgQueue.length =
      (after model setup memory ds).inputArgQueue.length + 1 := by
    rw [after_concat, hStep, enqueue_length]
  exact
    { whole := h.whole_next hArg
      room := by rw [hLength]; exact hWaiting
      phase := by rw [hLength, hOutcomes, List.length_append, List.length_singleton, hCount]
      paid := by
        rw [hOutcomes]
        apply h.paid.concat
        intro hDue
        omega }

theorem Collecting.send (h : Collecting model setup memory ds) (hArg : d.arg = some frame)
    (hFull : (after model setup memory ds).inputArgQueue.length + 1 = setup.kBatchSize)
    (hSucceeds : d.succeeds = true) : Collecting model setup memory (ds ++ [d]) := by
  have hStep := step_sent model setup (after model setup memory ds) hArg
    (Nat.le_of_eq hFull.symm) hSucceeds
  have hOutcomes := outcomes_concat_some ds hArg
  have hQueue : (after model setup memory (ds ++ [d])).inputArgQueue = [] := by
    rw [after_concat, hStep]
  exact
    { whole := h.whole_next hArg
      room := by rw [hQueue, List.length_nil]; omega
      phase := by
        rw [hQueue, hOutcomes, List.length_append, List.length_singleton, h.count_full hFull]
        rfl
      paid := by
        rw [hOutcomes]
        exact h.paid.concat (fun _ => hSucceeds) }

theorem Collecting.fail (h : Collecting model setup memory ds) (hArg : d.arg = some frame)
    (hFull : (after model setup memory ds).inputArgQueue.length + 1 = setup.kBatchSize)
    (hFailed : d.succeeds = false) : JustFailed model setup memory (ds ++ [d]) := by
  obtain ⟨inputData, hStep⟩ :=
    step_kept model setup (after model setup memory ds) hArg (Or.inr hFailed)
  have hOutcomes := outcomes_concat_some ds hArg
  rw [hFailed] at hOutcomes
  exact
    { whole := h.whole_next hArg
      full := by rw [after_concat, hStep, enqueue_length, hFull]
      last := by rw [hOutcomes]; exact h.paid.failsLast false
      failed := ⟨(outcomes ds).length, by simp [hOutcomes], h.count_full hFull,
        by rw [hOutcomes, List.getElem?_concat_length]⟩ }

theorem Collecting.next (h : Collecting model setup memory ds) (d : Delivery) :
    Collecting model setup memory (ds ++ [d]) ∨ JustFailed model setup memory (ds ++ [d]) := by
  have hRoom := h.room
  rcases call_cases setup (after model setup memory ds) d with
    hArg | ⟨frame, hArg, hKept | ⟨hFull, hSucceeds⟩⟩
  · exact Or.inl (h.skip hArg)
  · by_cases hWaiting : (after model setup memory ds).inputArgQueue.length + 1 < setup.kBatchSize
    · exact Or.inl (h.wait hArg hWaiting)
    · exact Or.inr (h.fail hArg (by omega) (hKept.resolve_left hWaiting))
  · exact Or.inl (h.send hArg (by omega) hSucceeds)

/-- The next frame makes the queue too long. -/
theorem JustFailed.next (h : JustFailed model setup memory ds) (d : Delivery) :
    JustFailed model setup memory (ds ++ [d]) ∨ Overfull model setup memory (ds ++ [d]) := by
  cases hArg : d.arg with
  | none =>
      left
      have hOutcomes := outcomes_concat_none ds hArg
      refine ⟨h.whole.skip hArg, ?_, ?_, ?_⟩
      · rw [after_concat, step_none model setup _ hArg]
        exact h.full
      · rw [hOutcomes]
        exact h.last
      · rw [hOutcomes]
        exact h.failed
  | some frame =>
      right
      have hFull := h.full
      constructor
      · intro hWhole
        have hLength := ((wholeBatches_concat model setup memory).mp hWhole).2
          ((after model setup memory ds).enqueue frame)
          (by rw [resized_some setup hArg, if_neg (by omega)])
        rw [enqueue_length] at hLength
        omega
      · intro hLast
        obtain ⟨i, hi, hDue, hFailed⟩ := h.failed
        have hOutcome := hLast i
          (by rw [outcomes_concat_some ds hArg, List.length_append, List.length_singleton]; omega)
          hDue
        rw [outcomes_concat_some ds hArg, List.getElem?_append_left (by omega), hFailed] at hOutcome
        cases hOutcome

theorem Overfull.next (h : Overfull model setup memory ds) (d : Delivery) :
    Overfull model setup memory (ds ++ [d]) := by
  constructor
  · intro hWhole
    exact h.more ((wholeBatches_concat model setup memory).mp hWhole).1
  · intro hLast
    apply h.early
    cases hArg : d.arg with
    | none => rwa [outcomes_concat_none ds hArg] at hLast
    | some frame =>
        rw [outcomes_concat_some ds hArg] at hLast
        exact hLast.of_concat

/-- Every run is in one of three phases. -/
theorem resize_phases (hPos : 1 ≤ setup.kBatchSize) (ds : List Delivery) :
    Collecting model setup memory ds ∨ JustFailed model setup memory ds ∨
      Overfull model setup memory ds := by
  induction ds using List.reverseRecOn with
  | nil =>
      left
      refine ⟨?_, hPos, (Nat.zero_mod _).symm, ?_⟩
      · rintro t ⟨⟩
      · intro i hi
        cases hi
  | append_singleton ds d ih =>
      rcases ih with hCollecting | hFailed | hOverfull
      · rcases hCollecting.next d with hNext | hNext
        · exact Or.inl hNext
        · exact Or.inr (Or.inl hNext)
      · exact Or.inr (hFailed.next d)
      · exact Or.inr (Or.inr (hOverfull.next d))

theorem wholeBatches_iff (hPos : 1 ≤ setup.kBatchSize) (ds : List Delivery) :
    WholeBatches model setup memory ds ↔ FailsLast setup.kBatchSize (outcomes ds) := by
  rcases resize_phases hPos ds with hCollecting | hFailed | hOverfull
  · exact iff_of_true hCollecting.whole hCollecting.failsLast
  · exact iff_of_true hFailed.whole hFailed.last
  · exact iff_of_false hOverfull.more hOverfull.early

end Phases

/-- Whether the loop has run by the end of a run. -/
def Ran (model : Model) (setup : Setup) (memory : List UInt8) (ds : List Delivery) : Prop :=
  ∃ t ∈ calls model setup memory ds, ∃ queue, resized setup t.before t.input = some queue

theorem ran_concat {ds : List Delivery} {d : Delivery} :
    Ran model setup memory (ds ++ [d]) ↔ Ran model setup memory ds ∨
      ∃ queue, resized setup (after model setup memory ds) d = some queue := by
  unfold Ran
  rw [calls_concat]
  constructor
  · rintro ⟨t, mem, hResized⟩
    rcases List.mem_append.mp mem with mem | mem
    · exact Or.inl ⟨t, mem, hResized⟩
    · rw [List.mem_singleton.mp mem] at hResized
      exact Or.inr hResized
  · rintro (⟨t, mem, hResized⟩ | hResized)
    · exact ⟨t, List.mem_append_left _ mem, hResized⟩
    · exact ⟨_, List.mem_append_right _ (List.mem_singleton_self _), hResized⟩

/-- The loop has not run as long as there was no full batch; until then every frame that has
arrived waits. -/
theorem ran_iff (hPos : 1 ≤ setup.kBatchSize) (ds : List Delivery) :
    Ran model setup memory ds ↔ setup.kBatchSize ≤ (outcomes ds).length := by
  have hPhases : (Ran model setup memory ds ∧ setup.kBatchSize ≤ (outcomes ds).length) ∨
      (¬ Ran model setup memory ds ∧ (outcomes ds).length < setup.kBatchSize ∧
        (after model setup memory ds).inputArgQueue.length = (outcomes ds).length) := by
    induction ds using List.reverseRecOn with
    | nil =>
        right
        refine ⟨?_, hPos, rfl⟩
        rintro ⟨t, ⟨⟩, _⟩
    | append_singleton ds d ih =>
        rw [ran_concat]
        cases hArg : d.arg with
        | none =>
            rw [outcomes_concat_none ds hArg, after_concat, step_none model setup _ hArg,
              resized_none setup hArg]
            simpa using ih
        | some frame =>
            rw [outcomes_concat_some ds hArg, List.length_append, List.length_singleton]
            rcases ih with ⟨hRan, hLength⟩ | ⟨hNot, hLess, hQueue⟩
            · exact Or.inl ⟨Or.inl hRan, by omega⟩
            · rw [resized_some setup hArg, hQueue]
              by_cases hWaiting : (outcomes ds).length + 1 < setup.kBatchSize
              · right
                obtain ⟨inputData, hStep⟩ := step_kept model setup (after model setup memory ds)
                  hArg (Or.inl (by rwa [hQueue]))
                rw [after_concat, hStep, enqueue_length, hQueue, if_pos hWaiting]
                exact ⟨by simpa using hNot, hWaiting, rfl⟩
              · left
                rw [if_neg hWaiting]
                exact ⟨Or.inr ⟨_, rfl⟩, by omega⟩
  rcases hPhases with ⟨hRan, hLength⟩ | ⟨hNot, hLess, _⟩
  · exact iff_of_true hRan hLength
  · exact iff_of_false hNot (by omega)

/-- The ranges of one batch are in a buffer of the size of one step exactly if
there is one of them, or they are empty. -/
theorem ranges_inBuffer_iff {queue : List Arrival} (hPos : 1 ≤ queue.length) (size : Nat) :
    (∀ range ∈ resizeRanges size 0 queue, range.2 ≤ size) ↔ queue.length = 1 ∨ size = 0 := by
  have hMem : ∀ i < queue.length,
      (0 + i * size, 0 + (i + 1) * size) ∈ resizeRanges size 0 queue := by
    intro i hi
    apply List.mem_of_getElem? (i := i)
    rw [resizeRanges_getElem?, if_pos hi]
  constructor
  · intro hAll
    have hLast := hAll _ (hMem (queue.length - 1) (by omega))
    dsimp only at hLast
    rw [Nat.sub_add_cancel hPos, Nat.zero_add] at hLast
    rcases Nat.eq_zero_or_pos size with hZero | hSize
    · exact Or.inr hZero
    · left
      have hScaled : queue.length * size ≤ 1 * size := by rwa [Nat.one_mul]
      have hOne := Nat.le_of_mul_le_mul_right hScaled hSize
      omega
  · rintro hSmall range mem
    obtain ⟨i, hGet⟩ := List.mem_iff_getElem?.mp mem
    rw [resizeRanges_getElem?] at hGet
    split_ifs at hGet with hi
    rw [← Option.some.inj hGet]
    dsimp only
    rcases hSmall with hOne | rfl
    · have hFirst : i = 0 := by omega
      rw [hFirst]
      omega
    · simp

variable (model setup memory)

/-- Whenever the loop runs, the queue is one batch and all of it fits into the
input buffer. -/
def ResizeInside (ds : List Delivery) : Prop :=
  WholeBatches model setup memory ds ∧
    ∀ bufferSize ∈ setup.inputDataBuffer, InBuffer model setup memory bufferSize ds

/-- The loop stays inside the buffer as long as no frame arrives after a failed
inference and the batches have one frame, or no batch has been completed yet. -/
theorem resizeInside_iff {outcome : InitOutcome} {dims : TensorDimension}
    {outputTensorDims : List TensorDimension}
    (hInit : init outcome [dims] outputTensorDims = some setup) (hPos : 1 ≤ dims.n)
    (ds : List Delivery) :
    ResizeInside model setup memory ds ↔ FailsLast dims.n (outcomes ds) ∧
      (dims.n = 1 ∨ dims.size = 0 ∨ (outcomes ds).length < dims.n) := by
  obtain ⟨other, hOther, hBatch, hStep, hBuffer⟩ := init_spec hInit
  have hSame : dims = other := List.singleton_inj.mp hOther
  subst hSame
  rw [← hBatch] at hPos ⊢
  unfold ResizeInside InBuffer
  rw [hStep, hBuffer, List.forall_mem_singleton, wholeBatches_iff hPos]
  apply and_congr_right
  intro hLast
  have hWhole : WholeBatches model setup memory ds := (wholeBatches_iff hPos ds).mpr hLast
  constructor
  · intro hInside
    by_contra hNot
    rw [not_or, not_or, Nat.not_lt] at hNot
    obtain ⟨hMany, hSize, hComplete⟩ := hNot
    obtain ⟨t, mem, queue, hResized⟩ := (ran_iff hPos ds).mpr hComplete
    have hLength := hWhole t mem queue hResized
    rcases (ranges_inBuffer_iff (by omega) dims.size).mp (hInside t mem queue hResized) with
      hOne | hZero
    · exact hMany (hLength.symm.trans hOne)
    · exact hSize hZero
  · intro hSmall t mem queue hResized
    have hLength := hWhole t mem queue hResized
    apply (ranges_inBuffer_iff (by omega) dims.size).mpr
    rcases hSmall with hOne | hZero | hFew
    · exact Or.inl (hLength.trans hOne)
    · exact Or.inr hZero
    · have hComplete := (ran_iff hPos ds).mp ⟨t, mem, queue, hResized⟩
      omega

/-- Two frames, one by one, stay inside; as one batch they do not. -/
theorem resizeInside_iff_sample :
    ResizeInside sampleModel (sampleSetup 1) (List.replicate 6 0)
        [sampleDelivery true, sampleDelivery true] ∧
      ¬ ResizeInside sampleModel (sampleSetup 2) (List.replicate 12 0)
        [sampleDelivery true, sampleDelivery true] := by
  constructor
  · apply (resizeInside_iff _ _ _ (sampleSetup_init 1) (by decide) _).mpr
    refine ⟨?_, Or.inl rfl⟩
    intro i hi _
    have hFirst : i = 0 := by
      change i + 1 < 2 at hi
      omega
    rw [hFirst]
    rfl
  · intro hInside
    have hSmall := ((resizeInside_iff _ _ _ (sampleSetup_init 2) (by decide) _).mp hInside).2
    revert hSmall
    decide

/-- The second frame of the first batch is resized into the bytes behind the
buffer. After a failed inference the queue has three frames. -/
theorem resize_outside :
    ¬ ResizeInside sampleModel (sampleSetup 2) (List.replicate 12 0)
        [sampleDelivery true, sampleDelivery true] ∧
      ¬ WholeBatches sampleModel (sampleSetup 2) (List.replicate 12 0)
        [sampleDelivery true, sampleDelivery false, sampleDelivery true] := by
  constructor
  · intro hInside
    obtain ⟨t, mem, queue, hResized⟩ : Ran sampleModel (sampleSetup 2) (List.replicate 12 0)
        [sampleDelivery true, sampleDelivery true] := (ran_iff (by decide) _).mpr (by decide)
    have hLength : queue.length = 2 := hInside.1 t mem queue hResized
    have hRanges := hInside.2 12 (List.mem_singleton_self _) t mem queue hResized
    rcases (ranges_inBuffer_iff (by omega) 12).mp hRanges with hOne | hZero
    · omega
    · cases hZero
  · rw [wholeBatches_iff (by decide)]
    intro hLast
    cases hLast 1 (by decide) (by decide)

end Hengda.SSDDetection

import Hengda.DstEngine.ClipWindow
import Hengda.Library.Disk
import Hengda.Library.Serial
import Std.Data.String.ToNat

/-! Clips and the alarms they belong to, over runs without file errors. An alarm
is only known by its number, which travels through one of two process-wide
names; the images are picked up by a script from one fixed folder. -/
namespace Hengda

/-- Every file that the call may want to write can be opened. -/
def Call.AllOpen (c : Call) : Prop :=
  c.opens.cover = true ∧ ∀ file, c.opens.clip file = true

namespace DstEngine

variable {α : Type*} [LT α] [DecidableLT α] {env : Env α} {s : DstEngine} {c : Call}

section OneCall

theorem not_blocked_of_allOpen (hOpen : c.AllOpen) : ¬ Blocked s c := by
  intro hBlocked
  have hCover := hBlocked.2
  rw [hOpen.1] at hCover
  cases hCover

/-- The images of a clip, numbered from 1. -/
def clipWrites (folder : String) (queue : List DeviceStreamData) :
    List (ClipFile × List UInt8) :=
  (queue.zipIdx 1).map fun p => (⟨folder, p.2⟩, p.1.imgOrigin.data)

theorem writesIn_saves (folder : String) (queue : List DeviceStreamData) (start : Nat) :
    writesIn ((queue.zipIdx start).map
        (fun p => Event.wrote ⟨folder, p.2⟩ p.1.imgOrigin.data)) =
      (queue.zipIdx start).map (fun p => (⟨folder, p.2⟩, p.1.imgOrigin.data)) := by
  induction queue generalizing start with
  | nil => rfl
  | cons video rest ih =>
      have hRest := ih (start + 1)
      simp only [writesIn, List.zipIdx_cons, List.map_cons, List.filterMap_cons] at hRest ⊢
      rw [hRest]

/-- What a due clip does without file errors. -/
theorem clipEvents_due (hOpen : c.AllOpen) (type : AlarmType) (videoname : String)
    {queue : List DeviceStreamData} (hLength : queue.length = clipLength) :
    writesIn (clipEvents c type type.marker videoname queue) = clipWrites type.folder queue ∧
      encodesIn (clipEvents c type type.marker videoname queue) = [videoname] := by
  have hSaved : saveImages c.opens type.folder clipLength 1 queue = (true,
      (queue.zipIdx 1).map (fun p => .wrote ⟨type.folder, p.2⟩ p.1.imgOrigin.data)) := by
    rw [saveImages_complete (Nat.le_of_eq hLength.symm) hOpen.2,
      List.take_of_length_le (Nat.le_of_eq hLength)]
  have hEncodes := encodesIn_saveImages c.opens type.folder clipLength 1 queue
  unfold clipEvents
  rw [if_pos rfl]
  dsimp only
  rw [hSaved] at hEncodes ⊢
  constructor
  · have hHead : writesIn [Event.saveVideo type queue] = [] := rfl
    have hLast : writesIn [Event.encode videoname] = [] := rfl
    rw [if_pos rfl, writesIn_append, ← List.singleton_append, writesIn_append, hHead, hLast,
      writesIn_saves, List.append_nil]
    rfl
  · have hHead : encodesIn [Event.saveVideo type queue] = [] := rfl
    have hLast : encodesIn [Event.encode videoname] = [videoname] := rfl
    rw [if_pos rfl, encodesIn_append, ← List.singleton_append, encodesIn_append, hHead, hLast,
      hEncodes]
    rfl

/-- Only the clips of a call write images and issue commands. -/
theorem step_clipEvents (env : Env α) (hAccepted : ¬ Blocked s c) :
    writesIn (step env s c).trace =
        writesIn (clipEvents c .region (dueMarker s c) (step env s c).videoname1 (window s c)) ++
          writesIn (clipEvents c .border (dueMarker s c) (step env s c).videoname2 (window s c)) ∧
      encodesIn (step env s c).trace =
        encodesIn (clipEvents c .region (dueMarker s c) (step env s c).videoname1 (window s c)) ++
          encodesIn
            (clipEvents c .border (dueMarker s c) (step env s c).videoname2 (window s c)) := by
  have hPhase := (detected_trace env s c).1
  have hCross := crossEvents_ofPhase c (s.videoId + regionCount env s c) (borderPositions env s c)
  rw [step_trace env s c hAccepted]
  simp only [writesIn_append, encodesIn_append, writesIn_of_phase hPhase,
    encodesIn_of_phase hPhase, writesIn_of_phase hCross, encodesIn_of_phase hCross,
    List.nil_append, List.append_nil, and_self]

/-- What a call writes and which command it issues, without file errors. -/
theorem step_clip (env : Env α) {past : List (Machine.Transition DstEngine Call)}
    (holds : WindowHolds past s) (hOpen : c.AllOpen) :
    (∀ type : AlarmType, dueMarker s c = type.marker →
      writesIn (step env s c).trace = clipWrites type.folder (window s c) ∧
        encodesIn (step env s c).trace = [(step env s c).videoname type]) ∧
    ((∀ type : AlarmType, dueMarker s c ≠ type.marker) →
      writesIn (step env s c).trace = [] ∧ encodesIn (step env s c).trace = []) := by
  obtain ⟨hWrites, hEncodes⟩ := step_clipEvents env (not_blocked_of_allOpen hOpen)
  have hIdle (type : AlarmType) (videoname : String) (h : dueMarker s c ≠ type.marker) :
      clipEvents c type (dueMarker s c) videoname (window s c) = [] := if_neg h
  rw [hWrites, hEncodes]
  constructor
  · intro type hDue
    have hFull := ((holds.dueMarker_iff c type).mp hDue).1
    obtain ⟨hImages, hCommand⟩ := clipEvents_due hOpen type ((step env s c).videoname type)
      (holds.window_length c hFull)
    rw [← hDue] at hImages hCommand
    cases type with
    | region =>
        rw [hIdle .border _ (by rw [hDue]; decide)]
        exact ⟨(List.append_nil _).trans hImages, (List.append_nil _).trans hCommand⟩
    | border =>
        rw [hIdle .region _ (by rw [hDue]; decide)]
        exact ⟨hImages, hCommand⟩
  · intro hNone
    rw [hIdle .region _ (hNone .region), hIdle .border _ (hNone .border)]
    exact ⟨rfl, rfl⟩

end OneCall

section Numbers

/-- The numbers of the alarms of one type, over the calls of a run. -/
def idsOf (type : AlarmType) (past : List (Machine.Transition DstEngine Call)) : List Nat :=
  past.flatMap fun t => raisedIds type t.after.trace

/-- The name that the last alarm of a type has left behind. -/
def lastName (type : AlarmType) (past : List (Machine.Transition DstEngine Call)) : String :=
  ((idsOf type past).getLast?.map toString).getD ""

/-- Numbers are handed out in order, to both types from the same supply, and
the two names follow them. -/
structure Numbered (past : List (Machine.Transition DstEngine Call)) (s : DstEngine) : Prop where
  below : ∀ type, ∀ v ∈ idsOf type past, v < s.videoId
  sorted : ∀ type, (idsOf type past).Pairwise (· < ·)
  apart : ∀ v ∈ idsOf .region past, v ∉ idsOf .border past
  named : ∀ type, s.videoname type = lastName type past

variable {past : List (Machine.Transition DstEngine Call)}

theorem idsOf_concat (type : AlarmType) (t : Machine.Transition DstEngine Call) :
    idsOf type (past ++ [t]) = idsOf type past ++ raisedIds type t.after.trace := by
  simp [idsOf]

/-- The numbers of one call are two blocks of consecutive ones. -/
theorem step_ids (env : Env α) (hAccepted : ¬ Blocked s c) (type : AlarmType) : ∃ first count,
    s.videoId ≤ first ∧ first + count ≤ (step env s c).videoId ∧
      raisedIds type (step env s c).trace = List.range' first count ∧
      (step env s c).videoname type =
        if count = 0 then s.videoname type else toString (first + count - 1) := by
  obtain ⟨hRegion, hBorder⟩ := step_raisedIds env s c hAccepted
  obtain ⟨hName1, hName2⟩ := step_names env s c hAccepted
  obtain ⟨_, hVideoId, _⟩ := step_fields env s c hAccepted
  cases type with
  | region => exact ⟨s.videoId, regionCount env s c, by omega, by omega, hRegion, hName1⟩
  | border =>
      exact ⟨s.videoId + regionCount env s c, (borderPositions env s c).length, by omega,
        by omega, hBorder, hName2⟩

theorem Numbered.next (numbered : Numbered past s) (hAccepted : ¬ Blocked s c) :
    Numbered (past ++ [⟨s, c, step env s c⟩]) (step env s c) := by
  constructor
  · intro type v mem
    obtain ⟨first, count, hFirst, hLast, hIds, _⟩ := step_ids env hAccepted type
    rw [idsOf_concat, hIds, List.mem_append, List.mem_range'_1] at mem
    rcases mem with mem | mem
    · have hBelow := numbered.below type v mem
      omega
    · omega
  · intro type
    obtain ⟨first, count, hFirst, _, hIds, _⟩ := step_ids env hAccepted type
    rw [idsOf_concat, hIds, List.pairwise_append]
    refine ⟨numbered.sorted type, List.pairwise_lt_range', ?_⟩
    intro v hv w hw
    have hBelow := numbered.below type v hv
    rw [List.mem_range'_1] at hw
    omega
  · obtain ⟨hRegion, hBorder⟩ := step_raisedIds env s c hAccepted
    intro v mem
    rw [idsOf_concat, hRegion, List.mem_append, List.mem_range'_1] at mem
    rw [idsOf_concat, hBorder, List.mem_append, List.mem_range'_1]
    rintro (memBorder | hNew)
    · have hBelow := numbered.below .border v memBorder
      rcases mem with mem | hNew
      · exact numbered.apart v mem memBorder
      · omega
    · rcases mem with mem | hOld
      · have hBelow := numbered.below .region v mem
        omega
      · omega
  · intro type
    obtain ⟨first, count, _, _, hIds, hName⟩ := step_ids env hAccepted type
    rw [hName, lastName, idsOf_concat, hIds]
    by_cases hNone : count = 0
    · rw [if_pos hNone, hNone, List.range'_zero, List.append_nil]
      exact numbered.named type
    · obtain ⟨others, hOthers⟩ : ∃ others, count = others + 1 :=
        Nat.exists_eq_succ_of_ne_zero hNone
      rw [if_neg hNone, hOthers, List.range'_concat, ← List.append_assoc, List.getLast?_concat]
      simp [← Nat.add_assoc]

theorem numbered_run (env : Env α) (calls : List Call) :
    Numbered (acceptedSteps env calls) (Machine.run (step env) init calls) := by
  apply accepted_rule (motive := Numbered)
  · constructor
    · intro type v mem
      cases mem
    · intro type
      exact List.Pairwise.nil
    · intro v mem
      cases mem
    · intro type
      cases type <;> rfl
  · intro past state numbered
    refine ⟨numbered.below, numbered.sorted, numbered.apart, ?_⟩
    intro type
    rw [← numbered.named type]
    cases type <;> rfl
  · intro past state input numbered hAccepted
    exact numbered.next hAccepted

end Numbers

section History

/-- The frame nine calls before call `m` carries the marker of this type. -/
def DueAt (hist : List (Machine.Transition DstEngine Call)) (m : Nat) (type : AlarmType) : Prop :=
  clipLength ≤ m + 1 ∧ ∃ center, hist[m - 9]? = some center ∧ callMarker center = type.marker

/-- The twenty frames that end with the frame of call `m`. -/
def clipFrames (hist : List (Machine.Transition DstEngine Call)) (m : Nat) :
    List DeviceStreamData :=
  ((frames hist).drop (m - 9 - 10)).take clipLength

theorem acceptedSteps_of_allOpen {calls : List Call} (hOpen : ∀ c ∈ calls, c.AllOpen) :
    acceptedSteps env calls = Machine.history (step env) init calls := by
  unfold acceptedSteps
  apply List.filter_eq_self.mpr
  intro t mem
  have hAccepted := not_blocked_of_allOpen (s := t.before)
    (hOpen t.input (Machine.mem_history mem).2.1)
  simp [hAccepted]

/-- The `m`-th call of a run without file errors, with what is known of the
state that it starts from. -/
theorem history_call {calls : List Call} (hOpen : ∀ c ∈ calls, c.AllOpen) {m : Nat}
    {t : Machine.Transition DstEngine Call}
    (hGet : (Machine.history (step env) init calls)[m]? = some t) :
    t = ⟨t.before, t.input, step env t.before t.input⟩ ∧ t.input.AllOpen ∧
      WindowHolds ((Machine.history (step env) init calls).take m) t.before ∧
      Numbered ((Machine.history (step env) init calls).take (m + 1)) t.after := by
  have hParts := hGet
  rw [Machine.history_getElem?, Option.map_eq_some_iff] at hParts
  obtain ⟨c, hCall, rfl⟩ := hParts
  have hLess := (List.getElem?_eq_some_iff.mp hCall).1
  have hStep : Machine.run (step env) init (calls.take (m + 1)) =
      step env (Machine.run (step env) init (calls.take m)) c := by
    rw [List.take_add_one, hCall, Option.toList_some, Machine.run_concat]
  have hPrefix (k : Nat) : (Machine.history (step env) init calls).take k =
      acceptedSteps env (calls.take k) := by
    rw [acceptedSteps_of_allOpen (fun c mem => hOpen c (List.mem_of_mem_take mem)),
      Machine.history_take]
  refine ⟨by rw [hStep], hOpen c (List.mem_of_getElem? hCall), ?_, ?_⟩
  · rw [hPrefix]
    exact windowHolds_run _
  · rw [hPrefix]
    exact numbered_run env _

variable {calls : List Call} (hOpen : ∀ c ∈ calls, c.AllOpen) {m : Nat}
  {t : Machine.Transition DstEngine Call}
  (hGet : (Machine.history (step env) init calls)[m]? = some t)
include hOpen hGet

theorem dueMarker_history (type : AlarmType) :
    dueMarker t.before t.input = type.marker ↔
      DueAt (Machine.history (step env) init calls) m type := by
  obtain ⟨_, _, holds, _⟩ := history_call hOpen hGet
  have hLess := (List.getElem?_eq_some_iff.mp hGet).1
  rw [holds.dueMarker_iff, List.length_take, Nat.min_eq_left (by omega), DueAt]
  apply and_congr_right
  intro hFull
  unfold clipLength at hFull
  rw [List.getElem?_take_of_lt (by omega)]

theorem window_history
    (hFull : clipLength ≤ m + 1) :
    window t.before t.input = clipFrames (Machine.history (step env) init calls) m := by
  obtain ⟨_, _, holds, _⟩ := history_call hOpen hGet
  have hLess := (List.getElem?_eq_some_iff.mp hGet).1
  have hLength : ((Machine.history (step env) init calls).take m).length = m := by
    rw [List.length_take, Nat.min_eq_left (by omega)]
  have hTake : frames ((Machine.history (step env) init calls).take m) ++ [t.input.frame] =
      (frames (Machine.history (step env) init calls)).take (m + 1) := by
    unfold frames
    rw [← List.map_take, List.take_add_one, hGet, Option.toList_some, List.map_append]
    rfl
  rw [holds.window_eq t.input (by rw [hLength]; exact hFull), hLength, hTake, clipFrames,
    List.drop_take]
  congr 1
  unfold clipLength at *
  omega

/-- What the `m`-th call writes and which command it issues, in terms of the
history alone. -/
theorem clip_history :
    (∀ type, DueAt (Machine.history (step env) init calls) m type →
      writesIn t.after.trace = clipWrites type.folder
          (clipFrames (Machine.history (step env) init calls) m) ∧
        encodesIn t.after.trace =
          [lastName type ((Machine.history (step env) init calls).take (m + 1))]) ∧
    ((∀ type, ¬ DueAt (Machine.history (step env) init calls) m type) →
      writesIn t.after.trace = [] ∧ encodesIn t.after.trace = []) := by
  obtain ⟨hStep, hHere, holds, numbered⟩ := history_call hOpen hGet
  have hAfter : t.after = step env t.before t.input := congrArg Machine.Transition.after hStep
  obtain ⟨hDue, hIdle⟩ := step_clip env holds hHere
  constructor
  · intro type hType
    have hMarker := (dueMarker_history hOpen hGet type).mpr hType
    obtain ⟨hWrites, hEncodes⟩ := hDue type hMarker
    rw [← hAfter] at hWrites hEncodes
    rw [window_history hOpen hGet hType.1] at hWrites
    rw [numbered.named type] at hEncodes
    exact ⟨hWrites, hEncodes⟩
  · intro hNone
    have hBoth :=
      hIdle (fun type hMarker => hNone type ((dueMarker_history hOpen hGet type).mp hMarker))
    rwa [← hAfter] at hBoth

end History

/-- The folder that `saveVideo.sh` reads, whatever its argument is. -/
def scriptFolder : String := "result_videos_yuejie/"

/-- What is on the disk after the calls of `past`: each image with the call
that wrote it. -/
def diskAfter (past : List (Machine.Transition DstEngine Call)) :
    ClipFile → Option (Nat × List UInt8) :=
  past.zipIdx.foldl (fun disk p => Disk.writeAll disk
    ((writesIn p.1.after.trace).map (fun w => (w.1, (p.2, w.2))))) (fun _ => none)

/-- The images `001.jpg` to `020.jpg` that the script finds when it is started
by the last call of `past`, if it reads them at once and no other engine writes to
the folder. A call saves at most one clip, and starts the script after it. -/
def scriptInput (past : List (Machine.Transition DstEngine Call)) :
    List (Option (Nat × List UInt8)) :=
  (List.range clipLength).map fun k => diskAfter past ⟨scriptFolder, 1 + k⟩

/-- The alarm with number `v`, raised by call `t`, has its own clip: the only
command with its number is issued by call `t + 9`, and the images are those of
the frames from `t - 10` to `t + 9`, written by this very call. -/
def OwnClip (hist : List (Machine.Transition DstEngine Call)) (t v : Nat) : Prop :=
  (∀ m tr, hist[m]? = some tr →
    (encodesIn tr.after.trace).count (toString v) = if m = t + 9 then 1 else 0) ∧
  scriptInput (hist.take (t + 10)) =
    (((frames hist).drop (t - 10)).take 20).map (fun frame => some (t + 9, frame.imgOrigin.data))

/-- An alarm of this type with number `v` was raised by call `t`. -/
def RaisedAt (hist : List (Machine.Transition DstEngine Call)) (type : AlarmType) (t v : Nat) :
    Prop :=
  ∃ tr, hist[t]? = some tr ∧ v ∈ raisedIds type tr.after.trace

instance (hist : List (Machine.Transition DstEngine Call)) (type : AlarmType) (t v : Nat) :
    Decidable (RaisedAt hist type t v) :=
  decidable_of_iff ((hist[t]?.map fun tr => raisedIds type tr.after.trace).getD [] |>.contains v)
    (by
      unfold RaisedAt
      cases hist[t]? with
      | none => simp
      | some tr => simp)

section Disk

variable (past : List (Machine.Transition DstEngine Call))

theorem diskAfter_concat (t : Machine.Transition DstEngine Call) : diskAfter (past ++ [t]) =
    Disk.writeAll (diskAfter past)
      ((writesIn t.after.trace).map (fun w => (w.1, (past.length, w.2)))) := by
  unfold diskAfter
  rw [List.zipIdx_append, List.foldl_append]
  simp

/-- Every image was written by a call of the past. -/
theorem diskAfter_lt {file : ClipFile} {k : Nat} {data : List UInt8}
    (hDisk : diskAfter past file = some (k, data)) : k < past.length := by
  induction past using List.reverseRecOn with
  | nil => cases hDisk
  | append_singleton past t ih =>
      rw [diskAfter_concat] at hDisk
      rw [List.length_append, List.length_singleton]
      rcases Disk.writeAll_cases _ hDisk with hOld | mem
      · exact Nat.lt_succ_of_lt (ih hOld)
      · obtain ⟨w, _, hEq⟩ := List.mem_map.mp mem
        have hCall : past.length = k := congrArg (fun p => p.2.1) hEq
        omega

/-- After a save to the folder of the script, it finds the frames of this save. -/
theorem scriptInput_saved (t : Machine.Transition DstEngine Call) (queue : List DeviceStreamData)
    (hLength : queue.length = clipLength)
    (hWrites : writesIn t.after.trace = clipWrites scriptFolder queue) :
    scriptInput (past ++ [t]) =
      queue.map (fun frame => some (past.length, frame.imgOrigin.data)) := by
  have hName : Function.Injective (fun n : Nat => (⟨scriptFolder, n⟩ : ClipFile)) := by
    intro n m hSame
    exact congrArg ClipFile.number hSame
  have hNumbered := Disk.writeAll_numbered (diskAfter past) _ hName
    (fun frame : DeviceStreamData => (past.length, frame.imgOrigin.data)) queue 1
  have hSame : (clipWrites scriptFolder queue).map (fun w => (w.1, (past.length, w.2))) =
      (queue.zipIdx 1).map (fun p =>
        ((⟨scriptFolder, p.2⟩ : ClipFile), (past.length, p.1.imgOrigin.data))) := by
    rw [clipWrites, List.map_map]
    rfl
  unfold scriptInput
  rw [diskAfter_concat, hWrites, hSame]
  apply List.ext_getElem?
  intro j
  rw [List.getElem?_map, List.getElem?_map]
  by_cases hj : j < clipLength
  · rw [List.getElem?_range hj, Option.map_some, hNumbered j (by omega),
      List.getElem?_eq_getElem (by omega)]
    rfl
  · rw [List.getElem?_eq_none (by rw [List.length_range]; omega),
      List.getElem?_eq_none (by omega)]
    rfl

/-- A save to another folder leaves what the script finds to earlier calls. -/
theorem scriptInput_other (t : Machine.Transition DstEngine Call)
    (hWrites : ∀ w ∈ writesIn t.after.trace, w.1.folder ≠ scriptFolder) :
    scriptInput (past ++ [t]) = scriptInput past := by
  unfold scriptInput
  apply List.map_congr_left
  intro k _
  rw [diskAfter_concat, Disk.writeAll_of_not_mem]
  intro w mem hSame
  obtain ⟨source, hSource, rfl⟩ := List.mem_map.mp mem
  exact hWrites source hSource (congrArg ClipFile.folder hSame)

end Disk

section OwnClip

/-- All calls of a run, with the states around them. -/
abbrev historyOf (env : Env α) (calls : List Call) : List (Machine.Transition DstEngine Call) :=
  Machine.history (step env) init calls

theorem callMarker_border (t : Machine.Transition DstEngine Call) :
    callMarker t = AlarmType.border.marker ↔ ∃ v, v ∈ raisedIds .border t.after.trace := by
  unfold callMarker
  by_cases hNone : raisedIds .border t.after.trace = []
  · rw [if_neg (not_not.mpr hNone)]
    split_ifs <;> simp [hNone, AlarmType.marker]
  · rw [if_pos hNone]
    exact iff_of_true rfl (List.exists_mem_of_ne_nil _ hNone)

theorem mem_idsOf_take (history : List (Machine.Transition DstEngine Call)) (type : AlarmType)
    (m v : Nat) : v ∈ idsOf type (history.take (m + 1)) ↔ ∃ t, t ≤ m ∧ RaisedAt history type t v :=
  Serial.mem_take_flatMap _ history m v

variable {calls : List Call} (hOpen : ∀ c ∈ calls, c.AllOpen)
include hOpen

theorem numbered_history : Numbered (historyOf env calls) (Machine.run (step env) init calls) := by
  have h := numbered_run env calls
  rwa [acceptedSteps_of_allOpen hOpen] at h

/-- Border alarms are numbered in the order of their calls. -/
theorem border_order {i j v w : Nat} (hv : RaisedAt (historyOf env calls) .border i v)
    (hw : RaisedAt (historyOf env calls) .border j w) (hLess : i < j) : v < w := by
  obtain ⟨_, hFirst, hv⟩ := hv
  obtain ⟨_, hSecond, hw⟩ := hw
  exact Serial.flatMap_order ((numbered_history hOpen).sorted .border) hFirst hSecond hLess hv hw

theorem region_ne_border {i j v w : Nat} (hv : RaisedAt (historyOf env calls) .region i v)
    (hw : RaisedAt (historyOf env calls) .border j w) : v ≠ w := by
  obtain ⟨a, hFirst, hv⟩ := hv
  obtain ⟨b, hSecond, hw⟩ := hw
  rintro rfl
  exact (numbered_history hOpen).apart v
    (List.mem_flatMap.mpr ⟨a, List.mem_of_getElem? hFirst, hv⟩)
    (List.mem_flatMap.mpr ⟨b, List.mem_of_getElem? hSecond, hw⟩)

/-- A name is the number `v` exactly while `v` is the last number of its type. -/
theorem lastName_iff {m : Nat} {tr : Machine.Transition DstEngine Call}
    (hGet : (historyOf env calls)[m]? = some tr) (type : AlarmType) (v : Nat) :
    lastName type ((historyOf env calls).take (m + 1)) = toString v ↔
      (∃ t, t ≤ m ∧ RaisedAt (historyOf env calls) type t v) ∧
        ∀ t w, t ≤ m → RaisedAt (historyOf env calls) type t w → w ≤ v := by
  obtain ⟨_, _, _, numbered⟩ := history_call hOpen hGet
  have hName : lastName type ((historyOf env calls).take (m + 1)) = toString v ↔
      (idsOf type ((historyOf env calls).take (m + 1))).getLast? = some v := by
    unfold lastName
    cases (idsOf type ((historyOf env calls).take (m + 1))).getLast? with
    | none =>
        simp only [Option.map_none, Option.getD_none, reduceCtorEq, iff_false]
        exact fun hEmpty => Nat.repr_ne_empty hEmpty.symm
    | some w =>
        rw [Option.map_some, Option.getD_some, Option.some.injEq]
        exact ⟨fun h => Nat.repr_inj.mp h, fun h => by rw [h]⟩
  rw [hName, Serial.getLast?_iff (numbered.sorted type), mem_idsOf_take]
  apply and_congr_right
  intro _
  constructor
  · intro hMax t w hLe hRaised
    exact hMax w ((mem_idsOf_take _ _ _ _).mpr ⟨t, hLe, hRaised⟩)
  · intro hMax w mem
    obtain ⟨t, hLe, hRaised⟩ := (mem_idsOf_take _ _ _ _).mp mem
    exact hMax t w hLe hRaised

omit hOpen in
theorem dueAt_border (history : List (Machine.Transition DstEngine Call)) (m : Nat) :
    DueAt history m .border ↔ 19 ≤ m ∧ ∃ w, RaisedAt history .border (m - 9) w := by
  unfold DueAt RaisedAt clipLength
  constructor
  · rintro ⟨hFull, center, hCenter, hMarker⟩
    obtain ⟨w, hw⟩ := (callMarker_border center).mp hMarker
    exact ⟨by omega, w, center, hCenter, hw⟩
  · rintro ⟨hFull, w, center, hCenter, hw⟩
    exact ⟨by omega, center, hCenter, (callMarker_border center).mpr ⟨w, hw⟩⟩

/-- How often the number of a border alarm is encoded by the `m`-th call: once
if a border clip is due while it is the newest number, else not at all. -/
theorem encodes_count {i v : Nat} (hv : RaisedAt (historyOf env calls) .border i v) {m : Nat}
    {tr : Machine.Transition DstEngine Call} (hGet : (historyOf env calls)[m]? = some tr) :
    (encodesIn tr.after.trace).count (toString v) = 1 ∧
        DueAt (historyOf env calls) m .border ∧
        lastName .border ((historyOf env calls).take (m + 1)) = toString v ∨
      (encodesIn tr.after.trace).count (toString v) = 0 ∧
        ¬ (DueAt (historyOf env calls) m .border ∧
          lastName .border ((historyOf env calls).take (m + 1)) = toString v) := by
  obtain ⟨hDue, hIdle⟩ := clip_history hOpen hGet
  by_cases hBorderDue : DueAt (historyOf env calls) m .border
  · rw [(hDue .border hBorderDue).2, List.count_singleton]
    by_cases hName : lastName .border ((historyOf env calls).take (m + 1)) = toString v
    · exact Or.inl ⟨if_pos (beq_iff_eq.mpr hName), hBorderDue, hName⟩
    · exact Or.inr ⟨if_neg (fun h => hName (beq_iff_eq.mp h)), fun h => hName h.2⟩
  · refine Or.inr ⟨?_, fun h => hBorderDue h.1⟩
    by_cases hRegionDue : DueAt (historyOf env calls) m .region
    · rw [(hDue .region hRegionDue).2, List.count_singleton]
      have hName : lastName .region ((historyOf env calls).take (m + 1)) ≠ toString v := by
        intro hSame
        obtain ⟨⟨j, _, hRaised⟩, _⟩ := (lastName_iff hOpen hGet .region v).mp hSame
        exact region_ne_border hOpen hRaised hv rfl
      exact if_neg (fun h => hName (beq_iff_eq.mp h))
    · have hNone := (hIdle (fun type => by cases type <;> assumption)).2
      rw [hNone]
      rfl

/-- The border alarm `v` of call `t` can be mixed up with another border alarm:
a later one that is raised up to call `t + 9`, or an earlier one whose clip is
saved when `v` is already the newest number. -/
def Disturbed (history : List (Machine.Transition DstEngine Call)) (t v : Nat) : Prop :=
  ∃ t' v', RaisedAt history .border t' v' ∧
    ((v < v' ∧ t' ≤ t + 9) ∨ (10 ≤ t' ∧ t' < t ∧ t ≤ t' + 9))

/-- Call `m` encodes the number `v`: a border clip is due while `v` is the
newest number of a border alarm. -/
def EncodedAt (history : List (Machine.Transition DstEngine Call)) (m v : Nat) : Prop :=
  (19 ≤ m ∧ ∃ w, RaisedAt history .border (m - 9) w) ∧
    (∃ t, t ≤ m ∧ RaisedAt history .border t v) ∧
      ∀ t w, t ≤ m → RaisedAt history .border t w → w ≤ v

theorem encodes_count_iff {i v : Nat} (hv : RaisedAt (historyOf env calls) .border i v) {m : Nat}
    {tr : Machine.Transition DstEngine Call} (hGet : (historyOf env calls)[m]? = some tr) (p : Prop)
    [Decidable p] : (encodesIn tr.after.trace).count (toString v) = (if p then 1 else 0) ↔
      (EncodedAt (historyOf env calls) m v ↔ p) := by
  have hEncoded : EncodedAt (historyOf env calls) m v ↔
      DueAt (historyOf env calls) m .border ∧
        lastName .border ((historyOf env calls).take (m + 1)) = toString v :=
    and_congr (dueAt_border _ m).symm (lastName_iff hOpen hGet .border v).symm
  rw [hEncoded]
  rcases encodes_count hOpen hv hGet with ⟨hOne, hBoth⟩ | ⟨hZero, hNot⟩
  · rw [hOne, iff_true_left hBoth]
    split_ifs with hp
    · exact iff_of_true rfl hp
    · exact iff_of_false (by decide) hp
  · rw [hZero, iff_false_left hNot]
    split_ifs with hp
    · exact iff_of_false (by decide) (not_not.mpr hp)
    · exact iff_of_true rfl hp

omit hOpen in
/-- A disturbed alarm is not encoded by call `t + 9`, or is encoded by an
earlier call as well. -/
theorem Disturbed.encoded {t v : Nat} (hv : RaisedAt (historyOf env calls) .border t v)
    (hDisturbed : Disturbed (historyOf env calls) t v) :
    ¬ EncodedAt (historyOf env calls) (t + 9) v ∨
      ∃ m, m < t + 9 ∧ EncodedAt (historyOf env calls) m v := by
  obtain ⟨t', v', hv', ⟨hLess, hNear⟩ | ⟨hFull, hBefore, hNear⟩⟩ := hDisturbed
  · left
    rintro ⟨_, _, hMax⟩
    have hNewest := hMax t' v' hNear hv'
    omega
  · rw [← imp_iff_not_or]
    rintro ⟨_, _, hMax⟩
    have hNewest : ∀ j w, j ≤ t' + 9 → RaisedAt (historyOf env calls) .border j w → w ≤ v := by
      intro j w hj hw
      exact hMax j w (by omega) hw
    have hDue : 19 ≤ t' + 9 ∧ ∃ w, RaisedAt (historyOf env calls) .border (t' + 9 - 9) w :=
      ⟨by omega, v', by rwa [Nat.add_sub_cancel]⟩
    exact ⟨t' + 9, by omega, hDue, ⟨t, hNear, hv⟩, hNewest⟩

/-- Otherwise it is encoded by call `t + 9` and by no other one. -/
theorem encodedAt_iff {t v : Nat} (hv : RaisedAt (historyOf env calls) .border t v)
    (hLate : 10 ≤ t) (hCalm : ¬ Disturbed (historyOf env calls) t v) (m : Nat) :
    EncodedAt (historyOf env calls) m v ↔ m = t + 9 := by
  constructor
  · rintro ⟨⟨hFull, w, hw⟩, ⟨j, hj, hRaised⟩, hMax⟩
    have hLast := hMax (m - 9) w (by omega) hw
    have hBefore : t ≤ m := by
      by_contra hAfter
      have hOrder := border_order hOpen hRaised hv (by omega)
      omega
    rcases Nat.lt_trichotomy (m - 9) t with hLess | hEq | hMore
    · exact absurd ⟨m - 9, w, hw, Or.inr ⟨by omega, hLess, by omega⟩⟩ hCalm
    · omega
    · have hOrder := border_order hOpen hv hw hMore
      omega
  · rintro rfl
    refine ⟨⟨by omega, v, by rwa [Nat.add_sub_cancel]⟩, ⟨t, by omega, hv⟩, ?_⟩
    intro j w hj hw
    by_contra hMore
    exact hCalm ⟨j, w, hw, Or.inl ⟨by omega, hj⟩⟩

/-- A border alarm is encoded exactly once and nine calls later if no other one
disturbs it. -/
theorem encodes_iff {t v : Nat} (hv : RaisedAt (historyOf env calls) .border t v) (hLate : 10 ≤ t)
    (hEnough : t + 9 < calls.length) :
    (∀ m tr, (historyOf env calls)[m]? = some tr →
      (encodesIn tr.after.trace).count (toString v) = if m = t + 9 then 1 else 0) ↔
    ¬ Disturbed (historyOf env calls) t v := by
  have hSome (m : Nat) (hm : m < calls.length) : ∃ tr, (historyOf env calls)[m]? = some tr :=
    ⟨_, List.getElem?_eq_getElem (by rwa [Machine.history_length])⟩
  constructor
  · intro hCount hDisturbed
    have hEncoded (m : Nat) (hm : m < calls.length) :
        EncodedAt (historyOf env calls) m v ↔ m = t + 9 := by
      obtain ⟨tr, hGet⟩ := hSome m hm
      exact (encodes_count_iff hOpen hv hGet _).mp (hCount m tr hGet)
    rcases hDisturbed.encoded hv with hNever | ⟨m, hm, hTwice⟩
    · exact hNever ((hEncoded _ hEnough).mpr rfl)
    · have hSame := (hEncoded m (by omega)).mp hTwice
      omega
  · intro hCalm m tr hGet
    exact (encodes_count_iff hOpen hv hGet _).mpr (encodedAt_iff hOpen hv hLate hCalm m)

/-- A border clip is found by the script as it was saved. -/
theorem scriptInput_border {m : Nat} {tr : Machine.Transition DstEngine Call}
    (hGet : (historyOf env calls)[m]? = some tr)
    (hDue : DueAt (historyOf env calls) m .border) :
    scriptInput ((historyOf env calls).take (m + 1)) =
      (clipFrames (historyOf env calls) m).map (fun frame => some (m, frame.imgOrigin.data)) := by
  obtain ⟨hWrites, _⟩ := (clip_history hOpen hGet).1 .border hDue
  have hLess := (List.getElem?_eq_some_iff.mp hGet).1
  have hPast : ((historyOf env calls).take m).length = m := by
    rw [List.length_take, Nat.min_eq_left (by omega)]
  have hFrames : (clipFrames (historyOf env calls) m).length = clipLength := by
    have hFull := hDue.1
    rw [clipFrames, List.length_take, List.length_drop, frames, List.length_map]
    unfold clipLength at *
    omega
  have hSaved := scriptInput_saved ((historyOf env calls).take m) tr _ hFrames hWrites
  rw [hPast] at hSaved
  rw [List.take_add_one, hGet, Option.toList_some]
  exact hSaved

/-- After a region clip the script finds nothing that was written by the call
that starts it. -/
theorem scriptInput_region {m : Nat} {tr : Machine.Transition DstEngine Call}
    (hGet : (historyOf env calls)[m]? = some tr)
    (hDue : DueAt (historyOf env calls) m .region) (data : List UInt8) :
    some (m, data) ∉ scriptInput ((historyOf env calls).take (m + 1)) := by
  obtain ⟨hWrites, _⟩ := (clip_history hOpen hGet).1 .region hDue
  have hLess := (List.getElem?_eq_some_iff.mp hGet).1
  rw [List.take_add_one, hGet, Option.toList_some, scriptInput_other]
  · intro mem
    obtain ⟨k, _, hFile⟩ := List.mem_map.mp mem
    have hEarlier := diskAfter_lt _ hFile
    rw [List.length_take, Nat.min_eq_left (by omega)] at hEarlier
    omega
  · intro w mem
    rw [hWrites] at mem
    obtain ⟨p, _, rfl⟩ := List.mem_map.mp mem
    change AlarmType.region.folder ≠ scriptFolder
    decide

/-- The number of a region alarm is encoded by region clips only. -/
theorem dueAt_of_encoded {t v m : Nat} {tr : Machine.Transition DstEngine Call}
    (hRaised : RaisedAt (historyOf env calls) .region t v)
    (hGet : (historyOf env calls)[m]? = some tr)
    (hOne : (encodesIn tr.after.trace).count (toString v) = 1) :
    DueAt (historyOf env calls) m .region := by
  obtain ⟨hDue, hIdle⟩ := clip_history hOpen hGet
  by_contra hRegionDue
  by_cases hBorderDue : DueAt (historyOf env calls) m .border
  · rw [(hDue .border hBorderDue).2, List.count_singleton] at hOne
    have hName : lastName .border ((historyOf env calls).take (m + 1)) = toString v := by
      by_contra hOther
      rw [if_neg (fun h => hOther (beq_iff_eq.mp h))] at hOne
      cases hOne
    obtain ⟨⟨j, _, hBorder⟩, _⟩ := (lastName_iff hOpen hGet .border v).mp hName
    exact region_ne_border hOpen hRaised hBorder rfl
  · rw [(hIdle (fun type => by cases type <;> assumption)).2] at hOne
    cases hOne

/-- What the script finds when a region clip is due was not written by it. -/
theorem not_ownClip_region {t v : Nat} (hRaised : RaisedAt (historyOf env calls) .region t v)
    (hEnough : t + 9 < calls.length) : ¬ OwnClip (historyOf env calls) t v := by
  rintro ⟨hCount, hInput⟩
  obtain ⟨last, hGet⟩ : ∃ tr, (historyOf env calls)[t + 9]? = some tr :=
    ⟨_, List.getElem?_eq_getElem (by rwa [Machine.history_length])⟩
  have hOne := hCount _ last hGet
  rw [if_pos rfl] at hOne
  have hRegionDue := dueAt_of_encoded hOpen hRaised hGet hOne
  obtain ⟨frame, rest, hFrames⟩ : ∃ frame rest,
      ((frames (historyOf env calls)).drop (t - 10)).take 20 = frame :: rest := by
    apply List.exists_cons_of_length_pos
    rw [List.length_take, List.length_drop, frames, List.length_map, Machine.history_length]
    omega
  apply scriptInput_region hOpen hGet hRegionDue frame.imgOrigin.data
  rw [show t + 9 + 1 = t + 10 from rfl, hInput, hFrames]
  exact List.mem_cons_self

/-- Over every run of one engine without file errors, an alarm with a full window around it
has its own clip exactly if it is a border alarm that no other border alarm
disturbs. Region alarms never have one: the script looks into the folder of the
border clips. -/
theorem ownClip_iff (type : AlarmType) (t v : Nat)
    (hRaised : RaisedAt (historyOf env calls) type t v) (hLate : 10 ≤ t)
    (hEnough : t + 9 < calls.length) :
    OwnClip (historyOf env calls) t v ↔
      type = .border ∧ ¬ Disturbed (historyOf env calls) t v := by
  obtain ⟨last, hGet⟩ : ∃ tr, (historyOf env calls)[t + 9]? = some tr :=
    ⟨_, List.getElem?_eq_getElem (by rwa [Machine.history_length])⟩
  cases type with
  | border =>
      rw [OwnClip, encodes_iff hOpen hRaised hLate hEnough]
      simp only [true_and, and_iff_left_iff_imp]
      intro _
      obtain ⟨tr, hHere, hv⟩ := hRaised
      have hDue : DueAt (historyOf env calls) (t + 9) .border :=
        (dueAt_border _ _).mpr ⟨by omega, v, tr, by rwa [Nat.add_sub_cancel], hv⟩
      rw [show t + 10 = t + 9 + 1 from rfl, scriptInput_border hOpen hGet hDue, clipFrames,
        Nat.add_sub_cancel]
      rfl
  | region =>
      simp only [reduceCtorEq, false_and, iff_false]
      exact not_ownClip_region hOpen hRaised hEnough

end OwnClip

section Sample

theorem sampleCall_allOpen (boxes : List Rectangle) (borders : List Border) :
    (sampleCall boxes borders).AllOpen :=
  ⟨rfl, fun _ => rfl⟩

/-- The only alarm of the run is raised by the eleventh frame of twenty. -/
def sampleRun (borders : List Border) (earlier now : List Rectangle) : List Call :=
  List.replicate 9 (sampleCall [] []) ++ [sampleCall earlier [], sampleCall now borders] ++
    List.replicate 9 (sampleCall [] [])

theorem sampleRun_allOpen (borders : List Border) (earlier now : List Rectangle) :
    ∀ c ∈ sampleRun borders earlier now, c.AllOpen := by
  intro c mem
  rw [sampleRun, List.mem_append, List.mem_append] at mem
  rcases mem with (mem | mem) | mem
  · rw [List.eq_of_mem_replicate mem]
    exact sampleCall_allOpen _ _
  · rcases List.mem_cons.mp mem with rfl | mem
    · exact sampleCall_allOpen _ _
    · rw [List.mem_singleton.mp mem]
      exact sampleCall_allOpen _ _
  · rw [List.eq_of_mem_replicate mem]
    exact sampleCall_allOpen _ _

/-- One person enters a zone. -/
def sampleRegionRun : List Call :=
  sampleRun [⟨Graph.rectangle.value, [⟨400, 100⟩, ⟨900, 500⟩]⟩] [] [⟨⟨500, 200⟩, ⟨540, 300⟩⟩]

/-- One person crosses a line. -/
def sampleBorderRun : List Call :=
  sampleRun [⟨Graph.line.value, [⟨400, 400⟩, ⟨900, 400⟩]⟩] [⟨⟨500, 200⟩, ⟨540, 300⟩⟩]
    [⟨⟨500, 400⟩, ⟨540, 500⟩⟩]

/-- The only alarm of a run is a region alarm: its clip is written and its
command is issued in time, but the script finds no image at all. -/
theorem regionClip_lost :
    let history := historyOf sampleEnv sampleRegionRun
    RaisedAt history .region 10 1 ∧ 10 + 9 < sampleRegionRun.length ∧
      scriptInput (history.take (10 + 10)) = List.replicate 20 none ∧
      ¬ OwnClip history 10 1 := by
  intro history
  have hInput : scriptInput (history.take (10 + 10)) = List.replicate 20 none := by
    decide +kernel
  refine ⟨by decide +kernel, by decide, hInput, ?_⟩
  rintro ⟨_, hOwn⟩
  rw [hInput] at hOwn
  have hHead := congrArg (fun input => input[0]?) hOwn
  revert hHead
  decide +kernel

theorem ownClip_iff_sample :
    OwnClip (historyOf sampleEnv sampleBorderRun) 10 1 ↔
      AlarmType.border = .border ∧ ¬ Disturbed (historyOf sampleEnv sampleBorderRun) 10 1 :=
  ownClip_iff (sampleRun_allOpen _ _ _) .border 10 1 (by decide +kernel) (by decide) (by decide)

end Sample

end DstEngine
end Hengda

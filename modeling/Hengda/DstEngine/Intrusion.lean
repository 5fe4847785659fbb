import Hengda.DstEngine.CallSpec

/-! Intrusion episodes and the hit counter. All persons and zones of the whole
run share one counter; which frames raise a region alarm is decided by the
values that it runs through while they are processed. -/
namespace Hengda

/-- Some person of the frame has a foot inside a zone. -/
def HitFrame (judges : Judges) (borders : List Border) (persons : List DetectInfo) : Prop :=
  ∃ det ∈ persons, ∃ border ∈ borders, judges.intrudes det.foot border = true

namespace DstEngine

variable {α : Type*} [LT α] [DecidableLT α] (env : Env α)

theorem intrusionHits_pos_iff (judges : Judges) (borders : List Border)
    (persons : List DetectInfo) :
    0 < intrusionHits judges borders persons ↔ HitFrame judges borders persons := by
  unfold intrusionHits HitFrame
  induction persons with
  | nil => simp
  | cons det rest ih =>
      rw [List.map_cons, List.sum_cons, Nat.add_pos_iff_pos_or_pos, ih, List.countP_pos_iff]
      simp

/-- The hits that a call counts; a blocked one does not look at its frame. -/
def countedHits (t : Machine.Transition DstEngine Call) : Nat :=
  if Blocked t.before t.input then 0
  else intrusionHits env.judges t.input.borders t.input.frame.persons

/-- The hits that consecutive calls count from the state `s` on. -/
def blockHits (s : DstEngine) (block : List Call) : Nat :=
  ((Machine.history (step env) s block).map (countedHits env)).sum

/-- Some call of the block raises a region alarm. -/
def BlockReported (s : DstEngine) (block : List Call) : Prop :=
  ∃ t ∈ Machine.history (step env) s block, raisedIds .region t.after.trace ≠ []

/-- An accepted call whose frame is a hit frame. -/
def CountedFrame (t : Machine.Transition DstEngine Call) : Prop :=
  ¬ Blocked t.before t.input ∧ HitFrame env.judges t.input.borders t.input.frame.persons

theorem blockHits_pos_iff (s : DstEngine) (block : List Call) : 0 < blockHits env s block ↔
    ∃ t ∈ Machine.history (step env) s block, CountedFrame env t := by
  unfold blockHits
  induction Machine.history (step env) s block with
  | nil => simp
  | cons t rest ih =>
      have hHere : 0 < countedHits env t ↔ CountedFrame env t := by
        unfold countedHits CountedFrame
        rw [← intrusionHits_pos_iff]
        by_cases hBlocked : Blocked t.before t.input
        · simp [hBlocked]
        · simp [hBlocked]
      rw [List.map_cons, List.sum_cons, Nat.add_pos_iff_pos_or_pos, ih, hHere]
      simp

/-- A call counts each of its hits, and raises an alarm for each that takes the counter to
a value with rest 1 modulo 6. -/
structure HitsSampled (t : Machine.Transition DstEngine Call) : Prop where
  counter : t.after.alarmFlag.toNat =
    (t.before.alarmFlag.toNat + countedHits env t) % UInt32.size
  raised : raisedIds .region t.after.trace = List.range' t.before.videoId
    ((List.range (countedHits env t)).countP fun j =>
      (t.before.alarmFlag.toNat + j + 1) % UInt32.size % 6 = 1)

theorem hitsSampled_step (s : DstEngine) (c : Call) :
    HitsSampled env ⟨s, c, step env s c⟩ := by
  constructor <;> unfold countedHits <;> dsimp only <;> by_cases hBlocked : Blocked s c
  · rw [if_pos hBlocked, step_blocked env s c hBlocked]
    exact (Nat.mod_eq_of_lt s.alarmFlag.toNat_lt_size).symm
  · obtain ⟨_, _, _, hFlag, _⟩ := step_fields env s c hBlocked
    rw [if_neg hBlocked, hFlag]
    exact (detected_spec env s c).2.1
  · rw [if_pos hBlocked, step_blocked env s c hBlocked]
    rfl
  · rw [if_neg hBlocked]
    exact (step_raisedIds env s c hBlocked).1

omit [LT α] [DecidableLT α] in
/-- So it is reported if one of the hits passes the throttle. -/
theorem HitsSampled.reported_iff {t : Machine.Transition DstEngine Call}
    (sampled : HitsSampled env t) : raisedIds .region t.after.trace ≠ [] ↔
      0 < sampledHits t.before.alarmFlag.toNat (countedHits env t) := by
  rw [sampled.raised, ne_eq, List.range'_eq_nil_iff, Nat.pos_iff_ne_zero]
  rfl

/-- A block of calls passes the throttle as if its hits came one by one. -/
theorem block_hits (s : DstEngine) (block : List Call) :
    (Machine.run (step env) s block).alarmFlag.toNat =
        (s.alarmFlag.toNat + blockHits env s block) % UInt32.size ∧
      (BlockReported env s block ↔
        0 < sampledHits s.alarmFlag.toNat (blockHits env s block)) := by
  induction block generalizing s with
  | nil =>
      refine ⟨(Nat.mod_eq_of_lt s.alarmFlag.toNat_lt_size).symm, ?_⟩
      simp [BlockReported, Machine.history, blockHits]
  | cons c rest ih =>
      have hFlag := (hitsSampled_step env s c).counter
      have hReported := (hitsSampled_step env s c).reported_iff
      obtain ⟨hRestFlag, hRestReported⟩ := ih (step env s c)
      have hSum : blockHits env s (c :: rest) =
          countedHits env ⟨s, c, step env s c⟩ + blockHits env (step env s c) rest := by
        simp [blockHits, Machine.history]
      have hSplit : BlockReported env s (c :: rest) ↔
          raisedIds .region (step env s c).trace ≠ [] ∨ BlockReported env (step env s c) rest := by
        simp [BlockReported, Machine.history]
      constructor
      · rw [Machine.run_cons, hRestFlag, hFlag, Nat.mod_add_mod, hSum, Nat.add_assoc]
      · rw [hSplit, hReported, hRestReported, hFlag, hSum, sampledHits_add,
          Nat.add_pos_iff_pos_or_pos]

/-- Six hits in a row cannot all be dropped, also where the counter wraps: it
then starts again at 0 before it has missed the rest 1 for six hits. -/
theorem sampledHits_pos_of_six (start : Nat) {hits : Nat} (hSix : 6 ≤ hits) :
    0 < sampledHits start hits := by
  apply Nat.lt_of_lt_of_le ?_ (Throttle.passed_mono _ _ _ start hSix)
  rw [Throttle.passed_pos_iff]
  have hReduce (j : Nat) : Throttle.Passes UInt32.size sampleP.toNat 1 (start + j) ↔
      (start % 4294967296 + j + 1) % 4294967296 % 6 = 1 := by
    unfold Throttle.Passes
    rw [show start + j + 1 = start + (j + 1) by omega, ← Nat.mod_add_mod]
    rfl
  simp only [hReduce]
  have hLess : start % 4294967296 < 4294967296 := Nat.mod_lt _ (by decide)
  generalize start % 4294967296 = r at hLess ⊢
  by_cases hWrap : r + 4 ≤ 4294967296
  · refine ⟨(6 - r % 6) % 6, Nat.mod_lt _ (by decide), ?_⟩
    have hBelow : r + (6 - r % 6) % 6 + 1 < 4294967296 := by omega
    rw [Nat.mod_eq_of_lt hBelow]
    omega
  · refine ⟨4294967296 - r, by omega, ?_⟩
    rw [show r + (4294967296 - r) + 1 = 4294967296 + 1 by omega]

/-- Hits are counted and sampled in every call. A block of consecutive frames raises a
region alarm exactly if one of its hits takes the counter of the whole run to a value with
rest 1 modulo 6. Six hits are always enough, and so is one if no hit was counted before. -/
theorem episode_reported_iff (before block : List Call) :
    let s := Machine.run (step env) init before
    (∀ t ∈ Machine.history (step env) s block, HitsSampled env t) ∧
      (BlockReported env s block ↔
        ∃ j < blockHits env s block,
          (blockHits env init before + j + 1) % UInt32.size % 6 = 1) ∧
      (6 ≤ blockHits env s block → BlockReported env s block) ∧
      ((∀ t ∈ Machine.history (step env) init before, ¬ CountedFrame env t) →
        (∃ t ∈ Machine.history (step env) s block, CountedFrame env t) →
        BlockReported env s block) := by
  intro s
  have hFlag : s.alarmFlag.toNat = blockHits env init before % UInt32.size := by
    have hRun := (block_hits env init before).1
    rwa [show init.alarmFlag.toNat = 0 from rfl, Nat.zero_add] at hRun
  have hIff : BlockReported env s block ↔ ∃ j < blockHits env s block,
      (blockHits env init before + j + 1) % UInt32.size % 6 = 1 := by
    rw [(block_hits env s block).2, Throttle.passed_pos_iff, hFlag]
    simp only [Throttle.Passes, Nat.add_assoc, Nat.mod_add_mod]
    rfl
  have hSampled : ∀ t ∈ Machine.history (step env) s block, HitsSampled env t := by
    rintro ⟨earlier, c, later⟩ mem
    obtain ⟨-, -, hAfter⟩ := Machine.mem_history mem
    dsimp only at hAfter
    rw [hAfter]
    exact hitsSampled_step env earlier c
  refine ⟨hSampled, hIff, ?_, ?_⟩
  · intro hSix
    exact (block_hits env s block).2.mpr (sampledHits_pos_of_six _ hSix)
  · intro hFirst hHit
    have hNone : blockHits env init before = 0 := by
      apply Nat.eq_zero_of_not_pos
      rw [blockHits_pos_iff]
      rintro ⟨t, mem, hCounted⟩
      exact hFirst t mem hCounted
    rw [hIff, hNone]
    exact ⟨0, (blockHits_pos_iff env s block).mpr hHit, rfl⟩

section Sample

def sampleZone : Border :=
  ⟨Graph.rectangle.value, [⟨400, 100⟩, ⟨900, 500⟩]⟩

def sampleInside : Call :=
  sampleCall [⟨⟨500, 200⟩, ⟨540, 300⟩⟩] [sampleZone]

/-- A second episode of one frame, after a frame without anybody, is dropped:
its only hit is the second one of the run. -/
theorem episode_dropped :
    let outside := sampleCall [] [sampleZone]
    let s := Machine.run (step sampleEnv) init [sampleInside, outside]
    HitFrame sampleEnv.judges sampleInside.borders sampleInside.frame.persons ∧
      ¬ HitFrame sampleEnv.judges outside.borders outside.frame.persons ∧
      ¬ BlockReported sampleEnv s [sampleInside] := by
  refine ⟨?_, ?_, ?_⟩
  · rw [← intrusionHits_pos_iff]
    decide +kernel
  · rw [← intrusionHits_pos_iff]
    decide +kernel
  · rw [(block_hits _ _ _).2]
    decide +kernel

end Sample

end DstEngine
end Hengda

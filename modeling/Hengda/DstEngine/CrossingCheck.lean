import Hengda.DstEngine.Sides

/-! The crossing check of one frame. A reset trail has a single point and
crosses nothing, so every trail is reset at most once, whatever border it is
found to cross first. -/
namespace Hengda

/-- A trail of one point crosses no border. -/
def Judges.Settled (judges : Judges) : Prop :=
  ∀ p border, judges.crosses [p] border = false

theorem Judges.ofSource_settled (cross : Point → Point → Point → Point → Bool) (stray : Bool) :
    (Judges.ofSource cross stray).Settled := by
  intro p border
  unfold crosses
  cases Graph.ofInt border.graph with
  | none => rfl
  | some g => cases g <;> rfl

namespace DstEngine

variable {judges : Judges}

theorem crossOutcome_cons (border : Border) (rest : List Border) (t : Trail) :
    crossOutcome judges (border :: rest) t =
      if judges.crosses t.points border then
        ((crossOutcome judges rest t.clear).1, 1 + (crossOutcome judges rest t.clear).2)
      else crossOutcome judges rest t := by
  unfold crossOutcome
  rw [List.foldl_cons, crossStep]
  split_ifs
  · exact foldl_crossStep judges rest t.clear 1
  · rfl

theorem crossOutcome_of_none {borders : List Border} {t : Trail}
    (hNone : ∀ border ∈ borders, judges.crosses t.points border = false) :
    crossOutcome judges borders t = (t, 0) := by
  induction borders with
  | nil => rfl
  | cons border rest ih =>
      rw [crossOutcome_cons, if_neg (by simp [hNone border (by simp)])]
      exact ih (fun other mem => hNone other (List.mem_cons_of_mem _ mem))

/-- The first border that is crossed resets the trail, and the ones behind it
find nothing any more. -/
theorem crossOutcome_eq (settled : judges.Settled) (borders : List Border) (t : Trail) :
    crossOutcome judges borders t =
      if borders.any (judges.crosses t.points) then (t.clear, 1) else (t, 0) := by
  induction borders with
  | nil => rfl
  | cons border rest ih =>
      have hClear : crossOutcome judges rest t.clear = (t.clear, 0) :=
        crossOutcome_of_none (fun other _ => settled _ other)
      rw [crossOutcome_cons, hClear, ih, List.any_cons]
      cases judges.crosses t.points border <;> simp

/-- The order of the borders does not matter. -/
theorem crossOutcome_perm (settled : judges.Settled) {first second : List Border}
    (hPerm : first.Perm second) (t : Trail) :
    crossOutcome judges first t = crossOutcome judges second t := by
  rw [crossOutcome_eq settled, crossOutcome_eq settled, hPerm.any_eq]

theorem crossedTrails_perm (settled : judges.Settled) {first second : List Border}
    (hPerm : first.Perm second) (i : Nat) (trails : List Trail) :
    crossedTrails judges first i trails = crossedTrails judges second i trails := by
  induction trails generalizing i with
  | nil => rfl
  | cons t rest ih => rw [crossedTrails, crossedTrails, crossOutcome_perm settled hPerm, ih]

/-- The trail crosses a LINE or BROKEN_LINE border of the list. -/
def crossesSome (judges : Judges) (borders : List Border) (t : Trail) : Bool :=
  borders.any (judges.crosses t.points)

/-- A trail is listed once if it crosses some border, and otherwise not. -/
theorem crossedTrails_count (settled : judges.Settled) (borders : List Border) (start i : Nat)
    (trails : List Trail) :
    (crossedTrails judges borders start trails).count i =
      if start ≤ i ∧ (trails[i - start]?).any (crossesSome judges borders) then 1 else 0 := by
  induction trails generalizing start with
  | nil => simp [crossedTrails]
  | cons t rest ih =>
      rw [crossedTrails, List.count_append, List.count_replicate, ih, crossOutcome_eq settled]
      by_cases hHere : i = start
      · subst hHere
        have hLater : ¬ i + 1 ≤ i := by omega
        simp only [crossesSome, hLater, Nat.le_refl, Nat.sub_self, List.getElem?_cons_zero,
          Option.any_some, beq_self_eq_true, if_true, false_and, true_and, if_false, Nat.add_zero]
        split_ifs <;> rfl
      · have hOther : (start == i) = false := by simpa using Ne.symm hHere
        rw [hOther]
        by_cases hLe : start + 1 ≤ i
        · have hIndex : i - start = (i - (start + 1)) + 1 := by omega
          have hLow : start ≤ i := by omega
          simp [hLe, hLow, hIndex]
        · have hLow : ¬ start ≤ i := by omega
          simp [hLe, hLow]

theorem crossedTrails_length (settled : judges.Settled) (borders : List Border) (start : Nat)
    (trails : List Trail) :
    (crossedTrails judges borders start trails).length =
      trails.countP (crossesSome judges borders) := by
  induction trails generalizing start with
  | nil => rfl
  | cons t rest ih =>
      rw [crossedTrails, List.length_append, List.length_replicate, ih, crossOutcome_eq settled,
        List.countP_cons, Nat.add_comm]
      unfold crossesSome
      split_ifs <;> rfl

/-- Border alarms for the trail at position `i`. -/
def borderAlarms (i : Nat) (trace : List Event) : Nat :=
  trace.countP fun
    | .raised .border _ (some j) => j = i
    | _ => false

theorem borderAlarms_append (i : Nat) (first second : List Event) :
    borderAlarms i (first ++ second) = borderAlarms i first + borderAlarms i second :=
  List.countP_append

theorem borderAlarms_crossEvents (c : Call) (i id : Nat) (positions : List Nat) :
    borderAlarms i (crossEvents c id positions) = positions.count i := by
  induction positions generalizing id with
  | nil => rfl
  | cons j rest ih =>
      have hHere : borderAlarms i (alarmEvents c .border id (some j)) = if j = i then 1 else 0 := by
        unfold alarmEvents borderAlarms
        split_ifs <;> simp_all
      have hRest : borderAlarms i (.cleared j :: crossEvents c (id + 1) rest) =
          borderAlarms i (crossEvents c (id + 1) rest) := rfl
      rw [crossEvents, borderAlarms_append, hHere, hRest, ih, List.count_cons, Nat.add_comm]
      simp

section Check

variable {α : Type*} (env : Env α) (c : Call) (s : DstEngine)

/-- What the crossing check of one frame does. -/
structure FrameCheck : Prop where
  /-- Every trail that crosses something gets one alarm, and no other one. -/
  alarms : ∀ i, borderAlarms i (checkCrossings env c s).trace = borderAlarms i s.trace +
    if (s.trails[i]?).any (crossesSome env.judges c.borders) then 1 else 0
  /-- The alarms take one number each. -/
  numbers : raisedIds .border (checkCrossings env c s).trace = raisedIds .border s.trace ++
    List.range' s.videoId (s.trails.countP (crossesSome env.judges c.borders))
  videoId : (checkCrossings env c s).videoId =
    s.videoId + s.trails.countP (crossesSome env.judges c.borders)
  /-- The order of the borders makes no difference. -/
  order : ∀ borders : List Border, borders.Perm c.borders →
    checkCrossings env { c with borders := borders } s = checkCrossings env c s
  /-- No trail crosses any border afterwards. -/
  quiet : ∀ t ∈ (checkCrossings env c s).trails, crossesSome env.judges c.borders t = false
  /-- Checking again does nothing. -/
  again : checkCrossings env c (checkCrossings env c s) = checkCrossings env c s

variable {env c s}

theorem checkCrossings_trace : (checkCrossings env c s).trace =
    s.trace ++ crossEvents c s.videoId (crossedTrails env.judges c.borders 0 s.trails) := by
  rw [checkCrossings_eq]
  exact foldl_crossEffect_trace c env.ip _ s

theorem checkCrossings_videoId : (checkCrossings env c s).videoId =
    s.videoId + (crossedTrails env.judges c.borders 0 s.trails).length := by
  rw [checkCrossings_eq]
  exact (foldl_crossEffect_raises c env.ip _ s).videoId

/-- With nothing to find the check does nothing. -/
theorem checkCrossings_of_none
    (hNone : ∀ t ∈ s.trails, crossesSome env.judges c.borders t = false) :
    checkCrossings env c s = s := by
  have hOutcome : ∀ t ∈ s.trails, crossOutcome env.judges c.borders t = (t, 0) := by
    intro t mem
    apply crossOutcome_of_none
    intro border hBorder
    have hAll := List.any_eq_false.mp (hNone t mem) border hBorder
    simpa using hAll
  have hTrails : s.trails.map (fun t => (crossOutcome env.judges c.borders t).1) = s.trails := by
    conv_rhs => rw [← List.map_id s.trails]
    exact List.map_congr_left (fun t mem => by rw [hOutcome t mem]; rfl)
  have hPositions : ∀ (trails : List Trail) (i : Nat), (∀ t ∈ trails, t ∈ s.trails) →
      crossedTrails env.judges c.borders i trails = [] := by
    intro trails
    induction trails with
    | nil =>
        intro i _
        rfl
    | cons t rest ih =>
        intro i hMem
        rw [crossedTrails, hOutcome t (hMem t (by simp)),
          ih _ (fun other mem => hMem other (List.mem_cons_of_mem _ mem))]
        rfl
  rw [checkCrossings_eq, hTrails, hPositions s.trails 0 (fun _ mem => mem)]
  rfl

theorem checkCrossings_quiet (settled : env.judges.Settled) :
    ∀ t ∈ (checkCrossings env c s).trails, crossesSome env.judges c.borders t = false := by
  rw [checkCrossings_eq]
  intro t mem
  obtain ⟨old, _, rfl⟩ := List.mem_map.mp mem
  rw [crossOutcome_eq settled]
  split_ifs with hCross
  · apply List.any_eq_false.mpr
    intro border _
    change ¬ env.judges.crosses [foot old.lt old.rb] border = true
    rw [settled]
    simp
  · simpa [crossesSome] using hCross

theorem frameCheck_of_settled (settled : env.judges.Settled) : FrameCheck env c s where
  alarms i := by
    rw [checkCrossings_trace, borderAlarms_append, borderAlarms_crossEvents,
      crossedTrails_count settled]
    simp
  numbers := by
    rw [checkCrossings_trace, raisedIds_append, raisedIds_crossEvents,
      crossedTrails_length settled]
  videoId := by
    rw [checkCrossings_videoId, crossedTrails_length settled]
  order borders hPerm := by
    rw [checkCrossings_eq, checkCrossings_eq, crossedTrails_perm settled hPerm]
    have hTrails : s.trails.map (fun t => (crossOutcome env.judges borders t).1) =
        s.trails.map (fun t => (crossOutcome env.judges c.borders t).1) :=
      List.map_congr_left (fun t _ => by rw [crossOutcome_perm settled hPerm])
    rw [hTrails]
    rfl
  quiet := checkCrossings_quiet settled
  again := checkCrossings_of_none (checkCrossings_quiet settled)

end Check

/-- The crossing check with the judges of the source, whatever the segment test
answers. -/
theorem crossing_check {α : Type*} (cross : Point → Point → Point → Point → Bool) (stray : Bool)
    (metric : Metric α) (ip : String) (c : Call) (s : DstEngine) :
    FrameCheck (envOfCross cross stray metric ip) c s :=
  frameCheck_of_settled (Judges.ofSource_settled cross stray)

end DstEngine
end Hengda

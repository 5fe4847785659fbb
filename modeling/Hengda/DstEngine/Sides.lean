import Hengda.DstEngine.Crossing
import Hengda.DstEngine.Tracking
import Mathlib.Tactic.Linarith
import Mathlib.Tactic.Ring

/-! Crossings of a line that spans the scene. While a trail is not cut, its
first point remembers the side on which the person was last seen without an
alarm, and a step to the other side is found in the frame in which it happens. -/
namespace Hengda

/-- Twice the signed area of the triangle; its sign names the side of the line
through `c` and `d` on which `p` lies. -/
def side (c d p : Point) : Int :=
  (d.x - c.x) * (p.y - c.y) - (d.y - c.y) * (p.x - c.x)

/-- The line separates `p` from `q`, or one of them lies on it, exactly if the
segment test finds a hit. `feet` are the points that can occur. -/
def SpansScene (cross : Point → Point → Point → Point → Bool) (c d : Point)
    (feet : List Point) : Prop :=
  ∀ p ∈ feet, ∀ q ∈ feet, cross p q c d = true ↔ ¬ 0 < side c d p * side c d q

instance (cross : Point → Point → Point → Point → Bool) (c d : Point) (feet : List Point) :
    Decidable (SpansScene cross c d feet) :=
  inferInstanceAs (Decidable (∀ p ∈ feet, ∀ q ∈ feet, _ ↔ _))

/-- Being on the same side is passed on to whoever is opposite to a third point. -/
theorem not_sameSide {first prev next : Int} (hSame : 0 < first * prev)
    (hOpposite : prev * next < 0) : ¬ 0 < first * next := by
  intro hPos
  have hProduct := mul_pos hSame hPos
  have hSquare := mul_nonneg (mul_self_nonneg first) (neg_nonneg.mpr (le_of_lt hOpposite))
  have hEq : first * prev * (first * next) = -(first * first * -(prev * next)) := by ring
  linarith

section Judge

variable (cross : Point → Point → Point → Point → Bool) (p₀ p₁ : Point) (rest : List Point)

/-- The chord between the two ends of a trail is always among those tested. -/
theorem judgeOutLine_ends {trail : List Point} {first last : Point}
    (hFirst : trail.head? = some first) (hLast : trail.getLast? = some last)
    (hLength : 2 ≤ trail.length) (hCross : cross first last p₀ p₁ = true) :
    judgeOutLine cross trail (p₀ :: p₁ :: rest) = some true := by
  match trail, hFirst, hLength with
  | x :: y :: others, hFirst, _ =>
      have hHead : x = first := Option.some.inj hFirst
      have hEnd : (x :: y :: others).getLastD x = last := by
        rw [List.getLastD_eq_getLast?, hLast]
        rfl
      unfold judgeOutLine chordHit
      dsimp only
      rw [hEnd, hHead, hCross]
      split_ifs <;> simp

theorem judgeOutLine_single {trail : List Point} (hLength : trail.length = 1)
    (border : List Point) : judgeOutLine cross trail border = some false := by
  match trail, hLength with
  | [_], _ => rfl

end Judge

/-- The trail ends at the foot of its box and holds feet of the run only. -/
structure Anchored (feet : List Point) (t : Trail) : Prop where
  last : t.points.getLast? = some (foot t.lt t.rb)
  known : ∀ p ∈ t.points, p ∈ feet

/-- In addition the two ends of the trail are strictly on one side. -/
structure OneSided (feet : List Point) (c d : Point) (t : Trail) : Prop where
  anchored : Anchored feet t
  ends : ∀ first, t.points.head? = some first →
    t.points.length = 1 ∨ 0 < side c d first * side c d (foot t.lt t.rb)

theorem Anchored.create {feet : List Point} {a b : Point} (hFoot : foot a b ∈ feet) :
    Anchored feet (Trail.create a b) where
  last := rfl
  known p mem := by
    rw [Trail.create_points, List.mem_singleton] at mem
    rwa [mem]

theorem Anchored.insert {feet : List Point} {t : Trail} {a b : Point} (anchored : Anchored feet t)
    (hFoot : foot a b ∈ feet) : Anchored feet (t.insert a b) where
  last := by
    rw [Trail.insert_points, Trail.insert_lt, Trail.insert_rb]
    split_ifs <;> simp
  known p mem := by
    rw [Trail.insert_points] at mem
    split_ifs at mem
    · rw [List.mem_singleton.mp mem]
      exact hFoot
    · rcases List.mem_append.mp mem with mem | mem
      · exact anchored.known p mem
      · rw [List.mem_singleton.mp mem]
        exact hFoot

theorem Anchored.foot_mem {feet : List Point} {t : Trail} (anchored : Anchored feet t) :
    foot t.lt t.rb ∈ feet :=
  anchored.known _ (List.mem_of_getLast? anchored.last)

theorem Anchored.head? {feet : List Point} {t : Trail} (anchored : Anchored feet t) :
    ∃ first, t.points.head? = some first := by
  cases hPoints : t.points with
  | nil =>
      have hLast := anchored.last
      rw [hPoints] at hLast
      cases hLast
  | cons first others => exact ⟨first, rfl⟩

/-- A foot opposite to the last one is also opposite to the first one. -/
theorem OneSided.first_opposite {feet : List Point} {c d : Point} {t : Trail}
    (oneSided : OneSided feet c d t) {first p : Point}
    (hFirst : t.points.head? = some first)
    (hOpposite : side c d (foot t.lt t.rb) * side c d p < 0) :
    ¬ 0 < side c d first * side c d p := by
  rcases oneSided.ends first hFirst with hSingle | hSame
  · obtain ⟨only, hOnly⟩ := List.length_eq_one_iff.mp hSingle
    have hLast := oneSided.anchored.last
    rw [hOnly] at hFirst hLast
    have hSame : first = foot t.lt t.rb :=
      (Option.some.inj hFirst).symm.trans (Option.some.inj hLast)
    rw [hSame]
    exact not_lt_of_gt hOpposite
  · exact not_sameSide hSame hOpposite

namespace DstEngine

variable {α : Type*} [LT α] [DecidableLT α]

/-- The world in which `cross` is the segment test of the source. -/
def envOfCross (cross : Point → Point → Point → Point → Bool) (stray : Bool)
    (metric : Metric α) (ip : String) : Env α :=
  { judges := Judges.ofSource cross stray, metric := metric, ip := ip }

variable {cross : Point → Point → Point → Point → Bool} {stray : Bool} {metric : Metric α}
variable {ip : String} {p₀ p₁ : Point} {rest : List Point} {feet : List Point}

theorem crosses_line (trail : List Point) :
    (Judges.ofSource cross stray).crosses trail ⟨Graph.line.value, p₀ :: p₁ :: rest⟩ =
      (judgeOutLine cross trail (p₀ :: p₁ :: rest)).getD stray := by
  unfold Judges.crosses
  rw [Graph.ofInt_value]
  rfl

/-- After the check of its only border, a trail has both ends on one side: it
is either reset or was found not to cross. -/
theorem crossOutcome_oneSided (hSpan : SpansScene cross p₀ p₁ feet) {t : Trail}
    (anchored : Anchored feet t) :
    OneSided feet p₀ p₁ (crossOutcome (Judges.ofSource cross stray)
      [⟨Graph.line.value, p₀ :: p₁ :: rest⟩] t).1 := by
  have hFoot := anchored.foot_mem
  have hOutcome : (crossOutcome (Judges.ofSource cross stray)
      [⟨Graph.line.value, p₀ :: p₁ :: rest⟩] t).1 =
        if (Judges.ofSource cross stray).crosses t.points
          ⟨Graph.line.value, p₀ :: p₁ :: rest⟩ then t.clear else t := by
    unfold crossOutcome
    rw [List.foldl_cons, List.foldl_nil, crossStep]
    split_ifs <;> rfl
  rw [hOutcome]
  by_cases hCross : (Judges.ofSource cross stray).crosses t.points
      ⟨Graph.line.value, p₀ :: p₁ :: rest⟩ = true
  · rw [if_pos hCross]
    refine ⟨⟨rfl, ?_⟩, fun first _ => Or.inl rfl⟩
    intro p mem
    rw [Trail.clear_points, List.mem_singleton] at mem
    rwa [mem]
  · rw [if_neg hCross]
    refine ⟨anchored, ?_⟩
    intro first hFirst
    by_cases hLength : t.points.length = 1
    · exact Or.inl hLength
    · apply Or.inr
      have hLong : 2 ≤ t.points.length := by
        have hPos : 0 < t.points.length := by
          apply List.length_pos_of_mem
          exact List.mem_of_head? hFirst
        omega
      by_contra hSame
      have hHit := (hSpan first (anchored.known _ (List.mem_of_head? hFirst)) _ hFoot).mpr hSame
      have hJudge := judgeOutLine_ends cross p₀ p₁ rest hFirst anchored.last hLong hHit
      rw [crosses_line, hJudge] at hCross
      exact hCross rfl

/-- The call gets to the crossing check. -/
def ReachesCheck (s : DstEngine) (c : Call) : Prop :=
  ¬ Blocked s c ∧ clipFault c .region (dueMarker s c) (window s c) = false

instance (s : DstEngine) (c : Call) : Decidable (ReachesCheck s c) :=
  inferInstanceAs (Decidable (_ ∧ _))

/-- The feet of all persons of a run. -/
def runFeet (calls : List Call) : List Point :=
  calls.flatMap fun c => c.frame.persons.map DetectInfo.foot

theorem step_trails_of_reach (env : Env α) {s : DstEngine} {c : Call} (hReach : ReachesCheck s c) :
    (step env s c).trails = (detected env s c).trails.map
      (fun t => (crossOutcome env.judges c.borders t).1) := by
  rw [step_accepted env s c hReach.1, if_neg (by simp [hReach.2])]
  have hTrails := (crossed_spec env s c).2.1
  split_ifs
  · exact hTrails
  · exact hTrails

/-- A property of the trails holds after every run in which the check is always
reached, as soon as no call of the run breaks it. -/
theorem trails_rule (env : Env α) {motive : List Trail → Prop} (initial : motive [])
    {calls : List Call} (preserve : ∀ s, ∀ c ∈ calls, motive s.trails →
      motive ((detected env s c).trails.map
        (fun t => (crossOutcome env.judges c.borders t).1)))
    (hReach : ∀ t ∈ Machine.history (step env) init calls, ReachesCheck t.before t.input) :
    motive (Machine.run (step env) init calls).trails := by
  induction calls using List.reverseRecOn with
  | nil => exact initial
  | append_singleton calls c ih =>
      rw [Machine.history_concat] at hReach
      have hBefore := ih (fun s call mem => preserve s call (List.mem_append_left _ mem))
        (fun t mem => hReach t (List.mem_append_left _ mem))
      have hHere : ReachesCheck (Machine.run (step env) init calls) c :=
        hReach _ (List.mem_append_right _ (List.mem_singleton_self _))
      rw [Machine.run_concat, step_trails_of_reach env hHere]
      exact preserve _ c (by simp) hBefore

theorem assignAll_anchored {trails : List Trail} {boxes : List Rectangle}
    (anchored : ∀ t ∈ trails, Anchored feet t)
    (hFeet : ∀ box ∈ boxes, foot box.anchorLt box.anchorRb ∈ feet) :
    ∀ t ∈ assignAll metric trails boxes, Anchored feet t := by
  apply (assignAll_absorbs metric trails boxes).forall_mem (motive := Anchored feet) anchored
  · intro t hAnchored box mem
    exact hAnchored.insert (hFeet box mem)
  · intro box mem
    exact Anchored.create (hFeet box mem)

theorem ageTrails_oneSided {trails : List Trail}
    (oneSided : ∀ t ∈ trails, OneSided feet p₀ p₁ t) :
    ∀ t ∈ ageTrails trails, OneSided feet p₀ p₁ t := by
  intro t mem
  obtain ⟨old, hOld, _, rfl⟩ := mem_ageTrails.mp mem
  have h := oneSided old hOld
  exact ⟨⟨h.anchored.last, h.anchored.known⟩, h.ends⟩

/-- The invariant of runs in which the check of the spanning line is always
reached. -/
theorem oneSided_run (hSpan : SpansScene cross p₀ p₁ feet) (calls : List Call)
    (hBorder : ∀ c ∈ calls, c.borders = [⟨Graph.line.value, p₀ :: p₁ :: rest⟩])
    (hFeet : ∀ p ∈ runFeet calls, p ∈ feet)
    (hReach : ∀ t ∈ Machine.history (step (envOfCross cross stray metric ip)) init calls,
      ReachesCheck t.before t.input) :
    ∀ t ∈ (Machine.run (step (envOfCross cross stray metric ip)) init calls).trails,
      OneSided feet p₀ p₁ t := by
  refine trails_rule _ (motive := fun trails => ∀ t ∈ trails, OneSided feet p₀ p₁ t) ?_ ?_ hReach
  · intro t mem
    cases mem
  · intro s c hCall hBefore t mem
    obtain ⟨checked, hChecked, rfl⟩ := List.mem_map.mp mem
    rw [hBorder c hCall]
    apply crossOutcome_oneSided hSpan
    rw [(detected_spec _ _ _).1] at hChecked
    refine assignAll_anchored ?_ ?_ checked hChecked
    · intro old hOld
      exact (ageTrails_oneSided hBefore old hOld).anchored
    · intro box hBox
      obtain ⟨det, hDet, rfl⟩ := List.mem_map.mp hBox
      apply hFeet
      exact List.mem_flatMap.mpr ⟨c, hCall, List.mem_map.mpr ⟨det, hDet, rfl⟩⟩

/-- A border alarm was raised for the trail at position `i`. -/
def alarmedFor (i : Nat) (trace : List Event) : Bool :=
  trace.any fun
    | .raised .border _ (some j) => j = i
    | _ => false

theorem alarmedFor_append (i : Nat) (first second : List Event) :
    alarmedFor i (first ++ second) = (alarmedFor i first || alarmedFor i second) :=
  List.any_append

theorem alarmedFor_of_region {trace : List Event} (i : Nat)
    (phase : ∀ e ∈ trace, e.ofPhase .region = true) : alarmedFor i trace = false := by
  apply List.any_eq_false.mpr
  intro e mem
  have hPhase := phase e mem
  cases e with
  | raised type id trail =>
      cases type with
      | region => simp
      | border => cases hPhase
  | _ => simp

theorem alarmedFor_of_clip {trace : List Event} (i : Nat)
    (clip : ∀ e ∈ trace, e.ofClip = true) : alarmedFor i trace = false := by
  apply List.any_eq_false.mpr
  intro e mem
  have hClip := clip e mem
  cases e with
  | raised type id trail => cases hClip
  | _ => simp

theorem alarmedFor_crossEvents (c : Call) (i id : Nat) (positions : List Nat) :
    alarmedFor i (crossEvents c id positions) = true ↔ i ∈ positions := by
  induction positions generalizing id with
  | nil => simp [crossEvents, alarmedFor]
  | cons j others ih =>
      have hHere : alarmedFor i (alarmEvents c .border id (some j)) = decide (j = i) := by
        unfold alarmEvents
        split_ifs <;> simp [alarmedFor]
      have hRest : alarmedFor i (.cleared j :: crossEvents c (id + 1) others) =
          alarmedFor i (crossEvents c (id + 1) others) := rfl
      rw [crossEvents, alarmedFor_append, hHere, hRest, Bool.or_eq_true, ih, decide_eq_true_eq,
        List.mem_cons, eq_comm]

/-- In a call that reaches the check, the alarms are those of the trails that
cross a border at that moment. -/
theorem alarmedFor_step (env : Env α) {s : DstEngine} {c : Call} (hReach : ReachesCheck s c)
    (i : Nat) : alarmedFor i (step env s c).trace = true ↔
      ∃ t, (detected env s c).trails[i]? = some t ∧
        ∃ border ∈ c.borders, env.judges.crosses t.points border = true := by
  have hClip (type : AlarmType) (videoname : String) :=
    alarmedFor_of_clip i (clipEvents_ofClip c (window s c) type (dueMarker s c) videoname)
  have hPositions : borderPositions env s c =
      crossedTrails env.judges c.borders 0 (detected env s c).trails := by
    rw [borderPositions, if_neg (by simp [hReach.2])]
  rw [step_trace env s c hReach.1, alarmedFor_append, alarmedFor_append, alarmedFor_append,
    alarmedFor_of_region i (detected_trace env s c).1, hClip .region, hClip .border,
    Bool.or_false, Bool.false_or, Bool.false_or, alarmedFor_crossEvents, hPositions,
    mem_crossedTrails]
  simp

/-- The call inserts the detection into the trail `t`, which stands at position
`i` when the detection is looked at. -/
def Inserted (metric : Metric α) (s : DstEngine) (c : Call) (i : Nat) (t : Trail)
    (det : DetectInfo) : Prop :=
  ∃ before after, c.frame.persons = before ++ det :: after ∧
    let trails := assignAll metric (ageTrails s.trails) (before.map DetectInfo.location)
    chosenTrail metric det.location.anchorLt det.location.anchorRb trails = some i ∧
      trails[i]? = some t

/-- The trail that takes a detection is one of those left by the previous call,
and nothing else happens to it before the crossing check. -/
theorem Inserted.trail {env : Env α} {s : DstEngine} {c : Call} {i : Nat} {t : Trail}
    {det : DetectInfo} (inserted : Inserted env.metric s c i t det) :
    t ∈ ageTrails s.trails ∧ (detected env s c).trails[i]? =
      some (t.insert det.location.anchorLt det.location.anchorRb) := by
  obtain ⟨before, after, hPersons, hChosen, hGet⟩ := inserted
  have hOpen : t.insertable = true := by
    obtain ⟨chosen, hChosenGet, hOpen⟩ := chosenTrail_open _ _ _ _ _ hChosen
    rw [hGet, Option.some.injEq] at hChosenGet
    rwa [hChosenGet]
  constructor
  · have hAll := (assignAll_absorbs env.metric (ageTrails s.trails)
        (before.map DetectInfo.location)).forall_mem
      (motive := fun t => t.insertable = true → t ∈ ageTrails s.trails)
      (fun t mem _ => mem)
      (fun t _ box _ h => by cases (Trail.insert_insertable t _ _).symm.trans h)
      (fun box _ h => by cases h)
    exact hAll t (List.mem_of_getElem? hGet) hOpen
  · have hFinal : (detected env s c).trails = assignAll env.metric
        (assign env.metric det.location.anchorLt det.location.anchorRb
          (assignAll env.metric (ageTrails s.trails) (before.map DetectInfo.location)))
        (after.map DetectInfo.location) := by
      rw [(detected_spec env s c).1, hPersons, List.map_append, List.map_cons]
      unfold assignAll
      rw [List.foldl_append]
      rfl
    rw [hFinal, assign_of_chosen env.metric _ _ _ i t hChosen hGet]
    apply (assignAll_absorbs env.metric _ (after.map DetectInfo.location)).closed_stays
    · have hLength := (List.getElem?_eq_some_iff.mp hGet).1
      simp [hLength]
    · exact Trail.insert_insertable t _ _

/-- What the check finds after a step to the other side: everything as long as
the trail is not cut, nothing when it is. -/
theorem crosses_insert_iff (hSpan : SpansScene cross p₀ p₁ feet) {t : Trail}
    (oneSided : OneSided feet p₀ p₁ t) {a b : Point} (hFoot : foot a b ∈ feet)
    (hOpposite : side p₀ p₁ (foot t.lt t.rb) * side p₀ p₁ (foot a b) < 0) :
    (Judges.ofSource cross stray).crosses (t.insert a b).points
        ⟨Graph.line.value, p₀ :: p₁ :: rest⟩ = true ↔ t.points.length < much := by
  rw [crosses_line]
  by_cases hShort : t.points.length < much
  · obtain ⟨first, hFirst⟩ := oneSided.anchored.head?
    have hFirstMem : first ∈ t.points := List.mem_of_head? hFirst
    have hApart := oneSided.first_opposite hFirst hOpposite
    have hHit := (hSpan first (oneSided.anchored.known first hFirstMem) _ hFoot).mpr hApart
    rw [Trail.insert_points_of_lt t a b hShort]
    have hLong : 2 ≤ (t.points ++ [foot a b]).length := by
      have hPos := List.length_pos_of_mem hFirstMem
      rw [List.length_append, List.length_singleton]
      omega
    have hHead : (t.points ++ [foot a b]).head? = some first := by
      rw [List.head?_append, hFirst]
      rfl
    have hJudge := judgeOutLine_ends cross p₀ p₁ rest hHead List.getLast?_concat hLong hHit
    simp [hJudge, hShort]
  · rw [Trail.insert_points_of_le t a b (Nat.le_of_not_lt hShort),
      judgeOutLine_single cross rfl]
    simp [hShort]

variable (cross stray metric ip p₀ p₁ rest)

/-- In a run with one fixed line that spans the scene and whose check is always
reached, a step from one side to the other is reported in its own frame exactly
if the trail had not reached the length at which it is cut. -/
theorem crossing_reported_iff (calls : List Call) (c : Call)
    (hBorder : ∀ call ∈ calls ++ [c], call.borders = [⟨Graph.line.value, p₀ :: p₁ :: rest⟩])
    (hSpan : SpansScene cross p₀ p₁ (runFeet (calls ++ [c])))
    (hReach : ∀ t ∈ Machine.history (step (envOfCross cross stray metric ip)) init (calls ++ [c]),
      ReachesCheck t.before t.input)
    (i : Nat) (t : Trail) (det : DetectInfo) (prev : Point)
    (hInserted : Inserted metric
      (Machine.run (step (envOfCross cross stray metric ip)) init calls) c i t det)
    (hPrev : t.points.getLast? = some prev)
    (hOpposite : side p₀ p₁ prev * side p₀ p₁ det.foot < 0) :
    alarmedFor i (Machine.run (step (envOfCross cross stray metric ip)) init
      (calls ++ [c])).trace = true ↔ t.points.length < much := by
  rw [Machine.history_concat] at hReach
  have hHere := hReach _ (List.mem_append_right _ (List.mem_singleton_self _))
  have hFeet : ∀ p ∈ runFeet calls, p ∈ runFeet (calls ++ [c]) := by
    intro p mem
    rw [runFeet, List.flatMap_append]
    exact List.mem_append_left _ mem
  have hOneSided := oneSided_run hSpan calls
    (fun call mem => hBorder call (List.mem_append_left _ mem)) hFeet
    (fun t mem => hReach t (List.mem_append_left _ mem))
  obtain ⟨hOld, hFinal⟩ :=
    Inserted.trail
      (show Inserted (envOfCross cross stray metric ip).metric _ _ _ _ _ from hInserted)
  have hTrail := ageTrails_oneSided hOneSided t hOld
  have hFoot : foot det.location.anchorLt det.location.anchorRb ∈ runFeet (calls ++ [c]) := by
    obtain ⟨before, after, hPersons, _⟩ := hInserted
    rw [runFeet, List.flatMap_append]
    apply List.mem_append_right
    simp [hPersons, DetectInfo.foot]
  have hLast : prev = foot t.lt t.rb :=
    (Option.some.inj (hPrev.symm.trans hTrail.anchored.last))
  rw [hLast] at hOpposite
  have hCrosses : (envOfCross cross stray metric ip).judges.crosses
      (t.insert det.location.anchorLt det.location.anchorRb).points
      ⟨Graph.line.value, p₀ :: p₁ :: rest⟩ = true ↔ t.points.length < much :=
    crosses_insert_iff hSpan hTrail hFoot hOpposite
  rw [Machine.run_concat, alarmedFor_step _ hHere, hBorder c (by simp), ← hCrosses]
  simp only [hFinal, Option.some.injEq, List.mem_singleton, exists_eq_left, exists_eq_left']

section Sample

/-- The closed segments from `a` to `b` and from `c` to `d` have a point in
common. -/
def segmentsMeet (a b c d : Point) : Bool :=
  decide (min a.x b.x ≤ max c.x d.x ∧ min c.x d.x ≤ max a.x b.x ∧
    min a.y b.y ≤ max c.y d.y ∧ min c.y d.y ≤ max a.y b.y ∧
    side c d a * side c d b ≤ 0 ∧ side a b c * side a b d ≤ 0)

def sampleLine : Border :=
  ⟨Graph.line.value, [⟨0, 400⟩, ⟨1920, 400⟩]⟩

/-- A person whose foot is at height `y`, in front of the line for 300 and
behind it for 500. -/
def sampleAt (y : Int) : Call :=
  sampleCall [⟨⟨500, y - 100⟩, ⟨540, y⟩⟩] [sampleLine]

def sampleLineEnv : Env ℚ :=
  envOfCross segmentsMeet false (Metric.ofSource sampleSqrt) "192.168.1.10"

def sampleDetection (y : Int) : DetectInfo :=
  { classId := personLabel, confidence := 9 / 10, location := ⟨⟨500, y - 100⟩, ⟨540, y⟩⟩ }

/-- The trail of a person who has been standing in front of the line. -/
def sampleTrail (length : Nat) : Trail :=
  { count := 1, insertable := true, lt := ⟨500, 200⟩, rb := ⟨540, 300⟩,
    points := List.replicate length ⟨520, 300⟩ }

/-- After sixty frames in front of the line the step behind it cuts the trail
and is not reported. -/
theorem crossing_lost :
    let calls := List.replicate 60 (sampleAt 300)
    let c := sampleAt 500
    let s := Machine.run (step sampleLineEnv) init calls
    (∀ call ∈ calls ++ [c], call.borders = [sampleLine]) ∧
      SpansScene segmentsMeet ⟨0, 400⟩ ⟨1920, 400⟩ (runFeet (calls ++ [c])) ∧
      (∀ t ∈ Machine.history (step sampleLineEnv) init (calls ++ [c]),
        ReachesCheck t.before t.input) ∧
      Inserted sampleLineEnv.metric s c 0 (sampleTrail 60) (sampleDetection 500) ∧
      side ⟨0, 400⟩ ⟨1920, 400⟩ ⟨520, 300⟩ *
        side ⟨0, 400⟩ ⟨1920, 400⟩ (sampleDetection 500).foot < 0 ∧
      alarmedFor 0 (Machine.run (step sampleLineEnv) init (calls ++ [c])).trace = false := by
  refine ⟨by decide +kernel, by decide +kernel, by decide +kernel, ⟨[], [], ?_⟩,
    by decide, by decide +kernel⟩
  decide +kernel

theorem crossing_reported_iff_sample :
    alarmedFor 0 (Machine.run (step sampleLineEnv) init [sampleAt 300, sampleAt 500]).trace =
      true ↔ (sampleTrail 1).points.length < much :=
  crossing_reported_iff segmentsMeet false (Metric.ofSource sampleSqrt) "192.168.1.10"
    ⟨0, 400⟩ ⟨1920, 400⟩ [] [sampleAt 300] (sampleAt 500) (by decide) (by decide +kernel)
    (by decide +kernel) 0 (sampleTrail 1) (sampleDetection 500) ⟨520, 300⟩
    ⟨[], [], by decide +kernel⟩ rfl (by decide)

end Sample

end DstEngine
end Hengda

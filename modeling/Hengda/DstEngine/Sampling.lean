import Hengda.DstEngine.CrossingCheck

/-! The sampled scan of the line judges. A point that is not the last one of its
trail was the last one in an earlier frame, and was found not to cross then, so
that only the chord to the last point can decide. -/
namespace Hengda

section Judge

variable {cross : Point → Point → Point → Point → Bool}

/-- A hit of the stepping loop is a hit of some point behind the first. -/
theorem sampledHit_mem {hit : Point → Bool} {fuel : Nat} {it : List Point}
    (hHit : sampledHit hit fuel it = true) : ∃ p ∈ it.tail, hit p = true := by
  induction fuel generalizing it with
  | zero => cases hHit
  | succ fuel ih =>
      have hTail : ∀ p ∈ it.drop sep, p ∈ it.tail := by
        intro p mem
        have hDrop : it.drop sep = it.tail.drop 5 := by
          rw [← List.drop_one, List.drop_drop]
          rfl
        rw [hDrop] at mem
        exact List.mem_of_mem_drop mem
      unfold sampledHit at hHit
      cases hDrop : it.drop sep with
      | nil =>
          rw [hDrop] at hHit
          cases hHit
      | cons p rest =>
          rw [hDrop] at hHit hTail
          rcases (Bool.or_eq_true _ _).mp hHit with hHit | hHit
          · exact ⟨p, hTail p (by simp), hHit⟩
          · obtain ⟨q, mem, hQ⟩ := ih hHit
            exact ⟨q, hTail q (List.mem_cons_of_mem _ mem), hQ⟩

/-- The trail has two points, and the chord between its ends crosses. -/
def EndsCross (cross : Point → Point → Point → Point → Bool) (trail : List Point)
    (c d : Point) : Prop :=
  ∃ first rest, trail = first :: rest ∧ rest ≠ [] ∧ cross first (trail.getLastD first) c d = true

/-- No chord from the first point crosses one of the segments, up to the chord to
the last point. -/
def NearlyClean (cross : Point → Point → Point → Point → Bool) (segments : List (Point × Point))
    (trail : List Point) : Prop :=
  ∀ first rest, trail = first :: rest → ∀ p ∈ rest.dropLast, ∀ q ∈ segments,
    cross first p q.1 q.2 = false

/-- No chord from the first point crosses one of the segments. -/
def Clean (cross : Point → Point → Point → Point → Bool) (segments : List (Point × Point))
    (trail : List Point) : Prop :=
  ∀ first rest, trail = first :: rest → ∀ p ∈ rest, ∀ q ∈ segments, cross first p q.1 q.2 = false

/-- The sampled chords do not change the answer. -/
theorem chordHit_of_nearlyClean {segments : List (Point × Point)} {first : Point}
    {rest : List Point} (nearly : NearlyClean cross segments (first :: rest)) (hRest : rest ≠ [])
    {c d : Point} (hSegment : (c, d) ∈ segments) :
    chordHit cross first (first :: rest) c d =
      cross first ((first :: rest).getLastD first) c d := by
  unfold chordHit
  dsimp only
  split_ifs with hShort
  · rfl
  · cases hHit : sampledHit (fun p => cross first p c d) (first :: rest).length (first :: rest) with
    | false => rfl
    | true =>
        obtain ⟨p, mem, hCross⟩ := sampledHit_mem hHit
        have hLast : rest.dropLast ++ [rest.getLast hRest] = rest :=
          List.dropLast_append_getLast hRest
        rw [List.tail_cons, ← hLast] at mem
        rcases List.mem_append.mp mem with mem | mem
        · have hFalse := nearly first rest rfl p mem (c, d) hSegment
          dsimp only at hFalse
          rw [hFalse] at hCross
          cases hCross
        · rw [List.mem_singleton.mp mem] at hCross
          have hEnd : (first :: rest).getLastD first = rest.getLast hRest := by
            rw [List.getLastD_eq_getLast?, List.getLast?_cons, List.getLast?_eq_some_getLast hRest]
            rfl
          rw [hEnd, hCross]
          rfl

theorem judgeOutLine_of_nearlyClean {segments : List (Point × Point)} {trail : List Point}
    (nearly : NearlyClean cross segments trail) {c d : Point} (hSegment : (c, d) ∈ segments)
    (rest : List Point) :
    ∃ r, judgeOutLine cross trail (c :: d :: rest) = some r ∧
      (r = true ↔ EndsCross cross trail c d) := by
  match trail, nearly with
  | [], _ => exact ⟨false, rfl, by simp [EndsCross]⟩
  | [p], _ => exact ⟨false, rfl, by simp [EndsCross]⟩
  | first :: second :: others, nearly =>
      refine ⟨_, rfl, ?_⟩
      rw [chordHit_of_nearlyClean nearly (by simp) hSegment]
      simp [EndsCross]

/-- The segments of a broken line. -/
def chain (points : List Point) : List (Point × Point) :=
  points.zip points.tail

theorem brokenLineHit_eq (test : Point → Point → Bool) {points : List Point}
    (hPoints : points ≠ []) :
    brokenLineHit test points = some ((chain points).any fun q => test q.1 q.2) := by
  induction points with
  | nil => exact absurd rfl hPoints
  | cons c rest ih =>
      cases rest with
      | nil => rfl
      | cons d others =>
          have hRest := ih (by simp)
          rw [brokenLineHit, hRest]
          simp only [chain, List.tail_cons, List.zip_cons_cons, List.any_cons]
          cases test c d <;> simp

theorem judgeOutBrokenLine_of_nearlyClean {trail line : List Point}
    (nearly : NearlyClean cross (chain line) trail) (hLine : line ≠ []) :
    ∃ r, judgeOutBrokenLine cross trail line = some r ∧
      (r = true ↔ ∃ q ∈ chain line, EndsCross cross trail q.1 q.2) := by
  match trail, nearly with
  | [], _ => exact ⟨false, rfl, by simp [EndsCross]⟩
  | [p], _ => exact ⟨false, rfl, by simp [EndsCross]⟩
  | first :: second :: others, nearly =>
      refine ⟨_, brokenLineHit_eq _ hLine, ?_⟩
      rw [List.any_eq_true]
      apply exists_congr
      intro q
      apply and_congr_right
      intro mem
      rw [chordHit_of_nearlyClean nearly (by simp) mem]
      simp [EndsCross]

theorem Clean.nearly {segments : List (Point × Point)} {trail : List Point}
    (clean : Clean cross segments trail) : NearlyClean cross segments trail :=
  fun first rest hTrail p mem => clean first rest hTrail p (List.dropLast_subset rest mem)

theorem NearlyClean.mono {small large : List (Point × Point)} {trail : List Point}
    (nearly : NearlyClean cross large trail) (hSubset : ∀ q ∈ small, q ∈ large) :
    NearlyClean cross small trail :=
  fun first rest hTrail p mem q hq => nearly first rest hTrail p mem q (hSubset q hq)

theorem Clean.single (segments : List (Point × Point)) (p : Point) :
    Clean cross segments [p] := by
  intro first rest hTrail q mem
  rw [(List.cons.inj hTrail).2.symm] at mem
  cases mem

/-- The new last point is the only one that has not been looked at. -/
theorem Clean.append {segments : List (Point × Point)} {trail : List Point}
    (clean : Clean cross segments trail) (p : Point) :
    NearlyClean cross segments (trail ++ [p]) := by
  intro first rest hTrail q mem
  cases trail with
  | nil =>
      rw [(List.cons.inj hTrail).2.symm] at mem
      cases mem
  | cons start others =>
      obtain ⟨hStart, hRest⟩ := List.cons.inj hTrail
      have hDrop : rest.dropLast = others := by
        rw [← hRest]
        exact List.dropLast_concat
      rw [hDrop] at mem
      rw [← hStart]
      exact clean start others rfl q mem

/-- Once the chord to the last point is known not to cross either, all of them are. -/
theorem NearlyClean.clean {segments : List (Point × Point)} {trail : List Point}
    (nearly : NearlyClean cross segments trail)
    (hEnds : ∀ q ∈ segments, ¬ EndsCross cross trail q.1 q.2) : Clean cross segments trail := by
  intro first rest hTrail p mem q hq
  have hRest : rest ≠ [] := List.ne_nil_of_mem mem
  rw [← List.dropLast_append_getLast hRest] at mem
  rcases List.mem_append.mp mem with mem | mem
  · exact nearly first rest hTrail p mem q hq
  · rw [List.mem_singleton.mp mem, ← Bool.not_eq_true]
    intro hCross
    apply hEnds q hq
    refine ⟨first, rest, hTrail, hRest, ?_⟩
    have hLast : trail.getLastD first = rest.getLast hRest := by
      rw [hTrail, List.getLastD_eq_getLast?, List.getLast?_cons,
        List.getLast?_eq_some_getLast hRest]
      rfl
    rwa [hLast]

/-- The segments that the crossing check of a border looks at. -/
def Border.segments (border : Border) : List (Point × Point) :=
  match Graph.ofInt border.graph with
  | some .line => (chain border.points).take 1
  | some .brokenLine => chain border.points
  | _ => []

theorem crosses_iff_of_nearlyClean {stray : Bool} {border : Border} {trail : List Point}
    (hPoints : 2 ≤ border.points.length) (nearly : NearlyClean cross border.segments trail) :
    (Judges.ofSource cross stray).crosses trail border = true ↔
      ∃ q ∈ border.segments, EndsCross cross trail q.1 q.2 := by
  obtain ⟨graph, points⟩ := border
  match points, hPoints with
  | c :: d :: rest, _ =>
      unfold Judges.crosses
      unfold Border.segments at nearly ⊢
      dsimp only at nearly ⊢
      cases hGraph : Graph.ofInt graph with
      | none => simp
      | some kind =>
          rw [hGraph] at nearly
          cases kind with
          | none | rectangle | ellipse | polygon | curves => simp
          | line =>
              obtain ⟨r, hJudge, hIff⟩ := judgeOutLine_of_nearlyClean nearly
                (c := c) (d := d) (by simp [chain]) rest
              change (judgeOutLine cross trail (c :: d :: rest)).getD stray = true ↔ _
              rw [hJudge, Option.getD_some, hIff]
              simp [chain]
          | brokenLine =>
              obtain ⟨r, hJudge, hIff⟩ := judgeOutBrokenLine_of_nearlyClean nearly (by simp)
              change (judgeOutBrokenLine cross trail (c :: d :: rest)).getD stray = true ↔ _
              rw [hJudge, Option.getD_some, hIff]

end Judge

namespace DstEngine

section Run

variable {α : Type*} [LT α] [DecidableLT α] {metric : Metric α}
variable {cross : Point → Point → Point → Point → Bool} {stray : Bool} {ip : String}
variable {borders : List Border} {segments : List (Point × Point)}

/-- The segments of all borders. -/
def allSegments (borders : List Border) : List (Point × Point) :=
  borders.flatMap Border.segments

theorem mem_allSegments {border : Border} (mem : border ∈ borders) :
    ∀ q ∈ border.segments, q ∈ allSegments borders :=
  fun _ hq => List.mem_flatMap.mpr ⟨border, mem, hq⟩

/-- An insertion either adds a last point or leaves nothing else. -/
theorem nearlyClean_insert {t : Trail} (clean : Clean cross segments t.points) (a b : Point) :
    NearlyClean cross segments (t.insert a b).points := by
  rw [Trail.insert_points]
  split_ifs
  · exact (Clean.single segments (foot a b)).nearly
  · exact clean.append (foot a b)

/-- In one frame a trail takes at most one detection, so at most one of its
points is new when the check looks at it. -/
theorem detected_nearlyClean (env : Env α) {s : DstEngine} {c : Call}
    (clean : ∀ t ∈ s.trails, Clean cross segments t.points) :
    ∀ t ∈ (detected env s c).trails, NearlyClean cross segments t.points := by
  intro t mem
  have hAged : ∀ old ∈ ageTrails s.trails, Clean cross segments old.points := by
    intro old hOld
    obtain ⟨before, hBefore, _, rfl⟩ := mem_ageTrails.mp hOld
    exact clean before hBefore
  rw [(detected_spec env s c).1] at mem
  rcases (assignAll_absorbs env.metric _ _).origin mem with
    hOld | ⟨old, hOld, _, box, _, rfl⟩ | ⟨box, _, rfl⟩
  · exact (hAged t hOld).nearly
  · exact nearlyClean_insert (hAged old hOld) _ _
  · exact (Clean.single segments (foot box.anchorLt box.anchorRb)).nearly

/-- After the check of all borders a trail is either reset or was found not to
cross any of them. -/
theorem crossOutcome_clean (hPoints : ∀ border ∈ borders, 2 ≤ border.points.length) {t : Trail}
    (nearly : NearlyClean cross (allSegments borders) t.points) :
    Clean cross (allSegments borders)
      (crossOutcome (Judges.ofSource cross stray) borders t).1.points := by
  rw [crossOutcome_eq (Judges.ofSource_settled cross stray)]
  split_ifs with hAny
  · exact Clean.single _ _
  · apply nearly.clean
    intro q hq hEnds
    obtain ⟨border, hBorder, hSegment⟩ := List.mem_flatMap.mp hq
    apply hAny
    apply List.any_eq_true.mpr
    refine ⟨border, hBorder, ?_⟩
    rw [crosses_iff_of_nearlyClean (hPoints border hBorder)
      (nearly.mono (mem_allSegments hBorder))]
    exact ⟨q, hSegment, hEnds⟩

/-- The invariant of runs in which the check is always reached. -/
theorem clean_run (calls : List Call) (hBorders : ∀ c ∈ calls, c.borders = borders)
    (hPoints : ∀ border ∈ borders, 2 ≤ border.points.length)
    (hReach : ∀ t ∈ Machine.history (step (envOfCross cross stray metric ip)) init calls,
      ReachesCheck t.before t.input) :
    ∀ t ∈ (Machine.run (step (envOfCross cross stray metric ip)) init calls).trails,
      Clean cross (allSegments borders) t.points := by
  refine trails_rule _ (motive := fun trails =>
    ∀ t ∈ trails, Clean cross (allSegments borders) t.points) ?_ ?_ hReach
  · intro t mem
    cases mem
  · intro s c hCall hBefore t mem
    obtain ⟨checked, hChecked, rfl⟩ := List.mem_map.mp mem
    rw [hBorders c hCall]
    exact crossOutcome_clean hPoints (detected_nearlyClean _ hBefore checked hChecked)

/-- The check of the state `s` asks the judges about the trail `t` and the
border: those of the earlier trails, and of the earlier borders for the trail
at position `i`, are behind it. -/
def Evaluated (env : Env α) (c : Call) (s : DstEngine) (t : Trail) (border : Border) : Prop :=
  ∃ i start before after, s.trails[i]? = some start ∧ c.borders = before ++ border :: after ∧
    t = (before.foldl (crossBorder env c i)
      (start, (crossTrails env c 0 (s.trails.take i) s).2)).1

omit [LT α] [DecidableLT α] in
theorem Evaluated.nearlyClean {c : Call} {s : DstEngine} {t : Trail} {border : Border}
    (evaluated : Evaluated (envOfCross cross stray metric ip) c s t border)
    (nearly : ∀ t ∈ s.trails, NearlyClean cross segments t.points) :
    NearlyClean cross segments t.points := by
  obtain ⟨i, start, before, after, hGet, _, rfl⟩ := evaluated
  rw [foldl_crossBorder]
  change NearlyClean cross segments
    (crossOutcome (Judges.ofSource cross stray) before start).1.points
  rw [crossOutcome_eq (Judges.ofSource_settled cross stray)]
  split_ifs
  · exact (Clean.single segments (foot start.lt start.rb)).nearly
  · exact nearly start (List.mem_of_getElem? hGet)

variable (cross stray metric ip borders)

/-- In online use the sampled scan is the test of the chord between the two ends
of the trail. -/
theorem sampled_scan (calls : List Call) (hBorders : ∀ c ∈ calls, c.borders = borders)
    (hPoints : ∀ border ∈ borders, 2 ≤ border.points.length)
    (hReach : ∀ t ∈ Machine.history (step (envOfCross cross stray metric ip)) init calls,
      ReachesCheck t.before t.input) :
    ∀ call ∈ Machine.history (step (envOfCross cross stray metric ip)) init calls,
      ∀ t border, Evaluated (envOfCross cross stray metric ip) call.input
          (afterRegionClip (envOfCross cross stray metric ip) call.before call.input) t border →
        (border.graph = Graph.line.value → ∃ c d rest, border.points = c :: d :: rest ∧
          ∃ r, judgeOutLine cross t.points border.points = some r ∧
            (r = true ↔ EndsCross cross t.points c d)) ∧
        (border.graph = Graph.brokenLine.value →
          ∃ r, judgeOutBrokenLine cross t.points border.points = some r ∧
            (r = true ↔ ∃ q ∈ chain border.points, EndsCross cross t.points q.1 q.2)) := by
  intro call hCall t border evaluated
  have hBorder : border ∈ borders := by
    obtain ⟨i, start, before, after, _, hSplit, _⟩ := evaluated
    rw [← hBorders call.input (Machine.mem_history hCall).2.1, hSplit]
    simp
  have hNearly : NearlyClean cross border.segments t.points := by
    obtain ⟨k, hGet⟩ := List.getElem?_of_mem hCall
    rw [Machine.history_getElem?, Option.map_eq_some_iff] at hGet
    obtain ⟨input, _, rfl⟩ := hGet
    have hBefore : ∀ t ∈ Machine.history (step (envOfCross cross stray metric ip)) init
        (calls.take k), ReachesCheck t.before t.input := by
      rw [← Machine.history_take]
      exact fun t mem => hReach t (List.mem_of_mem_take mem)
    have hClean : ∀ t ∈ (Machine.run (step (envOfCross cross stray metric ip)) init
        (calls.take k)).trails, Clean cross (allSegments borders) t.points :=
      clean_run _ (fun c mem => hBorders c (List.mem_of_mem_take mem)) hPoints hBefore
    have hChecked := detected_nearlyClean (envOfCross cross stray metric ip) (c := input) hClean
    exact (evaluated.nearlyClean hChecked).mono (mem_allSegments hBorder)
  have hLength := hPoints border hBorder
  unfold Border.segments at hNearly
  constructor
  · intro hGraph
    rw [hGraph, Graph.ofInt_value] at hNearly
    match hPairs : border.points, hLength with
    | c :: d :: rest, _ =>
        rw [hPairs] at hNearly
        exact ⟨c, d, rest, rfl, judgeOutLine_of_nearlyClean hNearly (by simp [chain]) rest⟩
  · intro hGraph
    rw [hGraph, Graph.ofInt_value] at hNearly
    apply judgeOutBrokenLine_of_nearlyClean hNearly
    exact List.ne_nil_of_length_pos (by omega)

end Run

/-- The feet of a person who walks towards the line and then behind it. -/
def sampleFeet : List Int :=
  [300, 310, 320, 330, 340, 350, 360, 370, 500]

/-- The trail of this person when the last frame is looked at; with nine points it has a chord
from the first to the seventh one. -/
def sampleWalker : Trail :=
  { count := 0, insertable := false, lt := ⟨500, 400⟩, rb := ⟨540, 500⟩,
    points := sampleFeet.map fun y => ⟨520, y⟩ }

theorem sampled_scan_sample :
    (sampleLine.graph = Graph.line.value → ∃ c d rest, sampleLine.points = c :: d :: rest ∧
      ∃ r, judgeOutLine segmentsMeet sampleWalker.points sampleLine.points = some r ∧
        (r = true ↔ EndsCross segmentsMeet sampleWalker.points c d)) ∧
    (sampleLine.graph = Graph.brokenLine.value →
      ∃ r, judgeOutBrokenLine segmentsMeet sampleWalker.points sampleLine.points = some r ∧
        (r = true ↔ ∃ q ∈ chain sampleLine.points,
          EndsCross segmentsMeet sampleWalker.points q.1 q.2)) :=
  sampled_scan (Metric.ofSource sampleSqrt) segmentsMeet false "192.168.1.10" [sampleLine]
    (sampleFeet.map sampleAt) (by decide) (by decide) (by decide +kernel)
    ⟨Machine.run (step sampleLineEnv) init (sampleFeet.dropLast.map sampleAt), sampleAt 500,
      Machine.run (step sampleLineEnv) init (sampleFeet.map sampleAt)⟩
    (List.mem_of_getElem? (i := 8) rfl)
    sampleWalker sampleLine ⟨0, sampleWalker, [], [], by decide +kernel, rfl, rfl⟩

end DstEngine
end Hengda

import Hengda.DstEngine.Accesses
import Hengda.DstEngine.BestMatch
import Hengda.Utility.BordersLoader

/-! Which border files the judges can work with. The loader accepts every JSON
value, and the judges count on points that nobody has counted. -/
namespace Hengda

open Loops

/-- With enough fuel the judge has an answer: all its accesses are inside the
vectors and its loops end. -/
def Answers (judge : Nat → Option Bool) : Prop :=
  ∃ answer, Settles judge (some answer)

theorem answers_iff {judge : Nat → Option Bool} {outcome : Option Bool}
    (hSettles : Settles judge outcome) : Answers judge ↔ outcome.isSome = true := by
  constructor
  · rintro ⟨answer, hAnswer⟩
    rw [hSettles.unique hAnswer]
    rfl
  · intro hSome
    obtain ⟨answer, hOutcome⟩ := Option.isSome_iff_exists.mp hSome
    exact ⟨answer, hOutcome ▸ hSettles⟩

/-- The judge that the type of the border selects has an answer. -/
def Border.Judged (cross : Point → Point → Point → Point → Bool) (foot : Point)
    (trail : List Point) (border : Border) : Prop :=
  match Graph.ofInt border.graph with
  | some .rectangle => Answers fun fuel => Accesses.judgeOutRectangle fuel foot border.points
  | some .polygon => Answers fun fuel => Accesses.judgeOutPolygon fuel foot border.points
  | some .line => Answers (Accesses.judgeOutLine cross trail border.points)
  | some .brokenLine => Answers (Accesses.judgeOutBrokenLine cross trail border.points)
  | _ => True

/-- The numbers of points that the judges rely on. Those of a polygon only have to be
countable with an `int`. -/
def EnoughPoints (graph : Option Graph) (n : Nat) : Prop :=
  match graph with
  | some .rectangle => 2 ≤ n
  | some .polygon => 0 ≤ toInt32 n
  | some .line => 2 ≤ n
  | some .brokenLine => 1 ≤ n
  | _ => True

section Judges

variable {cross : Point → Point → Point → Point → Bool} {foot : Point} {trail : List Point}
  {border : Border}

theorem judgeOutRectangle_isSome (points : List Point) :
    (judgeOutRectangle foot points).isSome = true ↔ 2 ≤ points.length := by
  match points with
  | [] => simp [judgeOutRectangle]
  | [_] => simp [judgeOutRectangle]
  | _ :: _ :: _ => simp [judgeOutRectangle]

theorem judgeOutLine_isSome (hLong : 2 ≤ trail.length) (points : List Point) :
    (judgeOutLine cross trail points).isSome = true ↔ 2 ≤ points.length := by
  match trail with
  | [] => cases hLong
  | [_] => exact absurd hLong (by simp)
  | _ :: _ :: _ =>
      match points with
      | [] => simp [judgeOutLine]
      | [_] => simp [judgeOutLine]
      | _ :: _ :: _ => simp [judgeOutLine]

theorem brokenLineHit_isSome (test : Point → Point → Bool) {points : List Point}
    (hPoints : points ≠ []) : (brokenLineHit test points).isSome = true := by
  induction points with
  | nil => exact absurd rfl hPoints
  | cons q₀ rest ih =>
      cases rest with
      | nil => rfl
      | cons q₁ rest =>
          rw [brokenLineHit]
          split_ifs
          · rfl
          · exact ih (List.cons_ne_nil _ _)

theorem judgeOutBrokenLine_isSome (hLong : 2 ≤ trail.length) (points : List Point) :
    (judgeOutBrokenLine cross trail points).isSome = true ↔ 1 ≤ points.length := by
  match trail with
  | [] => cases hLong
  | [_] => exact absurd hLong (by simp)
  | first :: second :: rest =>
      cases points with
      | nil => simp [judgeOutBrokenLine, brokenLineHit]
      | cons q points =>
          apply iff_of_true
          · exact brokenLineHit_isSome _ (List.cons_ne_nil q points)
          · exact Nat.succ_pos _

/-- Trails of one point are not judged at all. -/
theorem judgeOutLine_isSome_of_short (hShort : trail.length < 2) (points : List Point) :
    (judgeOutLine cross trail points).isSome = true ∧
      (judgeOutBrokenLine cross trail points).isSome = true := by
  match trail with
  | [] => exact ⟨rfl, rfl⟩
  | [_] => exact ⟨rfl, rfl⟩
  | _ :: _ :: _ => exact absurd hShort (by simp)

theorem judgeOutPolygon_answers_iff (foot : Point) (points : List Point) :
    (Answers fun fuel => Accesses.judgeOutPolygon fuel foot points) ↔
      0 ≤ toInt32 points.length := by
  rw [answers_iff (Accesses.judgeOutPolygon_settles foot points)]
  split_ifs with hNegative
  · exact iff_of_false Bool.false_ne_true (not_le.mpr hNegative)
  · exact iff_of_true rfl (not_lt.mp hNegative)

/-- A trail of two points shows whether a border has enough points. -/
theorem judged_iff (hLong : 2 ≤ trail.length) : border.Judged cross foot trail ↔
    EnoughPoints (Graph.ofInt border.graph) border.points.length := by
  unfold Border.Judged EnoughPoints
  cases Graph.ofInt border.graph with
  | none => exact Iff.rfl
  | some graph =>
      cases graph with
      | rectangle =>
          exact (answers_iff (Accesses.judgeOutRectangle_settles foot _)).trans
            (judgeOutRectangle_isSome _)
      | polygon => exact judgeOutPolygon_answers_iff foot _
      | line =>
          exact (answers_iff (Accesses.judgeOutLine_settles cross trail _)).trans
            (judgeOutLine_isSome hLong _)
      | brokenLine =>
          exact (answers_iff (Accesses.judgeOutBrokenLine_settles cross trail _)).trans
            (judgeOutBrokenLine_isSome hLong _)
      | none => exact Iff.rfl
      | ellipse => exact Iff.rfl
      | curves => exact Iff.rfl

/-- With enough points every trail can be judged. -/
theorem judged_of_enoughPoints
    (hEnough : EnoughPoints (Graph.ofInt border.graph) border.points.length) :
    border.Judged cross foot trail := by
  rcases Nat.lt_or_ge trail.length 2 with hShort | hLong
  · obtain ⟨hLine, hBrokenLine⟩ := judgeOutLine_isSome_of_short hShort border.points
    have hOther : border.Judged cross foot [foot, foot] := (judged_iff (by simp)).mpr hEnough
    unfold Border.Judged at hOther ⊢
    cases hGraph : Graph.ofInt border.graph with
    | none => trivial
    | some graph =>
        rw [hGraph] at hOther
        cases graph with
        | line => exact (answers_iff (Accesses.judgeOutLine_settles cross trail _)).mpr hLine
        | brokenLine =>
            exact (answers_iff (Accesses.judgeOutBrokenLine_settles cross trail _)).mpr hBrokenLine
        | _ => exact hOther
  · exact (judged_iff hLong).mpr hEnough

end Judges

/-- The engine with the tests and the arithmetic of the source. -/
noncomputable def Env.ofSource (cross : Point → Point → Point → Point → Bool) (stray : Bool)
    (ip : String) : Env ℝ where
  judges := Judges.ofSource cross stray
  metric := Metric.exact
  ip := ip

namespace DstEngine

section Trails

variable {α : Type*} [LT α] [DecidableLT α] (env : Env α)

/-- The trails that come before a line judge in some run: the call gets as far as the
crossing check, and the trail has been tested against some of the borders. -/
def CheckedTrail (t : Trail) : Prop :=
  ∃ s c, Machine.Reachable (step env) init s ∧ ¬ Blocked s c ∧
    clipFault c .region (dueMarker s c) (window s c) = false ∧
    ∃ start ∈ (detected env s c).trails, ∃ before, before <+: c.borders ∧
      t = (crossOutcome env.judges before start).1

/-- A call without borders ends with the trails that it has detected. -/
theorem step_trails_of_noBorders {s : DstEngine} {c : Call} (hAccepted : ¬ Blocked s c)
    (hBorders : c.borders = []) : (step env s c).trails = (detected env s c).trails := by
  have hCrossed : (crossed env s c).trails = (detected env s c).trails := by
    rw [(crossed_spec env s c).2.1, hBorders]
    exact List.map_id _
  rw [step_accepted env s c hAccepted]
  split_ifs
  · rfl
  · exact hCrossed
  · exact hCrossed

end Trails

/-- A person who stands still, in two frames. -/
def standing : Call :=
  sampleCall [⟨⟨500, 400⟩, ⟨540, 500⟩⟩] []

/-- A single open trail takes every detection away from the edges. -/
theorem goesInto_single {box : Rectangle} {t : Trail} (hBox : box.InFrame) (ht : t.InFrame)
    (hOpen : t.insertable = true) (hAway : AwayFromEdges (foot box.anchorLt box.anchorRb)) :
    GoesInto box [t] 0 t := by
  have hRule : BestMatchRule box [t] := bestMatchRule hBox (by simpa using ht)
  obtain ⟨k, u, isMax⟩ := hRule.opened ⟨t, List.mem_singleton_self t, hOpen⟩
  have hGet := isMax.position
  rw [List.getElem?_singleton] at hGet
  split_ifs at hGet with hZero
  obtain rfl := Option.some.inj hGet
  rw [← hZero]
  exact hRule.good k t isMax (Or.inr hAway)

variable (cross : Point → Point → Point → Point → Bool) (stray : Bool) (ip : String)

/-- The window of the second call is too short for a clip. -/
theorem standing_dueMarker {env : Env ℝ} :
    dueMarker (step env init standing) standing = 0 := by
  have hAccepted : ¬ Blocked init standing := by decide
  obtain ⟨hVideos, _, _, _, hCondition⟩ := step_fields env init standing hAccepted
  have hLength : (step env init standing).resultCondition.length = 1 := by
    rw [hCondition]
    split_ifs <;> rfl
  unfold dueMarker resultCenter pushFrame
  rw [hVideos]
  have hAppended : ((step env init standing).resultCondition ++ [0]).length = 2 := by
    rw [List.length_append, hLength]
    rfl
  change (if ((step env init standing).resultCondition ++ [0]).length = clipLength then
    ((step env init standing).resultCondition ++ [0]).getD clipCenter 0 else 0) = 0
  rw [hAppended]
  rfl

/-- Trails of two points occur. -/
theorem exists_longTrail :
    ∃ t, CheckedTrail (Env.ofSource cross stray ip) t ∧ 2 ≤ t.points.length := by
  let env := Env.ofSource cross stray ip
  let box : Rectangle := ⟨⟨500, 400⟩, ⟨540, 500⟩⟩
  let old := Trail.create box.anchorLt box.anchorRb
  have hFirst : (step env init standing).trails = [old] := by
    rw [step_trails_of_noBorders env (by decide) rfl, (detected_spec env init standing).1]
    rfl
  have hSecond : (detected env (step env init standing) standing).trails =
      [old.updateStatesCommon.insert box.anchorLt box.anchorRb] := by
    rw [(detected_spec env _ standing).1, hFirst]
    exact goesInto_single (by decide : box.InFrame) (by decide) rfl (by decide)
  refine ⟨old.updateStatesCommon.insert box.anchorLt box.anchorRb,
    ⟨step env init standing, standing, (Machine.Reachable.refl _ _).next standing, ?_, ?_, _,
      hSecond ▸ List.mem_singleton_self _, [], List.nil_prefix, rfl⟩, ?_⟩
  · rintro ⟨_, hClosed⟩
    cases hClosed
  · unfold clipFault
    rw [standing_dueMarker]
    rfl
  · rw [Trail.insert_points_of_lt _ _ _ (by decide)]
    exact Nat.le_refl 2

section Files

variable (text : JsonText) (filename : String) (loader : BordersLoader)

/-- Whatever stands in the file, no foot point and no trail of a run leads a judge out of
a vector or into a loop without end. -/
def FileHarmless : Prop :=
  ∀ foot t border, CheckedTrail (Env.ofSource cross stray ip) t →
    border ∈ (loader.load text filename).1 → border.Judged cross foot t.points

/-- The file is harmless exactly if each of its borders lists enough points. -/
theorem fileHarmless_iff : FileHarmless cross stray ip text filename loader ↔
    ∀ stack ∈ (loader.load text filename).2.borders.arrayItems,
      EnoughPoints (Graph.ofInt (stack.member "type").intValue)
        (stack.member "points").arrayItems.length := by
  have hBorder (stack : Json11) : stack.toBorder.points.length =
      (stack.member "points").arrayItems.length := List.length_map _
  constructor
  · intro hHarmless stack mem
    obtain ⟨t, hChecked, hLong⟩ := exists_longTrail cross stray ip
    have hJudged := hHarmless ⟨520, 500⟩ t stack.toBorder hChecked (List.mem_map_of_mem mem)
    rw [judged_iff hLong, hBorder] at hJudged
    exact hJudged
  · intro hEnough foot t border _ mem
    obtain ⟨stack, hStack, rfl⟩ := List.mem_map.mp mem
    apply judged_of_enoughPoints
    rw [hBorder]
    exact hEnough stack hStack

end Files

/-- A rectangle without points. -/
def emptyRectangle : Json11 :=
  .array [.object [("points", .array []), ("type", .int 1)]]

/-- What the file has for it. -/
def emptyRectangleText : Text :=
  "[\x7b\"points\": [], \"type\": 1\x7d]".toList

/-- The corners of the rectangle are read although it has none. -/
theorem not_fileHarmless : ¬ FileHarmless (crossLine (.finite 0)) false "192.168.1.10"
    (.ofFile emptyRectangleText emptyRectangle) "cam.json" (.ofFile emptyRectangleText) := by
  intro hHarmless
  obtain ⟨t, hChecked, hLong⟩ := exists_longTrail (crossLine (.finite 0)) false "192.168.1.10"
  have mem : ⟨1, []⟩ ∈ ((BordersLoader.ofFile emptyRectangleText).load
      (.ofFile emptyRectangleText emptyRectangle) "cam.json").1 := by
    rw [BordersLoader.load_ofFile]
    exact List.mem_singleton_self _
  have hJudged := hHarmless ⟨520, 500⟩ t ⟨1, []⟩ hChecked mem
  rw [judged_iff hLong] at hJudged
  change 2 ≤ 0 at hJudged
  omega

end DstEngine
end Hengda

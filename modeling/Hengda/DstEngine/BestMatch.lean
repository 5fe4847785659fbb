import Hengda.DstEngine.Tracking
import Hengda.DstEngine.Weight
import Hengda.Library.FirstMax

/-! Which trail takes a detection. The search starts from a sentinel and reports
no trail if none is above it, so that everything rests on the sentinel being
below every weight that can occur. -/
namespace Hengda

/-- The foot is at least 100 pixels from each edge of the frame. -/
def AwayFromEdges (p : Point) : Prop :=
  (100 ≤ p.x ∧ 100 ≤ 1920 - p.x) ∧ (100 ≤ p.y ∧ 100 ≤ 1080 - p.y)

instance (p : Point) : Decidable (AwayFromEdges p) :=
  inferInstanceAs (Decidable (_ ∧ _))

theorem nearEdge_eq_false_iff (p : Point) : nearEdge p = false ↔ AwayFromEdges p := by
  unfold nearEdge AwayFromEdges
  rw [decide_eq_false_iff_not]
  omega

section Search

variable {α : Type*} [LinearOrder α]

/-- The first of the best open trails. -/
def IsBestMatch (metric : Metric α) (a b : Point) (trails : List Trail) (k : Nat) (t : Trail) :
    Prop :=
  FirstMax.IsFirstMax (fun t => metric.calDis t a b) (fun t => t.insertable = true) trails k t

/-- The search either keeps what it started with, as no open trail is better, or
returns the best match. -/
theorem bestMatch_spec (metric : Metric α) (a b : Point) (i : Nat) (trails : List Trail)
    (resMax : α) (target : Option Nat) :
    (bestMatch metric a b i trails resMax target = (resMax, target) ∧
      ∀ t ∈ trails, t.insertable = true → metric.calDis t a b ≤ resMax) ∨
    ∃ k t, IsBestMatch metric a b trails k t ∧ resMax < metric.calDis t a b ∧
      bestMatch metric a b i trails resMax target = (metric.calDis t a b, some (i + k)) := by
  induction trails generalizing i resMax target with
  | nil => exact Or.inl ⟨rfl, fun _ mem => absurd mem List.not_mem_nil⟩
  | cons it rest ih =>
      unfold bestMatch
      by_cases hOpen : it.insertable = true
      · rw [if_pos hOpen]
        dsimp only
        split_ifs with hBetter
        · right
          rcases ih (i + 1) (metric.calDis it a b) (some i) with
            ⟨hKept, hRest⟩ | ⟨k, t, isBest, hAbove, hFound⟩
          · exact ⟨0, it, .head hOpen hRest, hBetter, hKept⟩
          · refine ⟨k + 1, t, isBest.cons (fun _ => hAbove), lt_trans hBetter hAbove, ?_⟩
            rw [hFound, Nat.add_assoc, Nat.add_comm 1 k]
        · rcases ih (i + 1) resMax target with
            ⟨hKept, hRest⟩ | ⟨k, t, isBest, hAbove, hFound⟩
          · left
            refine ⟨hKept, ?_⟩
            intro t mem ht
            rcases List.mem_cons.mp mem with rfl | mem
            · exact not_lt.mp hBetter
            · exact hRest t mem ht
          · right
            refine ⟨k + 1, t, isBest.cons (fun _ => lt_of_le_of_lt (not_lt.mp hBetter) hAbove),
              hAbove, ?_⟩
            rw [hFound, Nat.add_assoc, Nat.add_comm 1 k]
      · rw [if_neg hOpen]
        rcases ih (i + 1) resMax target with ⟨hKept, hRest⟩ | ⟨k, t, isBest, hAbove, hFound⟩
        · left
          refine ⟨hKept, ?_⟩
          intro t mem ht
          rcases List.mem_cons.mp mem with rfl | mem
          · exact absurd ht hOpen
          · exact hRest t mem ht
        · right
          refine ⟨k + 1, t, isBest.cons (fun h => absurd h hOpen), hAbove, ?_⟩
          rw [hFound, Nat.add_assoc, Nat.add_comm 1 k]

/-- The trails whose weight could be mistaken for no trail at all. -/
def AboveSentinel (metric : Metric α) (a b : Point) (trails : List Trail) : Prop :=
  ∀ t ∈ trails, t.insertable = true → metric.resMax < metric.calDis t a b

theorem chosenTrail_of_closed (metric : Metric α) (a b : Point) {trails : List Trail}
    (hClosed : ∀ t ∈ trails, t.insertable = false) : chosenTrail metric a b trails = none := by
  cases hChosen : chosenTrail metric a b trails with
  | none => rfl
  | some k =>
      obtain ⟨t, hGet, hOpen⟩ := chosenTrail_open metric a b trails k hChosen
      rw [hClosed t (List.mem_of_getElem? hGet)] at hOpen
      cases hOpen

/-- Above the sentinel the search finds a trail as soon as one is open. -/
theorem exists_bestMatch {metric : Metric α} {a b : Point} {trails : List Trail}
    (hAbove : AboveSentinel metric a b trails) (hOpen : ∃ t ∈ trails, t.insertable = true) :
    ∃ k t, IsBestMatch metric a b trails k t ∧
      (metric.thresod < metric.calDis t a b ∨ AwayFromEdges (foot a b) →
        chosenTrail metric a b trails = some k) ∧
      (¬ (metric.thresod < metric.calDis t a b ∨ AwayFromEdges (foot a b)) →
        chosenTrail metric a b trails = none) := by
  obtain ⟨start, hMem, hStart⟩ := hOpen
  rcases bestMatch_spec metric a b 0 trails metric.resMax none with
    ⟨_, hNone⟩ | ⟨k, t, isBest, _, hFound⟩
  · exact absurd (hNone start hMem hStart) (not_le.mpr (hAbove start hMem hStart))
  · have hNonempty : ¬ trails.isEmpty = true := by
      rw [List.isEmpty_iff]
      exact List.ne_nil_of_mem hMem
    rw [← nearEdge_eq_false_iff]
    unfold chosenTrail
    rw [if_neg hNonempty, hFound]
    dsimp only
    rw [Nat.zero_add]
    refine ⟨k, t, isBest, ?_, ?_⟩
    · rintro (hGood | hAway)
      · rw [if_pos hGood]
      · rw [hAway, if_neg Bool.false_ne_true, ite_self]
    · intro hWeak
      obtain ⟨hLow, hNear⟩ := not_or.mp hWeak
      rw [if_neg hLow, if_pos (Bool.eq_true_of_not_eq_false hNear)]

end Search

/-- The frame is 1920 pixels wide and 1080 high. -/
def Point.InFrame (p : Point) : Prop :=
  (0 ≤ p.x ∧ p.x ≤ 1920) ∧ (0 ≤ p.y ∧ p.y ≤ 1080)

instance (p : Point) : Decidable p.InFrame :=
  inferInstanceAs (Decidable (_ ∧ _))

def Rectangle.InFrame (box : Rectangle) : Prop :=
  box.anchorLt.InFrame ∧ box.anchorRb.InFrame

instance (box : Rectangle) : Decidable box.InFrame :=
  inferInstanceAs (Decidable (_ ∧ _))

/-- The box of the trail is in the frame. -/
def Trail.InFrame (t : Trail) : Prop :=
  t.lt.InFrame ∧ t.rb.InFrame

instance (t : Trail) : Decidable t.InFrame :=
  inferInstanceAs (Decidable (_ ∧ _))

section Weight

/-- `NORMALIZE` exceeds the diagonal of the frame, if only by a tenth of a pixel. -/
theorem distance_lt_one {a b lt rb : Point} (ha : a.InFrame) (hb : b.InFrame)
    (hlt : lt.InFrame) (hrb : rb.InFrame) :
    Real.sqrt ((((a.x + b.x : Int) : ℝ) / 2 - ((lt.x + rb.x : Int) : ℝ) / 2) ^ 2 +
      (((a.y + b.y : Int) : ℝ) / 2 - ((lt.y + rb.y : Int) : ℝ) / 2) ^ 2) / 2203 < 1 := by
  have hBound (m n d : Int) (hm : 0 ≤ m ∧ m ≤ 2 * d) (hn : 0 ≤ n ∧ n ≤ 2 * d) :
      ((m : ℝ) / 2 - (n : ℝ) / 2) ^ 2 ≤ (d : ℝ) ^ 2 := by
    have hUpper : (m : ℝ) - n ≤ 2 * d := by exact_mod_cast (by omega : m - n ≤ 2 * d)
    have hLower : -(2 * d : ℝ) ≤ m - n := by exact_mod_cast (by omega : -(2 * d) ≤ m - n)
    apply sq_le_sq'
    · linarith
    · linarith
  unfold Point.InFrame at ha hb hlt hrb
  have hx := hBound (a.x + b.x) (lt.x + rb.x) 1920 (by omega) (by omega)
  have hy := hBound (a.y + b.y) (lt.y + rb.y) 1080 (by omega) (by omega)
  rw [div_lt_one (by norm_num), Real.sqrt_lt' (by norm_num)]
  push_cast at hx hy ⊢
  calc _ ≤ (1920 : ℝ) ^ 2 + 1080 ^ 2 := add_le_add hx hy
    _ < 2203 ^ 2 := by norm_num

/-- The measure of the source over the real numbers. -/
noncomputable def Metric.exact : Metric ℝ :=
  Metric.ofSource Real.sqrt

/-- In the frame every weight is above the sentinel. -/
theorem sentinel_lt_calDis {t : Trail} {a b : Point} (ht : t.InFrame) (ha : a.InFrame)
    (hb : b.InFrame) : Metric.exact.resMax < Metric.exact.calDis t a b := by
  have hOverlap := Trail.iou_nonneg a b t.lt t.rb
  have hDistance : Trail.centreDistance ℝ a b t.lt t.rb Real.sqrt < 1 :=
    distance_lt_one ha hb ht.1 ht.2
  change Trail.theta ℝ - 1 < Trail.calDis Real.sqrt t a b
  rw [Trail.calDis_eq]
  unfold Trail.theta
  linarith

theorem aboveSentinel {trails : List Trail} {a b : Point} (hTrails : ∀ t ∈ trails, t.InFrame)
    (ha : a.InFrame) (hb : b.InFrame) : AboveSentinel Metric.exact a b trails :=
  fun t mem _ => sentinel_lt_calDis (hTrails t mem) ha hb

/-- The search comes to the weight of a trail whose box coincides with the
detection, and to that box itself unless it has no extent. -/
theorem bestMatch_of_same {t : Trail} {a b : Point} {trails : List Trail} (mem : t ∈ trails)
    (hOpen : t.insertable = true) (hlt : t.lt = a) (hrb : t.rb = b) :
    ∃ k u, IsBestMatch Metric.exact a b trails k u ∧
      bestMatch Metric.exact a b 0 trails Metric.exact.resMax none =
        (Trail.calDis Real.sqrt t a b, some k) ∧
      (0 < area a b → u.lt = a ∧ u.rb = b) := by
  rcases bestMatch_spec Metric.exact a b 0 trails Metric.exact.resMax none with
    ⟨_, hNone⟩ | ⟨k, u, isBest, _, hFound⟩
  · have hBelow : Trail.calDis Real.sqrt t a b ≤ Trail.theta ℝ - 1 := hNone t mem hOpen
    have hNonneg := Trail.calDis_nonneg_of_same hlt hrb
    unfold Trail.theta at hBelow
    linarith
  · have hBest : Trail.calDis Real.sqrt t a b ≤ Trail.calDis Real.sqrt u a b :=
      isBest.best t mem hOpen
    have hSame := le_antisymm (Trail.calDis_le_of_same u hlt hrb) hBest
    refine ⟨k, u, isBest, ?_, ?_⟩
    · rw [hFound, Nat.zero_add]
      exact Prod.ext hSame rfl
    · intro hArea
      rw [Trail.calDis_eq_theta_iff.mpr ⟨⟨hlt, hrb⟩, hArea⟩] at hSame
      exact (Trail.calDis_eq_theta_iff.mp hSame).1

/-- The bounds of the weight that a trail has for a detection, and of the overlap
that it is made of. -/
structure WeightBounds (t : Trail) (a b : Point) : Prop where
  divisor : Trail.Overlap a b t.lt t.rb → Trail.unionArea ℝ a b t.lt t.rb ≠ 0
  overlap : 0 ≤ Trail.iou ℝ a b t.lt t.rb ∧ Trail.iou ℝ a b t.lt t.rb ≤ 1
  whole : Trail.iou ℝ a b t.lt t.rb = 1 → t.lt = a ∧ t.rb = b
  symmetric : ∀ u : Trail, u.lt = a → u.rb = b →
    Trail.calDis Real.sqrt t a b = Trail.calDis Real.sqrt u t.lt t.rb
  upper : Trail.calDis Real.sqrt t a b ≤ Trail.theta ℝ
  full : Trail.calDis Real.sqrt t a b = Trail.theta ℝ ↔
    (t.lt = a ∧ t.rb = b) ∧ 0 < area a b
  unbeaten : t.lt = a → t.rb = b →
    (∀ u, Trail.calDis Real.sqrt u a b ≤ Trail.calDis Real.sqrt t a b) ∧
    ∀ trails, t ∈ trails → t.insertable = true →
      ∃ k u, IsBestMatch Metric.exact a b trails k u ∧
        bestMatch Metric.exact a b 0 trails Metric.exact.resMax none =
          (Trail.calDis Real.sqrt t a b, some k) ∧
        (0 < area a b → u.lt = a ∧ u.rb = b)

/-- They hold for any two boxes. -/
theorem weight_bounds (t : Trail) (a b : Point) : WeightBounds t a b where
  divisor hOverlap := ne_of_gt (Trail.unionArea_pos hOverlap)
  overlap := ⟨Trail.iou_nonneg a b t.lt t.rb, Trail.iou_le_one a b t.lt t.rb⟩
  whole hOne := (Trail.iou_eq_one_iff.mp hOne).1
  symmetric u hlt hrb := by
    rw [← hlt, ← hrb]
    exact Trail.calDis_comm t u
  upper := Trail.calDis_le_theta t
  full := Trail.calDis_eq_theta_iff
  unbeaten hlt hrb :=
    ⟨fun u => Trail.calDis_le_of_same u hlt hrb,
      fun _ mem hOpen => bestMatch_of_same mem hOpen hlt hrb⟩

end Weight

namespace DstEngine

section Rule

variable (box : Rectangle) (trails : List Trail)

/-- The detection starts a trail of its own, and leaves the others alone. -/
def StartsTrail : Prop :=
  assign Metric.exact box.anchorLt box.anchorRb trails =
    trails ++ [Trail.create box.anchorLt box.anchorRb]

/-- The detection is inserted into the trail at the position `k`, and no other
trail changes. -/
def GoesInto (k : Nat) (t : Trail) : Prop :=
  assign Metric.exact box.anchorLt box.anchorRb trails =
    trails.set k (t.insert box.anchorLt box.anchorRb)

/-- The weight of a trail for the detection. -/
noncomputable def weight (t : Trail) : ℝ :=
  Trail.calDis Real.sqrt t box.anchorLt box.anchorRb

/-- The assignment by the first of the open trails with the greatest weight. -/
structure BestMatchRule : Prop where
  closed : (∀ t ∈ trails, t.insertable = false) → StartsTrail box trails
  opened : (∃ t ∈ trails, t.insertable = true) →
    ∃ k t, FirstMax.IsFirstMax (weight box) (fun t => t.insertable = true) trails k t
  good : ∀ k t, FirstMax.IsFirstMax (weight box) (fun t => t.insertable = true) trails k t →
    1 / 5 < weight box t ∨ AwayFromEdges (foot box.anchorLt box.anchorRb) →
    GoesInto box trails k t
  weak : ∀ k t, FirstMax.IsFirstMax (weight box) (fun t => t.insertable = true) trails k t →
    ¬ (1 / 5 < weight box t ∨ AwayFromEdges (foot box.anchorLt box.anchorRb)) →
    StartsTrail box trails

variable {box trails}

theorem startsTrail_iff : StartsTrail box trails ↔
    chosenTrail Metric.exact box.anchorLt box.anchorRb trails = none := by
  constructor
  · intro hStarts
    cases hChosen : chosenTrail Metric.exact box.anchorLt box.anchorRb trails with
    | none => rfl
    | some k =>
        obtain ⟨t, hGet, _⟩ := chosenTrail_open _ _ _ _ k hChosen
        have hLength := congrArg List.length hStarts
        rw [assign_of_chosen _ _ _ _ k t hChosen hGet, List.length_set, List.length_append,
          List.length_singleton] at hLength
        omega
  · intro hChosen
    unfold StartsTrail assign
    rw [hChosen]

theorem goesInto_of_chosen {k : Nat} {t : Trail} (hGet : trails[k]? = some t)
    (hChosen : chosenTrail Metric.exact box.anchorLt box.anchorRb trails = some k) :
    GoesInto box trails k t :=
  assign_of_chosen _ _ _ _ k t hChosen hGet

theorem bestMatchRule (hBox : box.InFrame) (hTrails : ∀ t ∈ trails, t.InFrame) :
    BestMatchRule box trails := by
  have hAbove : AboveSentinel Metric.exact box.anchorLt box.anchorRb trails :=
    aboveSentinel hTrails hBox.1 hBox.2
  have hFound (k : Nat) (t : Trail)
      (isMax : FirstMax.IsFirstMax (weight box) (fun t => t.insertable = true) trails k t) :
      (1 / 5 < weight box t ∨ AwayFromEdges (foot box.anchorLt box.anchorRb) →
        chosenTrail Metric.exact box.anchorLt box.anchorRb trails = some k) ∧
      (¬ (1 / 5 < weight box t ∨ AwayFromEdges (foot box.anchorLt box.anchorRb)) →
        chosenTrail Metric.exact box.anchorLt box.anchorRb trails = none) := by
    obtain ⟨j, u, isBest, hChosen⟩ := exists_bestMatch hAbove
      ⟨t, List.mem_of_getElem? isMax.position, isMax.counts⟩
    obtain ⟨rfl, rfl⟩ := isMax.unique isBest
    exact hChosen
  constructor
  · intro hClosed
    exact startsTrail_iff.mpr (chosenTrail_of_closed _ _ _ hClosed)
  · intro hOpen
    obtain ⟨k, t, isBest, _⟩ := exists_bestMatch hAbove hOpen
    exact ⟨k, t, isBest⟩
  · intro k t isMax hGood
    exact goesInto_of_chosen isMax.position ((hFound k t isMax).1 hGood)
  · intro k t isMax hWeak
    exact startsTrail_iff.mpr ((hFound k t isMax).2 hWeak)

end Rule

section Frame

variable {α : Type*} [LT α] [DecidableLT α] (metric : Metric α)

/-- The position of the trail that has a detection afterwards. -/
def taker (trails : List Trail) (box : Rectangle) : Nat :=
  (chosenTrail metric box.anchorLt box.anchorRb trails).getD trails.length

/-- One of the detections of the frame so far went to the trail at the position `j`. -/
def Received (old : List Trail) (earlier : List Rectangle) (j : Nat) : Prop :=
  ∃ done box later, earlier = done ++ box :: later ∧
    taker metric (assignAll metric (ageTrails old) done) box = j

variable {metric} {old : List Trail} {earlier : List Rectangle}

theorem received_concat (box : Rectangle) (j : Nat) :
    Received metric old (earlier ++ [box]) j ↔ Received metric old earlier j ∨
      taker metric (assignAll metric (ageTrails old) earlier) box = j := by
  constructor
  · rintro ⟨done, other, later, hSplit, hTaker⟩
    rcases List.eq_nil_or_concat later with rfl | ⟨init, last, rfl⟩
    · obtain ⟨rfl, hBox⟩ := List.append_inj' hSplit rfl
      rw [List.singleton_inj.mp hBox]
      exact Or.inr hTaker
    · left
      have hRegroup : done ++ other :: init.concat last = (done ++ other :: init) ++ [last] := by
        simp
      rw [hRegroup] at hSplit
      exact ⟨done, other, init, (List.append_inj' hSplit rfl).1, hTaker⟩
  · rintro (⟨done, other, later, rfl, hTaker⟩ | hTaker)
    · exact ⟨done, other, later ++ [box], by simp, hTaker⟩
    · exact ⟨earlier, box, [], rfl, hTaker⟩

theorem assignAll_concat (trails : List Trail) (box : Rectangle) :
    assignAll metric trails (earlier ++ [box]) =
      assign metric box.anchorLt box.anchorRb (assignAll metric trails earlier) := by
  unfold assignAll
  rw [List.foldl_append, List.foldl_cons, List.foldl_nil]

/-- A trail is closed during a frame exactly if it has received a detection of it. -/
theorem closed_iff_received (old : List Trail) (earlier : List Rectangle) :
    ∀ j t, (assignAll metric (ageTrails old) earlier)[j]? = some t →
      (t.insertable = false ↔ Received metric old earlier j) := by
  induction earlier using List.reverseRecOn with
  | nil =>
      intro j t hGet
      have hOpen := ageTrails_open (List.mem_of_getElem? hGet)
      constructor
      · intro hClosed
        rw [hOpen] at hClosed
        cases hClosed
      · rintro ⟨done, box, later, hSplit, _⟩
        exact absurd hSplit.symm (by simp)
  | append_singleton earlier box ih =>
      intro j t hGet
      rw [received_concat]
      rw [assignAll_concat] at hGet
      generalize assignAll metric (ageTrails old) earlier = now at ih hGet
      unfold taker
      cases hChosen : chosenTrail metric box.anchorLt box.anchorRb now with
      | none =>
          unfold assign at hGet
          rw [hChosen] at hGet
          rw [Option.getD_none]
          rcases Nat.lt_or_ge j now.length with hLess | hEnd
          · rw [List.getElem?_append_left hLess] at hGet
            rw [ih j t hGet, or_iff_left (by omega)]
          · have hSame : j = now.length := by
              have hBound := (List.getElem?_eq_some_iff.mp hGet).1
              rw [List.length_append, List.length_singleton] at hBound
              omega
            rw [hSame, List.getElem?_concat_length, Option.some.injEq] at hGet
            rw [← hGet]
            exact iff_of_true rfl (Or.inr hSame.symm)
      | some k =>
          obtain ⟨u, hu, _⟩ := chosenTrail_open _ _ _ _ k hChosen
          rw [assign_of_chosen _ _ _ _ k u hChosen hu, List.getElem?_set] at hGet
          rw [Option.getD_some]
          split_ifs at hGet with hHere hBound
          · rw [Option.some.injEq] at hGet
            rw [← hGet]
            exact iff_of_true (Trail.insert_insertable _ _ _) (Or.inr hHere)
          · rw [ih j t hGet, or_iff_left hHere]

/-- Detections in the frame leave the trails in the frame. -/
theorem assignAll_inFrame {trails : List Trail} (hTrails : ∀ t ∈ trails, t.InFrame)
    (hBoxes : ∀ box ∈ earlier, box.InFrame) : ∀ t ∈ assignAll metric trails earlier, t.InFrame := by
  apply (assignAll_absorbs metric trails earlier).forall_mem (motive := Trail.InFrame) hTrails
  · intro t _ box mem
    change (t.insert box.anchorLt box.anchorRb).lt.InFrame ∧
      (t.insert box.anchorLt box.anchorRb).rb.InFrame
    rw [Trail.insert_lt, Trail.insert_rb]
    exact hBoxes box mem
  · intro box mem
    exact hBoxes box mem

theorem ageTrails_inFrame (hOld : ∀ t ∈ old, t.InFrame) : ∀ t ∈ ageTrails old, t.InFrame := by
  intro t mem
  obtain ⟨before, hBefore, _, rfl⟩ := mem_ageTrails.mp mem
  exact hOld before hBefore

end Frame

/-- The assignment rule, and what it means for the trails of a frame: away from
the edges only a person too many starts a new trail. -/
theorem assignment_rule {box : Rectangle} (hBox : box.InFrame) :
    (∀ trails : List Trail, (∀ t ∈ trails, t.InFrame) → BestMatchRule box trails) ∧
    ∀ (old : List Trail) (earlier : List Rectangle), (∀ t ∈ old, t.InFrame) →
      (∀ other ∈ earlier, other.InFrame) → AwayFromEdges (foot box.anchorLt box.anchorRb) →
      let trails := assignAll Metric.exact (ageTrails old) earlier
      StartsTrail box trails ↔
        ∀ j < trails.length, Received Metric.exact old earlier j := by
  refine ⟨fun trails hTrails => bestMatchRule hBox hTrails, ?_⟩
  intro old earlier hOld hEarlier hAway trails
  have hRule : BestMatchRule box trails :=
    bestMatchRule hBox (assignAll_inFrame (ageTrails_inFrame hOld) hEarlier)
  have hClosed : ∀ j t, trails[j]? = some t →
      (t.insertable = false ↔ Received Metric.exact old earlier j) :=
    closed_iff_received old earlier
  constructor
  · intro hStarts j hj
    have hGet : trails[j]? = some trails[j] := List.getElem?_eq_getElem hj
    rw [← hClosed j _ hGet]
    by_contra hOpen
    rw [Bool.not_eq_false] at hOpen
    obtain ⟨k, t, isMax⟩ := hRule.opened ⟨_, List.getElem_mem hj, hOpen⟩
    have hInto := hRule.good k t isMax (Or.inr hAway)
    have hLength := congrArg List.length (hInto.symm.trans hStarts)
    rw [List.length_set, List.length_append, List.length_singleton] at hLength
    omega
  · intro hAll
    apply hRule.closed
    intro t mem
    obtain ⟨j, hj, rfl⟩ := List.getElem_of_mem mem
    exact (hClosed j _ (List.getElem?_eq_getElem hj)).mpr (hAll j hj)

theorem assignment_rule_sample :
    let box : Rectangle := ⟨⟨500, 400⟩, ⟨540, 500⟩⟩
    let old : List Trail := [Trail.create ⟨700, 400⟩ ⟨740, 500⟩]
    BestMatchRule box old ∧
      let trails := assignAll Metric.exact (ageTrails old) [box]
      (StartsTrail box trails ↔ ∀ j < trails.length, Received Metric.exact old [box] j) := by
  have hRule := assignment_rule (by decide : Rectangle.InFrame ⟨⟨500, 400⟩, ⟨540, 500⟩⟩)
  exact ⟨hRule.1 _ (by decide), hRule.2 _ _ (by decide) (by decide) (by decide)⟩

end DstEngine
end Hengda

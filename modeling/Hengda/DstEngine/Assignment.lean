import Hengda.DstEngine.Trail
import Hengda.Common.StreamData
import Hengda.Library.Absorption

/-! Ageing of the trails and the choice of the trail that takes a detection.
The similarity measure and its two constants are arguments, so that nothing
below depends on how floating point numbers are rounded or compared. -/
namespace Hengda

/-- `resMax` is the sentinel `THETA-1.0` of the search and `thresod` the weight
above which a match counts as good. -/
structure Metric (α : Type*) where
  calDis : Trail → Point → Point → α
  resMax : α
  thresod : α

/-- The measure of the source in exact arithmetic. -/
def Metric.ofSource {K : Type*} [Field K] [LinearOrder K] (sqrt : K → K) : Metric K where
  calDis := Trail.calDis sqrt
  resMax := Trail.theta K - 1
  thresod := 1 / 5

/-- Timed out trails are erased, the others get older and are opened. -/
def ageTrails (trails : List Trail) : List Trail :=
  trails.filterMap fun t => if t.checkStates then some t.updateStatesCommon else none

variable {α : Type*} [LT α] [DecidableLT α]

/-- The search loop with its two accumulators; `i` is the position of the
first trail of the list. -/
def bestMatch (metric : Metric α) (a b : Point) :
    Nat → List Trail → α → Option Nat → α × Option Nat
  | _, [], resMax, target => (resMax, target)
  | i, it :: rest, resMax, target =>
      if it.insertable then
        let res := metric.calDis it a b
        if resMax < res then bestMatch metric a b (i + 1) rest res (some i)
        else bestMatch metric a b (i + 1) rest resMax target
      else bestMatch metric a b (i + 1) rest resMax target

/-- A foot within 100 pixels of the frame edge. -/
def nearEdge (foot : Point) : Bool :=
  min (min (1920 - foot.x) foot.x) (min (1080 - foot.y) foot.y) < 100

/-- The trail that takes a detection, if it is one of those that exist. A weak
match is only refused when the detection may have come in over the edge. -/
def chosenTrail (metric : Metric α) (a b : Point) (trails : List Trail) : Option Nat :=
  if trails.isEmpty then none
  else
    match bestMatch metric a b 0 trails metric.resMax none with
    | (_, none) => none
    | (resMax, some target) =>
        if metric.thresod < resMax then some target
        else if nearEdge (foot a b) then none
        else some target

def assign (metric : Metric α) (a b : Point) (trails : List Trail) : List Trail :=
  match chosenTrail metric a b trails with
  | some target => trails.modify target (·.insert a b)
  | none => trails ++ [Trail.create a b]

/-- Trails as slots: a detection closes the trail that takes it. -/
def trailRules : Absorption.Rules Trail Rectangle where
  isOpen := Trail.insertable
  fill t box := t.insert box.anchorLt box.anchorRb
  fresh box := Trail.create box.anchorLt box.anchorRb
  fill_closed _ _ := Trail.insert_insertable _ _ _
  fresh_closed _ := rfl

/-- The search only ever returns a trail that was open. -/
theorem bestMatch_target (metric : Metric α) (a b : Point) (i : Nat) (trails : List Trail)
    (resMax : α) (target : Option Nat) (k : Nat)
    (h : (bestMatch metric a b i trails resMax target).2 = some k) :
    target = some k ∨ ∃ t, i ≤ k ∧ trails[k - i]? = some t ∧ t.insertable = true := by
  induction trails generalizing i resMax target with
  | nil => exact Or.inl h
  | cons it rest ih =>
      have later (hLater : ∃ t, i + 1 ≤ k ∧ rest[k - (i + 1)]? = some t ∧ t.insertable = true) :
          ∃ t, i ≤ k ∧ (it :: rest)[k - i]? = some t ∧ t.insertable = true := by
        obtain ⟨t, hLe, hGet, hOpen⟩ := hLater
        refine ⟨t, by omega, ?_, hOpen⟩
        rwa [show k - i = (k - (i + 1)) + 1 by omega, List.getElem?_cons_succ]
      unfold bestMatch at h
      by_cases hOpen : it.insertable = true
      · rw [if_pos hOpen] at h
        dsimp only at h
        split_ifs at h
        · rcases ih _ _ _ h with hHere | hLater
          · cases hHere
            exact Or.inr ⟨it, Nat.le_refl _, by simp, hOpen⟩
          · exact Or.inr (later hLater)
        · exact (ih _ _ _ h).imp id later
      · rw [if_neg hOpen] at h
        exact (ih _ _ _ h).imp id later

theorem chosenTrail_open (metric : Metric α) (a b : Point) (trails : List Trail) (k : Nat)
    (h : chosenTrail metric a b trails = some k) :
    ∃ t, trails[k]? = some t ∧ t.insertable = true := by
  have found (hBest : (bestMatch metric a b 0 trails metric.resMax none).2 = some k) :
      ∃ t, trails[k]? = some t ∧ t.insertable = true := by
    rcases bestMatch_target metric a b 0 trails _ _ k hBest with hNone | ⟨t, _, hGet, hOpen⟩
    · cases hNone
    · exact ⟨t, by simpa using hGet, hOpen⟩
  unfold chosenTrail at h
  by_cases hEmpty : trails.isEmpty = true
  · rw [if_pos hEmpty] at h
    cases h
  rw [if_neg hEmpty] at h
  split at h
  · cases h
  · rename_i resMax target hBest
    have hTarget : target = k := by
      split_ifs at h <;> exact Option.some.inj h
    exact found (by rw [hBest, hTarget])

theorem modify_eq_set (trails : List Trail) (k : Nat) (t : Trail) (f : Trail → Trail)
    (position : trails[k]? = some t) : trails.modify k f = trails.set k (f t) := by
  apply List.ext_getElem?
  intro j
  rw [List.getElem?_modify, List.getElem?_set]
  obtain ⟨hLength, hGet⟩ := List.getElem?_eq_some_iff.mp position
  by_cases hj : k = j
  · subst hj
    simp [hLength, hGet]
  · simp [hj]

theorem assign_of_chosen (metric : Metric α) (a b : Point) (trails : List Trail) (k : Nat)
    (t : Trail) (h : chosenTrail metric a b trails = some k) (position : trails[k]? = some t) :
    assign metric a b trails = trails.set k (t.insert a b) := by
  unfold assign
  rw [h]
  exact modify_eq_set trails k t _ position

/-- Whatever the measure returns, a detection is absorbed by one trail. -/
theorem assign_absorbs (metric : Metric α) (box : Rectangle) (trails : List Trail) :
    Absorption.Absorbs trailRules trails box
      (assign metric box.anchorLt box.anchorRb trails) := by
  cases h : chosenTrail metric box.anchorLt box.anchorRb trails with
  | none =>
      unfold assign
      rw [h]
      exact .fresh
  | some k =>
      obtain ⟨t, position, isOpen⟩ := chosenTrail_open metric _ _ _ k h
      rw [assign_of_chosen metric _ _ _ k t h position]
      exact .fill position isOpen

theorem mem_ageTrails {trails : List Trail} {t : Trail} :
    t ∈ ageTrails trails ↔ ∃ old ∈ trails, old.count < timeStamp ∧ t = old.updateStatesCommon := by
  simp only [ageTrails, List.mem_filterMap, Option.ite_none_right_eq_some, Option.some.injEq,
    Trail.checkStates_iff]
  constructor
  · rintro ⟨old, mem, hCount, rfl⟩
    exact ⟨old, mem, hCount, rfl⟩
  · rintro ⟨old, mem, hCount, rfl⟩
    exact ⟨old, mem, hCount, rfl⟩

theorem ageTrails_open {trails : List Trail} {t : Trail} (mem : t ∈ ageTrails trails) :
    t.insertable = true := by
  obtain ⟨old, _, _, rfl⟩ := mem_ageTrails.mp mem
  rfl

/-- Ageing shifts the ages: those of the survivors are one higher. -/
theorem ageTrails_countP (trails : List Trail) (k : Nat) :
    (ageTrails trails).countP (fun t => t.count = k + 1) ≤
      trails.countP (fun t => t.count = k) := by
  induction trails with
  | nil => simp [ageTrails]
  | cons t rest ih =>
      unfold ageTrails at ih ⊢
      by_cases hStates : t.checkStates = true
      · simpa [List.filterMap_cons, hStates, List.countP_cons] using ih
      · simp only [List.filterMap_cons, hStates, List.countP_cons]
        exact Nat.le_trans ih (Nat.le_add_right _ _)

end Hengda

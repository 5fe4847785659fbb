import Hengda.DstEngine.Sampling
import Hengda.DstEngine.CrossLine
import Hengda.Library.Triangle

/-! The chords that the line judges look at. All of them start at the first point
of the trail, so that a trail which crosses a border between two of its sampled
points is only found if one of the sampled points is behind the border. -/
namespace Hengda

/-- The positions of a trail of `n` points to which a chord is drawn. -/
def SampledAt (n j : Nat) : Prop :=
  (sep ∣ j ∧ sep ≤ j ∧ j < n) ∨ j + 1 = n

section Judges

variable {cross : Point → Point → Point → Point → Bool}

/-- The stepping loop visits every sixth point behind the first and does not run
out of fuel. -/
theorem sampledHit_iff {hit : Point → Bool} {fuel : Nat} {it : List Point}
    (hFuel : it.length ≤ fuel) :
    sampledHit hit fuel it = true ↔
      ∃ j p, sep ∣ j ∧ sep ≤ j ∧ it[j]? = some p ∧ hit p = true := by
  induction fuel generalizing it with
  | zero =>
      rw [List.length_eq_zero_iff.mp (Nat.le_zero.mp hFuel)]
      simp [sampledHit]
  | succ fuel ih =>
      rw [sampledHit]
      cases hDrop : it.drop sep with
      | nil =>
          have hShort : it.length ≤ sep := List.drop_eq_nil_iff.mp hDrop
          simp only [Bool.false_eq_true, false_iff]
          rintro ⟨j, p, _, hLe, hGet, _⟩
          rw [List.getElem?_eq_none (le_trans hShort hLe)] at hGet
          cases hGet
      | cons p rest =>
          have hLength : (p :: rest).length = it.length - sep := by
            rw [← hDrop, List.length_drop]
          have hPos : (p :: rest).length ≠ 0 := by simp
          have hRest : (p :: rest).length ≤ fuel := by
            unfold sep at hLength
            omega
          have hGet (j : Nat) : (p :: rest)[j]? = it[sep + j]? := by
            rw [← hDrop, List.getElem?_drop]
          dsimp only
          rw [Bool.or_eq_true, ih hRest]
          constructor
          · rintro (hHit | ⟨j, q, hDvd, hLe, hq, hHit⟩)
            · exact ⟨sep, p, dvd_refl _, le_refl _, (hGet 0).symm, hHit⟩
            · exact ⟨sep + j, q, Nat.dvd_add (dvd_refl sep) hDvd, Nat.le_add_right _ _,
                (hGet j).symm.trans hq, hHit⟩
          · rintro ⟨j, q, ⟨k, rfl⟩, hLe, hq, hHit⟩
            cases k with
            | zero => cases hLe
            | succ k =>
                have hStep : sep * (k + 1) = sep + sep * k := by
                  rw [Nat.mul_succ, Nat.add_comm]
                rw [hStep, ← hGet] at hq
                cases k with
                | zero =>
                    left
                    rw [Nat.mul_zero, List.getElem?_cons_zero, Option.some.injEq] at hq
                    rwa [hq]
                | succ k =>
                    right
                    exact ⟨sep * (k + 1), q, Nat.dvd_mul_right _ _,
                      Nat.le_mul_of_pos_right _ (Nat.succ_pos k), hq, hHit⟩

/-- Some chord of the trail crosses the segment from `c` to `d`. -/
def ChordCrosses (cross : Point → Point → Point → Point → Bool) (trail : List Point)
    (c d : Point) : Prop :=
  ∃ first j p, 2 ≤ trail.length ∧ trail[0]? = some first ∧ SampledAt trail.length j ∧
    trail[j]? = some p ∧ cross first p c d = true

theorem not_chordCrosses_of_short {trail : List Point} (hShort : trail.length < 2)
    (c d : Point) : ¬ ChordCrosses cross trail c d := by
  rintro ⟨_, _, _, hLength, _⟩
  omega

/-- A trail that is not empty does not need the replacement for its last point. -/
theorem getElem?_last {trail : List Point} (hPos : 1 ≤ trail.length) (fallback : Point) :
    trail[trail.length - 1]? = some (trail.getLastD fallback) := by
  have hNonempty : trail ≠ [] := List.ne_nil_of_length_pos hPos
  rw [← List.getLast?_eq_getElem?, List.getLastD_eq_getLast?,
    List.getLast?_eq_some_getLast hNonempty]
  rfl

theorem endsHit_iff (hit : Point → Bool) {trail : List Point} (hPos : 1 ≤ trail.length)
    (fallback : Point) :
    hit (trail.getLastD fallback) = true ↔
      ∃ j p, j + 1 = trail.length ∧ trail[j]? = some p ∧ hit p = true := by
  have hLast := getElem?_last hPos fallback
  constructor
  · intro hHit
    exact ⟨trail.length - 1, _, by omega, hLast, hHit⟩
  · rintro ⟨j, p, hj, hGet, hHit⟩
    have hIndex : j = trail.length - 1 := by omega
    rw [hIndex, hLast, Option.some.injEq] at hGet
    rwa [hGet]

/-- What both judges ask of one border segment. A short trail has no point that
the stepping loop would visit. -/
theorem chordHit_iff (first second : Point) (others : List Point) (c d : Point) :
    chordHit cross first (first :: second :: others) c d = true ↔
      ChordCrosses cross (first :: second :: others) c d := by
  have hPos : 2 ≤ (first :: second :: others).length := by simp
  have hStart : (first :: second :: others)[0]? = some first := rfl
  unfold chordHit ChordCrosses
  generalize first :: second :: others = trail at hPos hStart
  have hBehind (j : Nat) (p : Point) (hGet : trail[j]? = some p) : j < trail.length :=
    (List.getElem?_eq_some_iff.mp hGet).1
  have hEnd := endsHit_iff (fun p => cross first p c d) (le_trans (by decide) hPos) first
  have hAll : (∃ start j p, 2 ≤ trail.length ∧ trail[0]? = some start ∧
      SampledAt trail.length j ∧ trail[j]? = some p ∧ cross start p c d = true) ↔
      (∃ j p, sep ∣ j ∧ sep ≤ j ∧ trail[j]? = some p ∧ cross first p c d = true) ∨
        ∃ j p, j + 1 = trail.length ∧ trail[j]? = some p ∧ cross first p c d = true := by
    constructor
    · rintro ⟨start, j, p, _, hGetStart, ⟨hDvd, hLe, _⟩ | hj, hGet, hCross⟩
      · rw [hStart, Option.some.injEq] at hGetStart
        rw [← hGetStart] at hCross
        exact Or.inl ⟨j, p, hDvd, hLe, hGet, hCross⟩
      · rw [hStart, Option.some.injEq] at hGetStart
        rw [← hGetStart] at hCross
        exact Or.inr ⟨j, p, hj, hGet, hCross⟩
    · rintro (⟨j, p, hDvd, hLe, hGet, hCross⟩ | ⟨j, p, hj, hGet, hCross⟩)
      · exact ⟨first, j, p, hPos, hStart, Or.inl ⟨hDvd, hLe, hBehind j p hGet⟩, hGet, hCross⟩
      · exact ⟨first, j, p, hPos, hStart, Or.inr hj, hGet, hCross⟩
  rw [hAll]
  dsimp only at hEnd ⊢
  split_ifs with hShort
  · rw [hEnd]
    constructor
    · exact Or.inr
    · rintro (⟨j, p, _, hLe, hGet, _⟩ | hLast)
      · have hLess := hBehind j p hGet
        omega
      · exact hLast
  · rw [Bool.or_eq_true, sampledHit_iff (le_refl _), hEnd]

theorem judgeOutLine_iff (trail : List Point) (c d : Point) (rest : List Point) :
    judgeOutLine cross trail (c :: d :: rest) = some true ↔ ChordCrosses cross trail c d := by
  match trail with
  | [] => simp [judgeOutLine, not_chordCrosses_of_short]
  | [p] => simp [judgeOutLine, not_chordCrosses_of_short]
  | first :: second :: others =>
      rw [← chordHit_iff]
      change some _ = some true ↔ _
      rw [Option.some.injEq]

theorem judgeOutBrokenLine_iff (trail : List Point) {border : List Point}
    (hBorder : border ≠ []) :
    judgeOutBrokenLine cross trail border = some true ↔
      ∃ q ∈ chain border, ChordCrosses cross trail q.1 q.2 := by
  match trail with
  | [] => simp [judgeOutBrokenLine, not_chordCrosses_of_short]
  | [p] => simp [judgeOutBrokenLine, not_chordCrosses_of_short]
  | first :: second :: others =>
      change brokenLineHit _ border = some true ↔ _
      rw [brokenLineHit_eq _ hBorder, Option.some.injEq, List.any_eq_true]
      simp only [chordHit_iff]

theorem mem_chain {points : List Point} {q : Point × Point} :
    q ∈ chain points ↔ ∃ i, points[i]? = some q.1 ∧ points[i + 1]? = some q.2 := by
  unfold chain
  rw [List.mem_iff_getElem?]
  simp only [List.getElem?_zip_eq_some, List.getElem?_tail]

variable (cross)

/-- A broken line is judged like each of its segments as a line of its own, and
a line by the chords from the first point of the trail to every sixth one and to
the last. -/
theorem judgeOutBrokenLine_union (trail : List Point) (q₀ q₁ : Point) (rest : List Point) :
    (judgeOutBrokenLine cross trail (q₀ :: q₁ :: rest) = some true ↔
      ∃ i c d, (q₀ :: q₁ :: rest)[i]? = some c ∧ (q₀ :: q₁ :: rest)[i + 1]? = some d ∧
        judgeOutLine cross trail [c, d] = some true) ∧
    (∀ c d, judgeOutBrokenLine cross trail [c, d] = judgeOutLine cross trail [c, d]) ∧
    (∀ c d, judgeOutLine cross trail [c, d] = some true ↔ ∃ first j p, 2 ≤ trail.length ∧
      trail[0]? = some first ∧ ((6 ∣ j ∧ 6 ≤ j ∧ j < trail.length) ∨ j + 1 = trail.length) ∧
      trail[j]? = some p ∧ cross first p c d = true) := by
  refine ⟨?_, ?_, fun c d => judgeOutLine_iff trail c d []⟩
  · rw [judgeOutBrokenLine_iff trail (List.cons_ne_nil _ _)]
    constructor
    · rintro ⟨q, mem, hCrosses⟩
      obtain ⟨i, hFirst, hSecond⟩ := mem_chain.mp mem
      exact ⟨i, q.1, q.2, hFirst, hSecond, (judgeOutLine_iff trail q.1 q.2 []).mpr hCrosses⟩
    · rintro ⟨i, c, d, hFirst, hSecond, hJudge⟩
      exact ⟨(c, d), mem_chain.mpr ⟨i, hFirst, hSecond⟩,
        (judgeOutLine_iff trail c d []).mp hJudge⟩
  · intro c d
    match trail with
    | [] => rfl
    | [p] => rfl
    | first :: second :: others =>
        change brokenLineHit _ [c, d] = some _
        rw [brokenLineHit, brokenLineHit]
        split_ifs with hHit
        · rw [hHit]
        · rw [Bool.eq_false_of_not_eq_true hHit]

end Judges

/-- The points that stand for the trail: every sixth one from the first on, and
the last one. -/
def sampled (trail : List Point) : List Point :=
  (List.range trail.length).filterMap (fun k => trail[sep * k]?) ++ trail.getLast?.toList

section Exact

variable {cross : Point → Point → Point → Point → Bool}

variable (cross)

end Exact

/-- Someone walks up to the line and over it. -/
def sampleWalker : List Point :=
  List.replicate 6 ⟨105, 90⟩ ++ List.replicate 6 ⟨105, 95⟩ ++ [⟨104, 110⟩]

end Hengda

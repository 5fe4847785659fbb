import Hengda.DstEngine.Chords
import Hengda.Library.Loops

/-! The judges once more, with every element and iterator access they make. What
`Judge` says in terms of lists is what comes out of these loops. -/
namespace Hengda

/-- The conversion of a size to `int`, modulo 2^32. -/
def toInt32 (n : Nat) : Int :=
  (n : Int).bmod 4294967296

namespace Accesses

open Loops

/-- The local variables of `pnpoly`. -/
structure PnpolyState where
  i : Int
  j : Int
  c : Bool

/-- The x coordinates are read only if the rows of the edge enclose the test
point. -/
def pnpolyRound (nvert : Int) (vertx verty : List Int) (testx testy : Int) (s : PnpolyState) :
    Option (Round PnpolyState Bool) :=
  if s.i < nvert then do
    let yi ← read verty s.i
    let yj ← read verty s.j
    if decide (yi > testy) != decide (yj > testy) then do
      let xj ← read vertx s.j
      let xi ← read vertx s.i
      let c := if edgeCrossed testx testy ⟨xi, yi⟩ ⟨xj, yj⟩ then !s.c else s.c
      some (.again { i := s.i + 1, j := s.i, c := c })
    else some (.again { i := s.i + 1, j := s.i, c := s.c })
  else some (.leave s.c)

def pnpoly (fuel : Nat) (nvert : Int) (vertx verty : List Int) (testx testy : Int) :
    Option Bool :=
  run (pnpolyRound nvert vertx verty testx testy) fuel { i := 0, j := nvert - 1, c := false }

def judgeOutRectangle (fuel : Nat) (trailPoint : Point) (originalPoints : List Point) :
    Option Bool := do
  let p₀ ← read originalPoints 0
  let p₁ ← read originalPoints 1
  pnpoly fuel 4 [p₀.x + gap, p₀.x + gap, p₁.x - gap, p₁.x - gap]
    [p₀.y + gap, p₁.y - gap, p₁.y - gap, p₀.y + gap] trailPoint.x trailPoint.y

/-- The local variables of the copying loop of `judge_out_polygon`. -/
structure CopyState where
  i : Int
  polygonX : List Int
  polygonY : List Int

def copyRound (length : Int) (originalPoints : List Point) (s : CopyState) :
    Option (Round CopyState (List Int × List Int)) :=
  if s.i < length then do
    let p ← read originalPoints s.i
    let polygonX ← write s.polygonX s.i p.x
    let polygonY ← write s.polygonY s.i p.y
    some (.again { i := s.i + 1, polygonX := polygonX, polygonY := polygonY })
  else some (.leave (s.polygonX, s.polygonY))

/-- There is no vector of a negative length. -/
def judgeOutPolygon (fuel : Nat) (trailPoint : Point) (originalPoints : List Point) :
    Option Bool := do
  let length := toInt32 originalPoints.length
  if length < 0 then none
  else do
    let polygon ← run (copyRound length originalPoints) fuel
      { i := 0, polygonX := List.replicate length.toNat 0,
        polygonY := List.replicate length.toNat 0 }
    pnpoly fuel length polygon.1 polygon.2 trailPoint.x trailPoint.y

section Lines

variable (cross : Point → Point → Point → Point → Bool) (trailPoints linePoints : List Point)

/-- The segment from the first point of the trail to the one at `p` against the
border segment that starts at `k`. -/
def crossAt (p k : Int) : Option Bool := do
  let a ← read trailPoints 0
  let b ← read trailPoints p
  let c ← read linePoints k
  let d ← read linePoints (k + 1)
  some (cross a b c d)

/-- The loop with the step `SEP`; `ot` is the position of the iterator. -/
def sampleRound (k ot : Int) : Option (Round Int Bool) :=
  if ot < trailPoints.length - (sep : Int) then do
    if ← crossAt cross trailPoints linePoints (ot + sep) k then some (.leave true)
    else some (.again (ot + sep))
  else some (.leave false)

/-- What is asked of one border segment. `judge_out_broken_line` compares the
number of points in front of its loop over the segments. -/
def chordHitAt (fuel : Nat) (k : Int) : Option Bool :=
  if trailPoints.length ≤ sep then crossAt cross trailPoints linePoints (trailPoints.length - 1) k
  else do
    if ← run (sampleRound cross trailPoints linePoints k) fuel 0 then some true
    else crossAt cross trailPoints linePoints (trailPoints.length - 1) k

def judgeOutLine (fuel : Nat) : Option Bool :=
  if trailPoints.length < 2 then some false
  else chordHitAt cross trailPoints linePoints fuel 0

/-- The end of this loop is found by comparing for equality. -/
def brokenLineRound (fuel : Nat) (it : Int) : Option (Round Int Bool) :=
  if it ≠ linePoints.length - 1 then do
    if ← chordHitAt cross trailPoints linePoints fuel it then some (.leave true)
    else some (.again (it + 1))
  else some (.leave false)

def judgeOutBrokenLine (fuel : Nat) : Option Bool :=
  if trailPoints.length < 2 then some false
  else run (brokenLineRound cross trailPoints linePoints fuel) fuel 0

end Lines

section Polygons

variable {vertices : List Point} {testx testy : Int}

/-- What the loop of `pnpoly` comes to. -/
def pnpolyRest (vertices : List Point) (testx testy : Int) (s : PnpolyState) : Bool :=
  match read vertices s.j with
  | none => s.c
  | some vj => pnpolyFrom testx testy vj (vertices.drop s.i.toNat) s.c

/-- The position `j` is in front of `i` on the way around the polygon. -/
def Behind (length i j : Int) : Prop :=
  j = (if i = 0 then length else i) - 1

theorem pnpolyRound_again {s : PnpolyState} {vi vj : Point} (hMore : s.i < vertices.length)
    (hi : read vertices s.i = some vi) (hj : read vertices s.j = some vj) :
    pnpolyRound vertices.length (vertices.map Point.x) (vertices.map Point.y) testx testy s =
      some (.again {
        i := s.i + 1
        j := s.i
        c := if edgeCrossed testx testy vi vj then !s.c else s.c }) := by
  unfold pnpolyRound
  simp only [read_map, hi, hj, if_pos hMore, Option.map_some, Option.bind_eq_bind,
    Option.bind_some]
  by_cases hRows : (decide (vi.y > testy) != decide (vj.y > testy)) = true
  · rw [if_pos hRows]
  · have hOutside : edgeCrossed testx testy vi vj = false := by
      unfold edgeCrossed
      rw [Bool.eq_false_of_not_eq_true hRows, Bool.false_and]
    rw [if_neg hRows, hOutside, if_neg Bool.false_ne_true]

theorem pnpoly_eq (vertices : List Point) {fuel : Nat} (hFuel : vertices.length < fuel) :
    pnpoly fuel vertices.length (vertices.map Point.x) (vertices.map Point.y) testx testy =
      some (Hengda.pnpoly vertices testx testy) := by
  have hRun : pnpoly fuel vertices.length (vertices.map Point.x) (vertices.map Point.y)
      testx testy = some (pnpolyRest vertices testx testy
        { i := 0, j := vertices.length - 1, c := false }) := by
    apply run_of_measure
      (motive := fun s : PnpolyState =>
        0 ≤ s.i ∧ s.i ≤ vertices.length ∧ Behind vertices.length s.i s.j)
      (fun s : PnpolyState => (vertices.length - s.i).toNat)
      (fun s : PnpolyState => some (pnpolyRest vertices testx testy s))
    · rintro s ⟨hLow, hHigh, hBehind⟩
      right
      by_cases hMore : s.i < vertices.length
      · right
        obtain ⟨vi, hi, hDrop⟩ := exists_read hLow hMore
        have hInside : 0 ≤ s.j ∧ s.j < vertices.length := by
          unfold Behind at hBehind
          split_ifs at hBehind <;> omega
        obtain ⟨vj, hj, _⟩ := exists_read hInside.1 hInside.2
        refine ⟨_, pnpolyRound_again hMore hi hj, ⟨?_, ?_, ?_⟩, ?_, ?_⟩
        · change 0 ≤ s.i + 1
          omega
        · exact hMore
        · have hNext : ¬ s.i + 1 = 0 := by omega
          change s.i = (if s.i + 1 = 0 then _ else s.i + 1) - 1
          rw [if_neg hNext, Int.add_sub_cancel]
        · change (vertices.length - (s.i + 1)).toNat < _
          omega
        · unfold pnpolyRest
          rw [hj, hi, hDrop]
          rfl
      · left
        refine ⟨s.c, ?_, ?_⟩
        · exact if_neg hMore
        · have hEnd : vertices.drop s.i.toNat = [] := by
            rw [List.drop_eq_nil_iff]
            omega
          unfold pnpolyRest
          rw [hEnd]
          cases read vertices s.j <;> rfl
    · refine ⟨le_refl _, Int.natCast_nonneg _, ?_⟩
      exact (congrArg (fun n : Int => n - 1) (if_pos rfl)).symm
    · change ((vertices.length : Int) - 0).toNat < fuel
      omega
  rw [hRun]
  unfold pnpolyRest Hengda.pnpoly
  rcases List.eq_nil_or_concat vertices with rfl | ⟨init, last, rfl⟩
  · rfl
  · have hLast : read (init.concat last) (((init.concat last).length : Int) - 1) = some last := by
      rw [List.length_concat, Int.natCast_add, Int.natCast_one, Int.add_sub_cancel, read_natCast,
        List.concat_eq_append, List.getElem?_concat_length]
    have hGetLast : (init.concat last).getLast? = some last := by
      rw [List.concat_eq_append, List.getLast?_concat]
    dsimp only
    rw [hLast, hGetLast]
    rfl

theorem judgeOutRectangle_settles (foot : Point) (points : List Point) :
    Settles (fun fuel => judgeOutRectangle fuel foot points)
      (Hengda.judgeOutRectangle foot points) := by
  refine ⟨5, fun fuel hFuel => ?_⟩
  match points with
  | [] => rfl
  | [_] => rfl
  | p₀ :: p₁ :: _ =>
      exact pnpoly_eq [⟨p₀.x + gap, p₀.y + gap⟩, ⟨p₀.x + gap, p₁.y - gap⟩,
        ⟨p₁.x - gap, p₁.y - gap⟩, ⟨p₁.x - gap, p₀.y + gap⟩] hFuel

/-- The copies after `i` rounds. -/
def copied (f : Point → Int) (points : List Point) (length i : Nat) : List Int :=
  (points.take i).map f ++ List.replicate (length - i) 0

theorem write_copied (f : Point → Int) {points : List Point} {length i : Nat} {p : Point}
    (hMore : i < length) (hPoint : points[i]? = some p) :
    write (copied f points length i) i (f p) = some (copied f points length (i + 1)) := by
  have hInside : i < points.length := (List.getElem?_eq_some_iff.mp hPoint).1
  have hDone : ((points.take i).map f).length = i := by
    rw [List.length_map, List.length_take, min_eq_left hInside.le]
  have hLeft : length - i = (length - (i + 1)) + 1 := by omega
  have hSet : (copied f points length i).set i (f p) = copied f points length (i + 1) := by
    unfold copied
    rw [List.set_append_right _ _ hDone.le, hDone, Nat.sub_self, hLeft, List.replicate_succ,
      List.set_cons_zero, List.take_add_one, hPoint, Option.toList_some, List.map_append,
      List.append_assoc]
    rfl
  have hLength : i < (copied f points length i).length := by
    unfold copied
    rw [List.length_append, hDone, List.length_replicate]
    omega
  rw [write_natCast hLength, hSet]

theorem copy_eq {points : List Point} {length fuel : Nat} (hLength : length ≤ points.length)
    (hFuel : length < fuel) :
    run (copyRound length points) fuel
      { i := 0, polygonX := List.replicate length 0, polygonY := List.replicate length 0 } =
      some ((points.take length).map Point.x, (points.take length).map Point.y) := by
  apply run_of_measure
    (motive := fun s : CopyState => ∃ i : Nat, i ≤ length ∧ s =
      { i := i, polygonX := copied Point.x points length i,
        polygonY := copied Point.y points length i })
    (fun s : CopyState => (length - s.i).toNat)
    (fun _ : CopyState => some ((points.take length).map Point.x,
      (points.take length).map Point.y))
  · rintro s ⟨i, hi, rfl⟩
    right
    rcases Nat.lt_or_eq_of_le hi with hMore | rfl
    · right
      have hPoint : points[i]? = some points[i] := List.getElem?_eq_getElem (by omega)
      refine ⟨_, ?_, ⟨i + 1, hMore, rfl⟩, ?_, rfl⟩
      · unfold copyRound
        dsimp only
        rw [if_pos (Int.ofNat_lt.mpr hMore), read_natCast, hPoint]
        simp only [Option.bind_eq_bind, Option.bind_some, write_copied _ hMore hPoint]
        rfl
      · change ((length : Int) - (i + 1 : Nat)).toNat < ((length : Int) - i).toNat
        omega
    · left
      refine ⟨_, if_neg (lt_irrefl _), ?_⟩
      dsimp only
      unfold copied
      rw [Nat.sub_self, List.replicate_zero, List.append_nil, List.append_nil]
  · exact ⟨0, Nat.zero_le _, rfl⟩
  · change ((length : Int) - 0).toNat < fuel
    omega

theorem toInt32_le (n : Nat) : toInt32 n ≤ n := by
  unfold toInt32
  have hBmod := @Int.bmod_def n 4294967296
  omega

theorem toInt32_of_small {n : Nat} (hSmall : n < 2147483648) : toInt32 n = n := by
  unfold toInt32
  have hBmod := @Int.bmod_def n 4294967296
  omega

/-- The polygon that is judged ends where the length wraps around. -/
theorem judgeOutPolygon_settles (foot : Point) (points : List Point) :
    Settles (fun fuel => judgeOutPolygon fuel foot points)
      (if toInt32 points.length < 0 then none
        else some (Hengda.judgeOutPolygon foot (points.take (toInt32 points.length).toNat))) := by
  refine ⟨points.length + 1, fun fuel hFuel => ?_⟩
  have hLe := toInt32_le points.length
  dsimp only
  unfold judgeOutPolygon
  dsimp only
  split_ifs with hNegative
  · rfl
  · obtain ⟨length, hLength⟩ := Int.eq_ofNat_of_zero_le (not_lt.mp hNegative)
    rw [hLength] at hLe ⊢
    have hInside : length ≤ points.length := by omega
    have hTake : (points.take length).length = length := by
      rw [List.length_take, min_eq_left hInside]
    have hPnpoly : pnpoly fuel (points.take length).length ((points.take length).map Point.x)
        ((points.take length).map Point.y) foot.x foot.y =
        some (Hengda.pnpoly (points.take length) foot.x foot.y) :=
      pnpoly_eq _ (by omega)
    rw [hTake] at hPnpoly
    rw [Int.toNat_natCast, copy_eq hInside (by omega)]
    exact hPnpoly

/-- Up to the largest `int` nothing is cut off. -/
theorem judgeOutPolygon_settles_of_small (foot : Point) {points : List Point}
    (hSmall : points.length < 2147483648) :
    Settles (fun fuel => judgeOutPolygon fuel foot points)
      (some (Hengda.judgeOutPolygon foot points)) := by
  have hSettles := judgeOutPolygon_settles foot points
  rwa [toInt32_of_small hSmall, if_neg (not_lt.mpr (Int.natCast_nonneg _)), Int.toNat_natCast,
    List.take_length] at hSettles

end Polygons

section LineOutcomes

variable {cross : Point → Point → Point → Point → Bool} {trail points : List Point}

theorem crossAt_eq {p k : Nat} {first q c d : Point} (hFirst : trail[0]? = some first)
    (hq : trail[p]? = some q) (hc : points[k]? = some c) (hd : points[k + 1]? = some d) :
    crossAt cross trail points p k = some (cross first q c d) := by
  have hZero : read trail 0 = some first := by rw [← hFirst]; rfl
  have hNext : read points ((k : Int) + 1) = some d := by
    rw [← Int.natCast_succ, read_natCast, hd]
  unfold crossAt
  simp only [hZero, hNext, read_natCast, hq, hc, Option.bind_eq_bind, Option.bind_some]

/-- A segment that does not end in the vector cannot be looked at. -/
theorem crossAt_outside {k : Nat} (hOutside : points[k + 1]? = none) (p : Int) :
    crossAt cross trail points p k = none := by
  have hNext : read points ((k : Int) + 1) = none := by
    rw [← Int.natCast_succ, read_natCast, hOutside]
  unfold crossAt
  rw [hNext]
  cases read trail 0 with
  | none => rfl
  | some a =>
      cases read trail p with
      | none => rfl
      | some b =>
          cases read points k with
          | none => rfl
          | some c => rfl

theorem sampledHit_of_fuel {hit : Point → Bool} {it : List Point} {fuel other : Nat}
    (hFuel : it.length ≤ fuel) (hOther : it.length ≤ other) :
    sampledHit hit fuel it = sampledHit hit other it :=
  Bool.eq_iff_iff.mpr ((sampledHit_iff hFuel).trans (sampledHit_iff hOther).symm)

/-- One round of the stepping loop, as the list has it. -/
theorem sampledHit_drop {hit : Point → Bool} {n : Nat} {q : Point}
    (hq : trail[n + sep]? = some q) :
    sampledHit hit trail.length (trail.drop n) =
      (hit q || sampledHit hit trail.length (trail.drop (n + sep))) := by
  have hInside : n + sep < trail.length := (List.getElem?_eq_some_iff.mp hq).1
  have hDrop : (trail.drop n).drop sep = q :: trail.drop (n + sep + 1) := by
    rw [List.drop_drop, List.drop_eq_getElem_cons hInside]
    rw [List.getElem?_eq_getElem hInside, Option.some.injEq] at hq
    rw [hq]
  have hWhole : trail.drop (n + sep) = q :: trail.drop (n + sep + 1) := by
    rw [← hDrop, List.drop_drop]
  obtain ⟨fuel, hFuel⟩ := Nat.exists_eq_succ_of_ne_zero (Nat.ne_zero_of_lt hInside)
  have hRest : (trail.drop (n + sep)).length ≤ fuel := by
    rw [List.length_drop]
    unfold sep
    omega
  have hRound : sampledHit hit (fuel + 1) (trail.drop n) =
      (hit q || sampledHit hit fuel (trail.drop (n + sep))) := by
    rw [sampledHit, hDrop, hWhole]
  rw [hFuel, hRound, sampledHit_of_fuel hRest (le_trans hRest (Nat.le_succ fuel))]

theorem sampleLoop_eq {k fuel : Nat} {first c d : Point} (hFirst : trail[0]? = some first)
    (hc : points[k]? = some c) (hd : points[k + 1]? = some d) (hFuel : trail.length < fuel) :
    run (sampleRound cross trail points k) fuel 0 =
      some (sampledHit (fun p => cross first p c d) trail.length trail) := by
  apply run_of_measure (motive := fun ot : Int => 0 ≤ ot)
    (fun ot : Int => (trail.length - ot).toNat)
    (fun ot : Int => some (sampledHit (fun p => cross first p c d) trail.length
      (trail.drop ot.toNat)))
  · intro ot hLow
    obtain ⟨n, rfl⟩ := Int.eq_ofNat_of_zero_le hLow
    right
    by_cases hMore : (n : Int) < trail.length - (sep : Int)
    · have hInside : n + sep < trail.length := by omega
      have hq : trail[n + sep]? = some trail[n + sep] := List.getElem?_eq_getElem hInside
      have hCross : crossAt cross trail points ((n : Int) + sep) k =
          some (cross first trail[n + sep] c d) := by
        rw [← Int.natCast_add, crossAt_eq hFirst hq hc hd]
      have hNext : ((n : Int) + sep).toNat = n + sep := by omega
      have hRound : sampleRound cross trail points k n =
          if cross first trail[n + sep] c d then some (.leave true)
          else some (.again ((n : Int) + sep)) := by
        unfold sampleRound
        rw [if_pos hMore, hCross]
        rfl
      rw [hRound, Int.toNat_natCast, sampledHit_drop hq]
      cases hHit : cross first trail[n + sep] c d with
      | true => exact Or.inl ⟨true, rfl, rfl⟩
      | false =>
          right
          refine ⟨_, rfl, Int.natCast_nonneg (n + sep), ?_, ?_⟩
          · unfold sep at hMore ⊢
            omega
          · rw [hNext]
            rfl
    · left
      have hEnd : (trail.drop n).drop sep = [] := by
        rw [List.drop_drop, List.drop_eq_nil_iff]
        omega
      refine ⟨false, if_neg hMore, ?_⟩
      rw [Int.toNat_natCast]
      cases trail.length with
      | zero => rfl
      | succ length => rw [sampledHit, hEnd]
  · exact le_refl _
  · omega

theorem chordHitAt_eq {k fuel : Nat} {first c d : Point} (hFirst : trail[0]? = some first)
    (hc : points[k]? = some c) (hd : points[k + 1]? = some d) (hFuel : trail.length < fuel) :
    chordHitAt cross trail points fuel k = some (chordHit cross first trail c d) := by
  have hPos : 0 < trail.length := (List.getElem?_eq_some_iff.mp hFirst).1
  have hPosition : (trail.length : Int) - 1 = (trail.length - 1 : Nat) := by omega
  have hLast : trail[trail.length - 1]? = some (trail.getLastD first) := getElem?_last hPos first
  unfold chordHitAt chordHit
  rw [hPosition, crossAt_eq hFirst hLast hc hd]
  dsimp only
  split_ifs
  · rfl
  · rw [sampleLoop_eq hFirst hc hd hFuel]
    cases sampledHit (fun p => cross first p c d) trail.length trail <;> rfl

theorem chordHitAt_outside {k : Nat} (hOutside : points[k + 1]? = none) (fuel : Nat) :
    chordHitAt cross trail points fuel k = none := by
  unfold chordHitAt
  split_ifs with hShort
  · exact crossAt_outside hOutside _
  · have hLoop : run (sampleRound cross trail points k) fuel 0 = none := by
      cases fuel with
      | zero => rfl
      | succ fuel =>
          have hMore : (0 : Int) < trail.length - (sep : Int) := by omega
          unfold run sampleRound
          rw [if_pos hMore, crossAt_outside hOutside]
          rfl
    rw [hLoop]
    rfl

theorem judgeOutLine_settles (cross : Point → Point → Point → Point → Bool)
    (trail points : List Point) :
    Settles (judgeOutLine cross trail points) (Hengda.judgeOutLine cross trail points) := by
  refine ⟨trail.length + 1, fun fuel hFuel => ?_⟩
  match trail with
  | [] => rfl
  | [_] => rfl
  | first :: second :: rest =>
      have hLong : ¬ (first :: second :: rest).length < 2 := by simp
      unfold judgeOutLine
      rw [if_neg hLong]
      match points with
      | [] => exact chordHitAt_outside rfl fuel
      | [_] => exact chordHitAt_outside rfl fuel
      | _ :: _ :: _ => exact chordHitAt_eq rfl rfl rfl hFuel

theorem brokenLineLoop_eq {fuel : Nat} {first : Point} (hFirst : trail[0]? = some first)
    (hTrail : trail.length < fuel) (hPoints : points.length < fuel) :
    run (brokenLineRound cross trail points fuel) fuel 0 =
      brokenLineHit (chordHit cross first trail) points := by
  apply run_of_measure (motive := fun it : Int => 0 ≤ it ∧ (it = 0 ∨ it < points.length))
    (fun it : Int => (points.length - it).toNat)
    (fun it : Int => brokenLineHit (chordHit cross first trail) (points.drop it.toNat))
  · rintro it ⟨hLow, hInside⟩
    obtain ⟨n, rfl⟩ := Int.eq_ofNat_of_zero_le hLow
    rw [Int.toNat_natCast]
    have hRound (hMore : (n : Int) ≠ points.length - 1) :
        brokenLineRound cross trail points fuel n = (do
          if ← chordHitAt cross trail points fuel n then some (.leave true)
          else some (.again ((n : Int) + 1))) := if_pos hMore
    rcases Nat.lt_trichotomy (n + 1) points.length with hMore | hLast | hBehind
    · right
      have hc : points[n]? = some points[n] := List.getElem?_eq_getElem (by omega)
      have hd : points[n + 1]? = some points[n + 1] := List.getElem?_eq_getElem hMore
      have hDrop : points.drop n = points[n] :: points[n + 1] :: points.drop (n + 2) := by
        rw [List.drop_eq_getElem_cons (by omega), List.drop_eq_getElem_cons hMore]
      have hNext : points.drop (n + 1) = points[n + 1] :: points.drop (n + 2) :=
        List.drop_eq_getElem_cons hMore
      rw [hRound (by omega), chordHitAt_eq hFirst hc hd hTrail, hDrop, brokenLineHit]
      cases hHit : chordHit cross first trail points[n] points[n + 1] with
      | true => exact Or.inl ⟨true, rfl, rfl⟩
      | false =>
          right
          refine ⟨(n : Int) + 1, rfl, ⟨by omega, Or.inr (by omega)⟩, by omega, ?_⟩
          have hPosition : ((n : Int) + 1).toNat = n + 1 := by omega
          rw [hPosition, hNext]
          rfl
    · right
      left
      have hEnd : (n : Int) = points.length - 1 := by omega
      have hDrop : points.drop n = [points[n]] := by
        rw [List.drop_eq_getElem_cons (by omega), List.drop_eq_nil_iff.mpr (by omega)]
      refine ⟨false, if_neg (not_not.mpr hEnd), ?_⟩
      rw [hDrop]
      rfl
    · left
      have hEmpty : points = [] := List.length_eq_zero_iff.mp (by omega)
      have hOutside : points[n + 1]? = none := List.getElem?_eq_none (by omega)
      refine ⟨?_, by rw [hEmpty, List.drop_nil]; rfl⟩
      rw [hRound (by omega), chordHitAt_outside hOutside]
      rfl
  · exact ⟨le_refl _, Or.inl rfl⟩
  · omega

theorem judgeOutBrokenLine_settles (cross : Point → Point → Point → Point → Bool)
    (trail points : List Point) :
    Settles (judgeOutBrokenLine cross trail points)
      (Hengda.judgeOutBrokenLine cross trail points) := by
  refine ⟨trail.length + points.length + 1, fun fuel hFuel => ?_⟩
  match trail with
  | [] => rfl
  | [_] => rfl
  | first :: second :: rest =>
      have hLong : ¬ (first :: second :: rest).length < 2 := by simp
      unfold judgeOutBrokenLine
      rw [if_neg hLong]
      exact brokenLineLoop_eq rfl (by omega) (by omega)

end LineOutcomes

end Accesses
end Hengda

import Hengda.Utility.Types
import Mathlib.Algebra.Order.Field.Basic

/-! One tracked person. A trail keeps the foot points seen since it was
created or last cleared, the newest box, the number of frames since that box
was seen and whether it may still take a detection of the current frame. -/
namespace Hengda

/-- Frames after which a trail without detections is dropped. -/
def timeStamp : Nat := 120

/-- Number of stored points above which a trail is cut. -/
def much : Nat := 60

structure Trail where
  count : Nat
  insertable : Bool
  lt : Point
  rb : Point
  points : List Point
deriving DecidableEq, Repr

namespace Trail

def create (a b : Point) : Trail :=
  { count := 0, insertable := false, lt := a, rb := b, points := [foot a b] }

def checkStates (t : Trail) : Bool :=
  t.count < timeStamp

/-- `clear_` restarts the history at the foot of the stored box. -/
def clear (t : Trail) : Trail :=
  { t with points := [foot t.lt t.rb] }

/-- The cut drops the whole history and keeps the newest foot only. -/
def updateStatesInsert (t : Trail) (x y : Point) : Trail :=
  let t := { t with count := 0, lt := x, rb := y, insertable := false }
  if t.points.length > much then { t with points := [foot t.lt t.rb] } else t

def insert (t : Trail) (a b : Point) : Trail :=
  updateStatesInsert { t with points := t.points ++ [foot a b] } a b

def updateStatesCommon (t : Trail) : Trail :=
  { t with count := t.count + 1, insertable := true }

variable {K : Type*} [Field K] [LinearOrder K]

/-- `THETA`, the weight of the overlap. -/
def theta (K : Type*) [Field K] : K :=
  1 / 2

/-- Half of the intersection over union minus half of the normalised centre
distance, in exact arithmetic over `K`. `NORMALIZE` is 2203. -/
def calDis (sqrt : K → K) (t : Trail) (a b : Point) : K :=
  let w : K := ((min b.x t.rb.x - max a.x t.lt.x : Int) : K)
  let h : K := ((min b.y t.rb.y - max a.y t.lt.y : Int) : K)
  let iou : K :=
    if w ≤ 0 ∨ h ≤ 0 then 0
    else
      let sa : K := (((b.x - a.x) * (b.y - a.y) : Int) : K)
      let sb : K := (((t.rb.x - t.lt.x) * (t.rb.y - t.lt.y) : Int) : K)
      w * h / (sa + sb - w * h)
  let mid1x : K := ((a.x + b.x : Int) : K) / 2
  let mid1y : K := ((a.y + b.y : Int) : K) / 2
  let mid2x : K := ((t.lt.x + t.rb.x : Int) : K) / 2
  let mid2y : K := ((t.lt.y + t.rb.y : Int) : K) / 2
  let dis : K := sqrt ((mid1x - mid2x) ^ 2 + (mid1y - mid2y) ^ 2) / 2203
  theta K * iou - (1 - theta K) * dis

section Parts

variable (K) (a b lt rb : Point)

/-- `w` and `h` of `cal_dis`. -/
def sharedWidth : K :=
  ((min b.x rb.x - max a.x lt.x : Int) : K)

def sharedHeight : K :=
  ((min b.y rb.y - max a.y lt.y : Int) : K)

/-- `SA + SB - w*h`, by which the overlap is divided. -/
def unionArea : K :=
  (((b.x - a.x) * (b.y - a.y) : Int) : K) + (((rb.x - lt.x) * (rb.y - lt.y) : Int) : K) -
    sharedWidth K a b lt rb * sharedHeight K a b lt rb

def iou : K :=
  if sharedWidth K a b lt rb ≤ 0 ∨ sharedHeight K a b lt rb ≤ 0 then 0
  else sharedWidth K a b lt rb * sharedHeight K a b lt rb / unionArea K a b lt rb

/-- `dis` of `cal_dis`. -/
def centreDistance (sqrt : K → K) : K :=
  sqrt ((((a.x + b.x : Int) : K) / 2 - ((lt.x + rb.x : Int) : K) / 2) ^ 2 +
    (((a.y + b.y : Int) : K) / 2 - ((lt.y + rb.y : Int) : K) / 2) ^ 2) / 2203

theorem calDis_eq (sqrt : K → K) (t : Trail) : calDis sqrt t a b =
    theta K * iou K a b t.lt t.rb - (1 - theta K) * centreDistance K a b t.lt t.rb sqrt :=
  rfl

end Parts

@[simp]
theorem create_insertable (a b : Point) : (create a b).insertable = false := rfl

@[simp]
theorem create_count (a b : Point) : (create a b).count = 0 := rfl

@[simp]
theorem create_points (a b : Point) : (create a b).points = [foot a b] := rfl

@[simp]
theorem create_lt (a b : Point) : (create a b).lt = a := rfl

@[simp]
theorem create_rb (a b : Point) : (create a b).rb = b := rfl

theorem insert_points (t : Trail) (a b : Point) :
    (t.insert a b).points =
      if t.points.length + 1 > much then [foot a b] else t.points ++ [foot a b] := by
  unfold insert updateStatesInsert
  simp only [List.length_append, List.length_singleton]
  split_ifs <;> rfl

theorem insert_points_of_lt (t : Trail) (a b : Point) (h : t.points.length < much) :
    (t.insert a b).points = t.points ++ [foot a b] := by
  rw [insert_points, if_neg (by omega)]

/-- At the boundary length the new foot is all that is left, so the side on
which the person stood before is forgotten. -/
theorem insert_points_of_le (t : Trail) (a b : Point) (h : much ≤ t.points.length) :
    (t.insert a b).points = [foot a b] := by
  rw [insert_points, if_pos (by omega)]

/-- Apart from the points, an insertion leaves what a new trail would hold. -/
theorem insert_fields (t : Trail) (a b : Point) :
    (t.insert a b).count = 0 ∧ (t.insert a b).insertable = false ∧
      (t.insert a b).lt = a ∧ (t.insert a b).rb = b := by
  unfold insert updateStatesInsert
  dsimp only
  split_ifs <;> exact ⟨rfl, rfl, rfl, rfl⟩

@[simp]
theorem insert_count (t : Trail) (a b : Point) : (t.insert a b).count = 0 :=
  (insert_fields t a b).1

@[simp]
theorem insert_insertable (t : Trail) (a b : Point) : (t.insert a b).insertable = false :=
  (insert_fields t a b).2.1

@[simp]
theorem insert_lt (t : Trail) (a b : Point) : (t.insert a b).lt = a :=
  (insert_fields t a b).2.2.1

@[simp]
theorem insert_rb (t : Trail) (a b : Point) : (t.insert a b).rb = b :=
  (insert_fields t a b).2.2.2

@[simp]
theorem clear_count (t : Trail) : t.clear.count = t.count := rfl

@[simp]
theorem clear_insertable (t : Trail) : t.clear.insertable = t.insertable := rfl

@[simp]
theorem clear_lt (t : Trail) : t.clear.lt = t.lt := rfl

@[simp]
theorem clear_rb (t : Trail) : t.clear.rb = t.rb := rfl

@[simp]
theorem clear_points (t : Trail) : t.clear.points = [foot t.lt t.rb] := rfl

@[simp]
theorem updateStatesCommon_count (t : Trail) : t.updateStatesCommon.count = t.count + 1 := rfl

@[simp]
theorem updateStatesCommon_insertable (t : Trail) : t.updateStatesCommon.insertable = true := rfl

@[simp]
theorem updateStatesCommon_points (t : Trail) : t.updateStatesCommon.points = t.points := rfl

@[simp]
theorem updateStatesCommon_lt (t : Trail) : t.updateStatesCommon.lt = t.lt := rfl

@[simp]
theorem updateStatesCommon_rb (t : Trail) : t.updateStatesCommon.rb = t.rb := rfl

theorem checkStates_iff (t : Trail) : t.checkStates = true ↔ t.count < timeStamp := by
  simp [checkStates]

end Trail
end Hengda

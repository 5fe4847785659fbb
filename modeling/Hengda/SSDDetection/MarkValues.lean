import Hengda.SSDDetection.MarkedPixels

/-! The values that the drawing computes, with those that its loops only compare. All of
them are `int`s if those at the ends of the loops and those of the pixels are. -/
namespace Hengda

/-- What a loop that starts at `low + count - 1` and goes down to `low` computes for its
variable: the sum it starts from, and the values up to the one that ends it. -/
def loopValues (low count : Int) : List Int :=
  (low + count) :: (List.range (count.toNat + 1)).map fun n : Nat => low + count - 1 - (n : Int)

def pixelValues (picW picH j k : Int) : List Int :=
  let row := j / 2 + picH
  [j * picW, j * picW + k, j / 2, row, row * picW, row * picW + k, row * picW + k - k % 2,
    row * picW + k - k % 2 + 1]

def findAxisValues (rect : MarkedRect) : List Int :=
  [rect.x, rect.y, rect.w, rect.h, rect.x + rect.w, rect.x + rect.w - rect.thin, rect.y + rect.h,
    rect.y + rect.h - rect.thin, rect.y + rect.thin]

def drawWidthLineValues (picW picH : Int) (rect : MarkedRect) (start : Int × Int) : List Int :=
  loopValues start.2 rect.thin ++ (downFrom start.2 rect.thin).flatMap fun j =>
    loopValues start.1 rect.w ++ (downFrom start.1 rect.w).flatMap fun k =>
      pixelValues picW picH j k

/-- The height is added to the start before the two thicknesses are taken away. -/
def drawHeightLineValues (picW picH : Int) (rect : MarkedRect) (start : Int × Int) : List Int :=
  loopValues start.1 rect.thin ++ (downFrom start.1 rect.thin).flatMap fun k =>
    [start.2 + rect.h, 2 * (rect.thin : Int)] ++ loopValues start.2 (rect.h - 2 * rect.thin) ++
      (downFrom start.2 (rect.h - 2 * rect.thin)).flatMap fun j => pixelValues picW picH j k

/-- The values of `NV12MarkRect`, its arguments included. -/
def markValues (picW picH : Int) (rect : MarkedRect) : List Int :=
  [picW, picH] ++ findAxisValues rect ++
    drawWidthLineValues picW picH rect (findAxis rect).top ++
    drawWidthLineValues picW picH rect (findAxis rect).bottom ++
    drawHeightLineValues picW picH rect (findAxis rect).left ++
    drawHeightLineValues picW picH rect (findAxis rect).right

/-- All values of a list are `int`s. -/
def AllInt32 (values : List Int) : Prop :=
  ∀ n ∈ values, IsInt32 n

@[simp]
theorem allInt32_nil : AllInt32 [] := by
  rintro n ⟨⟩

@[simp]
theorem allInt32_cons {n : Int} {values : List Int} :
    AllInt32 (n :: values) ↔ IsInt32 n ∧ AllInt32 values :=
  List.forall_mem_cons

@[simp]
theorem allInt32_append {first second : List Int} :
    AllInt32 (first ++ second) ↔ AllInt32 first ∧ AllInt32 second :=
  List.forall_mem_append

@[simp]
theorem allInt32_flatMap_downFrom {low count : Int} {values : Int → List Int} :
    AllInt32 ((downFrom low count).flatMap values) ↔
      ∀ n, low ≤ n → n < low + count → AllInt32 (values n) := by
  unfold AllInt32
  simp only [List.mem_flatMap, mem_downFrom]
  constructor
  · intro h n hLow hHigh m mem
    exact h m ⟨n, ⟨hLow, hHigh⟩, mem⟩
  · rintro h m ⟨n, ⟨hLow, hHigh⟩, mem⟩
    exact h n hLow hHigh m mem

/-- The largest value of a loop is the first one, the least the last one. -/
theorem allInt32_loopValues {low count : Int} : AllInt32 (loopValues low count) ↔
    IsInt32 (low + count) ∧ IsInt32 (min low (low + count) - 1) := by
  unfold loopValues
  rw [allInt32_cons]
  apply and_congr_right
  intro hFirst
  unfold AllInt32
  simp only [List.mem_map, List.mem_range]
  constructor
  · intro h
    refine h _ ⟨count.toNat, Nat.lt_succ_self _, ?_⟩
    omega
  · rintro hLast n ⟨m, hm, rfl⟩
    unfold IsInt32 at hFirst hLast ⊢
    omega

/-- The ends of the loops are `int`s. -/
structure EndsInRange (rect : MarkedRect) : Prop where
  w : IsInt32 rect.w
  h : IsInt32 rect.h
  thin : IsInt32 (2 * (rect.thin : Int))
  left : IsInt32 (rect.x - 1) ∧ IsInt32 (rect.x + rect.thin)
  right : IsInt32 (rect.x + rect.w) ∧ IsInt32 (rect.x + rect.w - rect.thin - 1)
  top : IsInt32 (rect.y - 1) ∧ IsInt32 (rect.y + rect.thin)
  bottom : IsInt32 (rect.y + rect.h - rect.thin - 1) ∧ IsInt32 (rect.y + rect.h + rect.thin)

/-- A width line begins in a row from which the thickness leads to an `int` on either
side. -/
theorem allInt32_drawWidthLine {picW picH : Int} {rect : MarkedRect} {start : Int × Int}
    (hThin : 1 ≤ rect.thin) : AllInt32 (drawWidthLineValues picW picH rect start) ↔
      (IsInt32 (start.2 + rect.thin) ∧ IsInt32 (start.2 - 1)) ∧
      (IsInt32 (start.1 + rect.w) ∧ IsInt32 (min start.1 (start.1 + rect.w) - 1)) ∧
      ∀ j k, (start.2 ≤ j ∧ j < start.2 + rect.thin) → (start.1 ≤ k ∧ k < start.1 + rect.w) →
        AllInt32 (pixelValues picW picH j k) := by
  have hLast : min start.2 (start.2 + rect.thin) = start.2 := by omega
  unfold drawWidthLineValues
  simp only [allInt32_append, allInt32_flatMap_downFrom, allInt32_loopValues, hLast]
  apply and_congr_right
  intro _
  constructor
  · intro h
    exact ⟨(h start.2 le_rfl (by omega)).1, fun j k hj hk => (h j hj.1 hj.2).2 k hk.1 hk.2⟩
  · rintro ⟨hLoop, hPixels⟩ j hLow hHigh
    exact ⟨hLoop, fun k hFirst hSecond => hPixels j k ⟨hLow, hHigh⟩ ⟨hFirst, hSecond⟩⟩

theorem allInt32_drawHeightLine {picW picH : Int} {rect : MarkedRect} {start : Int × Int}
    (hThin : 1 ≤ rect.thin) : AllInt32 (drawHeightLineValues picW picH rect start) ↔
      (IsInt32 (start.1 + rect.thin) ∧ IsInt32 (start.1 - 1)) ∧
      ((IsInt32 (start.2 + rect.h) ∧ IsInt32 (2 * (rect.thin : Int))) ∧
        IsInt32 (start.2 + (rect.h - 2 * rect.thin)) ∧
        IsInt32 (min start.2 (start.2 + (rect.h - 2 * rect.thin)) - 1)) ∧
      ∀ j k, (start.1 ≤ k ∧ k < start.1 + rect.thin) →
        (start.2 ≤ j ∧ j < start.2 + (rect.h - 2 * rect.thin)) →
          AllInt32 (pixelValues picW picH j k) := by
  have hLast : min start.1 (start.1 + rect.thin) = start.1 := by omega
  unfold drawHeightLineValues
  simp only [allInt32_append, allInt32_flatMap_downFrom, allInt32_loopValues, allInt32_cons,
    allInt32_nil, and_true, hLast]
  apply and_congr_right
  intro _
  constructor
  · intro h
    exact ⟨(h start.1 le_rfl (by omega)).1, fun j k hk hj => (h k hk.1 hk.2).2 j hj.1 hj.2⟩
  · rintro ⟨hLoop, hPixels⟩ k hLow hHigh
    exact ⟨hLoop, fun j hFirst hSecond => hPixels j k ⟨hLow, hHigh⟩ ⟨hFirst, hSecond⟩⟩

/-- Everything is in range if the ends of the loops and the values of the pixels are. -/
theorem allInt32_markValues {picW picH : Int} {rect : MarkedRect} (hThin : 1 ≤ rect.thin) :
    AllInt32 (markValues picW picH rect) ↔ (IsInt32 picW ∧ IsInt32 picH) ∧ EndsInRange rect ∧
      ∀ j k, InWidthLine rect j k ∨ InHeightLine rect j k →
        AllInt32 (pixelValues picW picH j k) := by
  unfold markValues findAxisValues findAxis
  simp only [allInt32_append, allInt32_cons, allInt32_nil, and_true,
    allInt32_drawWidthLine hThin, allInt32_drawHeightLine hThin]
  constructor
  · rintro ⟨⟨⟨⟨⟨hImage, hAxis⟩, hTop⟩, hBottom⟩, hLeft⟩, hRight⟩
    refine ⟨hImage, ?_, ?_⟩
    · obtain ⟨-, -, hw, hh, hRightEnd, -⟩ := hAxis
      refine ⟨hw, hh, hLeft.2.1.1.2, ⟨hLeft.1.2, hLeft.1.1⟩, ⟨hRightEnd, hRight.1.2⟩,
        ⟨hTop.1.2, hTop.1.1⟩, hBottom.1.2, ?_⟩
      have hSum := hLeft.2.1.1.1
      rwa [show rect.y + rect.h + rect.thin = rect.y + rect.thin + rect.h by ring]
    · rintro j k ((⟨hk, hj | hj⟩) | ⟨hj, hk | hk⟩)
      · exact hTop.2.2 j k hj hk
      · exact hBottom.2.2 j k ⟨hj.1, by omega⟩ hk
      · exact hLeft.2.2 j k hk ⟨hj.1, by omega⟩
      · exact hRight.2.2 j k ⟨hk.1, by omega⟩ ⟨hj.1, by omega⟩
  · rintro ⟨hImage, ends, hPixels⟩
    obtain ⟨hw, hh, hTwice, hLeft, hRight, hTop, hBottom⟩ := ends
    have hWidth (j k : Int) (hLine : (rect.y ≤ j ∧ j < rect.y + rect.thin) ∨
        (rect.y + rect.h - rect.thin ≤ j ∧ j < rect.y + rect.h)) (hk : rect.x ≤ k ∧
          k < rect.x + rect.w) : AllInt32 (pixelValues picW picH j k) :=
      hPixels j k (Or.inl ⟨hk, hLine⟩)
    have hHeight (j k : Int) (hLine : (rect.x ≤ k ∧ k < rect.x + rect.thin) ∨
        (rect.x + rect.w - rect.thin ≤ k ∧ k < rect.x + rect.w)) (hj : rect.y + rect.thin ≤ j ∧
          j < rect.y + rect.h - rect.thin) : AllInt32 (pixelValues picW picH j k) :=
      hPixels j k (Or.inr ⟨hj, hLine⟩)
    unfold IsInt32 at *
    refine ⟨⟨⟨⟨⟨hImage, by omega⟩, by omega, by omega, ?_⟩, by omega, by omega, ?_⟩,
      by omega, by omega, ?_⟩, by omega, by omega, ?_⟩
    · exact fun j k hj hk => hWidth j k (Or.inl hj) hk
    · exact fun j k hj hk => hWidth j k (Or.inr ⟨hj.1, by omega⟩) hk
    · exact fun j k hk hj => hHeight j k (Or.inl hk) ⟨hj.1, by omega⟩
    · exact fun j k hk hj => hHeight j k (Or.inr ⟨hk.1, by omega⟩) ⟨hj.1, by omega⟩

/-- What is computed for a pixel besides its indices: the start of its row in each of the two
planes. -/
theorem allInt32_pixelValues {picW picH j k : Int} (hWidth : 1 ≤ picW) (hHeight : 0 ≤ picH)
    (hj : IsInt32 j) : AllInt32 (pixelValues picW picH j k) ↔
      (IsInt32 (j * picW) ∧ IsInt32 (lumaIndex picW j k)) ∧ IsInt32 ((picH + j / 2) * picW) ∧
        IsInt32 (chromaIndex picW picH j k) ∧ IsInt32 (chromaIndex picW picH j k + 1) := by
  unfold pixelValues lumaIndex chromaIndex
  simp only [allInt32_cons, allInt32_nil, and_true, Int.add_comm (j / 2) picH]
  -- a row of colours that is not in front of the picture has a smaller number than its start
  have hRow : 0 ≤ picH + j / 2 → picH + j / 2 ≤ (picH + j / 2) * picW := by
    intro hNonneg
    exact le_mul_of_one_le_right hNonneg hWidth
  generalize (picH + j / 2) * picW = start at hRow
  unfold IsInt32 at *
  constructor
  · rintro ⟨hLumaRow, hLuma, -, -, hStart, -, hFirst, hSecond⟩
    omega
  · rintro ⟨⟨hLumaRow, hLuma⟩, hStart, hFirst, hSecond⟩
    omega

/-- In a picture whose size is an `int`, drawing a rectangle that lies in it computes `int`s
only. -/
theorem allInt32_markValues_of_image {picW picH : Int} {rect : MarkedRect} (hEven : Even picW)
    (hThin : 1 ≤ rect.thin) (hx : 0 ≤ rect.x) (hy : 0 ≤ rect.y)
    (hWidth : 2 * (rect.thin : Int) ≤ rect.w) (hHeight : 2 * (rect.thin : Int) ≤ rect.h)
    (hRight : rect.x + rect.w ≤ picW) (hBottom : rect.y + rect.h ≤ picH)
    (hSize : (picH + (picH + 1) / 2) * picW < 2147483648) :
    AllInt32 (markValues picW picH rect) := by
  have hRows : picH + (picH + 1) / 2 ≤ (picH + (picH + 1) / 2) * picW :=
    le_mul_of_one_le_right (by omega) (by omega)
  have hColumns : picW ≤ (picH + (picH + 1) / 2) * picW :=
    le_mul_of_one_le_left (by omega) (by omega)
  rw [allInt32_markValues hThin]
  refine ⟨?_, ?_, ?_⟩
  · unfold IsInt32
    omega
  · constructor <;> unfold IsInt32 <;> omega
  · intro j k hLine
    have hImage : (0 ≤ j ∧ j < picH) ∧ (0 ≤ k ∧ k < picW) := by
      unfold InWidthLine InHeightLine at hLine
      omega
    obtain ⟨hj, hk⟩ := hImage
    have hLuma := lumaIndex_bounds hj hk
    have hStart : picH * picW ≤ chromaIndex picW picH j k :=
      chromaIndex_ge hj.1 hk.1 (by omega)
    have hEnd := chromaIndex_lt hj.2 hk.2 (by omega : 0 ≤ picW)
    have hPlanes : picH * picW ≤ (picH + (picH + 1) / 2) * picW :=
      mul_le_mul_of_nonneg_right (by omega) (by omega)
    have hLumaRow : 0 ≤ j * picW := mul_nonneg hj.1 (by omega)
    have hColourRow : 0 ≤ (picH + j / 2) * picW := mul_nonneg (by omega) (by omega)
    rw [Int.even_iff.mp hEven] at hEnd
    rw [allInt32_pixelValues (by omega) (by omega) (by unfold IsInt32; omega)]
    unfold lumaIndex at hLuma ⊢
    unfold chromaIndex at hStart hEnd ⊢
    unfold IsInt32
    omega

end Hengda

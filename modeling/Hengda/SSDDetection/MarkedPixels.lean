import Hengda.Library.Writes
import Hengda.SSDDetection.MarkRect
import Mathlib.Algebra.Group.Even
import Mathlib.Algebra.Order.Ring.Int
import Mathlib.Tactic.Linarith
import Mathlib.Tactic.Ring

/-! The pixels that are drawn, and the bytes that this changes. The four lines
meet at the corners without a gap, and overlap nowhere that matters, since all
writes to one byte have the same value. -/
namespace Hengda

/-- All bytes that `NV12MarkRect` writes, in order. -/
def markWrites (picW picH : Int) (rect : MarkedRect) : List (Int × UInt8) :=
  drawWidthLine picW picH rect (findAxis rect).top ++
    drawWidthLine picW picH rect (findAxis rect).bottom ++
    drawHeightLine picW picH rect (findAxis rect).left ++
    drawHeightLine picW picH rect (findAxis rect).right

theorem nv12MarkRect_eq (data : List UInt8) (picW picH : Int) (rect : MarkedRect) :
    nv12MarkRect data picW picH rect = Writes.putAll data (markWrites picW picH rect) := rfl

theorem mem_downFrom {low count n : Int} : n ∈ downFrom low count ↔ low ≤ n ∧ n < low + count := by
  unfold downFrom
  rw [List.mem_map]
  constructor
  · rintro ⟨k, mem, rfl⟩
    have hLess := List.mem_range.mp mem
    omega
  · rintro ⟨hLow, hHigh⟩
    exact ⟨(low + count - 1 - n).toNat, List.mem_range.mpr (by omega), by omega⟩

/-- The pixel in row `j` and column `k` is in the upper or the lower line. -/
def InWidthLine (rect : MarkedRect) (j k : Int) : Prop :=
  (rect.x ≤ k ∧ k < rect.x + rect.w) ∧
    ((rect.y ≤ j ∧ j < rect.y + rect.thin) ∨
      (rect.y + rect.h - rect.thin ≤ j ∧ j < rect.y + rect.h))

/-- It is in the left or the right line, which leave out the corners. -/
def InHeightLine (rect : MarkedRect) (j k : Int) : Prop :=
  (rect.y + rect.thin ≤ j ∧ j < rect.y + rect.h - rect.thin) ∧
    ((rect.x ≤ k ∧ k < rect.x + rect.thin) ∨
      (rect.x + rect.w - rect.thin ≤ k ∧ k < rect.x + rect.w))

theorem mem_drawWidthLine {picW picH : Int} {rect : MarkedRect} {start : Int × Int}
    {write : Int × UInt8} : write ∈ drawWidthLine picW picH rect start ↔
      ∃ j k, (start.2 ≤ j ∧ j < start.2 + rect.thin) ∧ (start.1 ≤ k ∧ k < start.1 + rect.w) ∧
        write ∈ pixelWrites picW picH rect.yuv j k := by
  unfold drawWidthLine
  simp only [List.mem_flatMap, mem_downFrom]
  constructor
  · rintro ⟨j, hj, k, hk, mem⟩
    exact ⟨j, k, hj, hk, mem⟩
  · rintro ⟨j, k, hj, hk, mem⟩
    exact ⟨j, hj, k, hk, mem⟩

theorem mem_drawHeightLine {picW picH : Int} {rect : MarkedRect} {start : Int × Int}
    {write : Int × UInt8} : write ∈ drawHeightLine picW picH rect start ↔
      ∃ j k, (start.1 ≤ k ∧ k < start.1 + rect.thin) ∧
        (start.2 ≤ j ∧ j < start.2 + (rect.h - 2 * rect.thin)) ∧
        write ∈ pixelWrites picW picH rect.yuv j k := by
  unfold drawHeightLine
  simp only [List.mem_flatMap, mem_downFrom]
  constructor
  · rintro ⟨k, hk, j, hj, mem⟩
    exact ⟨j, k, hk, hj, mem⟩
  · rintro ⟨j, k, hk, hj, mem⟩
    exact ⟨k, hk, j, hj, mem⟩

/-- The bytes that are written are those of the pixels of the four lines. -/
theorem mem_markWrites {picW picH : Int} {rect : MarkedRect} {write : Int × UInt8} :
    write ∈ markWrites picW picH rect ↔
      ∃ j k, (InWidthLine rect j k ∨ InHeightLine rect j k) ∧
        write ∈ pixelWrites picW picH rect.yuv j k := by
  unfold markWrites findAxis InWidthLine InHeightLine
  simp only [List.mem_append, mem_drawWidthLine, mem_drawHeightLine]
  constructor
  · rintro (((⟨j, k, hj, hk, mem⟩ | ⟨j, k, hj, hk, mem⟩) | ⟨j, k, hk, hj, mem⟩) |
      ⟨j, k, hk, hj, mem⟩)
    · exact ⟨j, k, Or.inl ⟨hk, Or.inl hj⟩, mem⟩
    · exact ⟨j, k, Or.inl ⟨hk, Or.inr ⟨hj.1, by omega⟩⟩, mem⟩
    · exact ⟨j, k, Or.inr ⟨⟨hj.1, by omega⟩, Or.inl hk⟩, mem⟩
    · exact ⟨j, k, Or.inr ⟨⟨hj.1, by omega⟩, Or.inr ⟨hk.1, by omega⟩⟩, mem⟩
  · rintro ⟨j, k, ⟨hk, hj | hj⟩ | ⟨hj, hk | hk⟩, mem⟩
    · exact Or.inl (Or.inl (Or.inl ⟨j, k, hj, hk, mem⟩))
    · exact Or.inl (Or.inl (Or.inr ⟨j, k, ⟨hj.1, by omega⟩, hk, mem⟩))
    · exact Or.inl (Or.inr ⟨j, k, hk, ⟨hj.1, by omega⟩, mem⟩)
    · exact Or.inr ⟨j, k, ⟨hk.1, by omega⟩, ⟨hj.1, by omega⟩, mem⟩

/-- Where the brightness of a pixel is. -/
def lumaIndex (picW j k : Int) : Int :=
  j * picW + k

/-- Where the first of the two colour bytes of its block is: in row `pic_h + j / 2`,
in the even column of the block. -/
def chromaIndex (picW picH j k : Int) : Int :=
  (picH + j / 2) * picW + (k - k % 2)

theorem mem_pixelWrites {picW picH : Int} {yuv : Yuv} {j k : Int} {write : Int × UInt8} :
    write ∈ pixelWrites picW picH yuv j k ↔ write = (lumaIndex picW j k, yuv.y) ∨
      write = (chromaIndex picW picH j k, yuv.u) ∨
        write = (chromaIndex picW picH j k + 1, yuv.v) := by
  have hChroma : (j / 2 + picH) * picW + k - k % 2 = chromaIndex picW picH j k := by
    unfold chromaIndex
    ring
  unfold pixelWrites lumaIndex
  dsimp only
  rw [hChroma]
  simp only [List.mem_cons, List.not_mem_nil, or_false]

/-- The pixel is one of the rectangle, less than `thin` pixels away from the first
or the last row or column. -/
def OnBorder (rect : MarkedRect) (j k : Int) : Prop :=
  ((rect.x ≤ k ∧ k < rect.x + rect.w) ∧ (rect.y ≤ j ∧ j < rect.y + rect.h)) ∧
    (k - rect.x < rect.thin ∨ rect.x + rect.w - 1 - k < rect.thin ∨
      j - rect.y < rect.thin ∨ rect.y + rect.h - 1 - j < rect.thin)

/-- The lines cover the border, and nothing else. -/
theorem drawn_iff_onBorder {rect : MarkedRect} (hWidth : 2 * (rect.thin : Int) ≤ rect.w)
    (hHeight : 2 * (rect.thin : Int) ≤ rect.h) (j k : Int) :
    (InWidthLine rect j k ∨ InHeightLine rect j k) ↔ OnBorder rect j k := by
  unfold InWidthLine InHeightLine OnBorder
  omega

section Indices

variable {picW picH j k : Int}

theorem lumaIndex_bounds (hj : 0 ≤ j ∧ j < picH) (hk : 0 ≤ k ∧ k < picW) :
    0 ≤ lumaIndex picW j k ∧ lumaIndex picW j k < picH * picW := by
  unfold lumaIndex
  have hRow : 0 ≤ j * picW := mul_nonneg hj.1 (by omega)
  have hNext : (j + 1) * picW ≤ picH * picW := mul_le_mul_of_nonneg_right hj.2 (by omega)
  rw [add_mul, one_mul] at hNext
  omega

/-- The colours are behind the brightness. -/
theorem chromaIndex_ge (hj : 0 ≤ j) (hk : 0 ≤ k) (hWidth : 0 ≤ picW) :
    picH * picW ≤ chromaIndex picW picH j k := by
  unfold chromaIndex
  have hRow : 0 ≤ j / 2 * picW := mul_nonneg (by omega) hWidth
  rw [add_mul]
  omega

/-- The rows of colours end within half of the height, rounded up. In an image of
odd width the second byte of the last block belongs to the next row. -/
theorem chromaIndex_lt (hj : j < picH) (hk : k < picW) (hWidth : 0 ≤ picW) :
    chromaIndex picW picH j k + 1 < (picH + (picH + 1) / 2) * picW + picW % 2 := by
  unfold chromaIndex
  have hRows : picH + j / 2 + 1 ≤ picH + (picH + 1) / 2 := by omega
  have hNext := mul_le_mul_of_nonneg_right hRows hWidth
  rw [add_mul, one_mul] at hNext
  omega

theorem chromaIndex_even (hEven : Even picW) : chromaIndex picW picH j k % 2 = 0 := by
  obtain ⟨m, rfl⟩ := hEven
  unfold chromaIndex
  have hRow : (picH + j / 2) * (m + m) = 2 * ((picH + j / 2) * m) := by ring
  omega

end Indices

/-- What a byte of the image stands for can be told from its place: the plane of
the brightness comes first, the colours alternate behind it. -/
def componentAt (picW picH : Int) (yuv : Yuv) (i : Int) : UInt8 :=
  if i < picH * picW then yuv.y else if i % 2 = 0 then yuv.u else yuv.v

section Components

variable {picW picH j k : Int} {yuv : Yuv}

theorem componentAt_luma (hj : 0 ≤ j ∧ j < picH) (hk : 0 ≤ k ∧ k < picW) :
    componentAt picW picH yuv (lumaIndex picW j k) = yuv.y :=
  if_pos (lumaIndex_bounds hj hk).2

theorem componentAt_chroma (hEven : Even picW) (hj : 0 ≤ j) (hk : 0 ≤ k) (hWidth : 0 ≤ picW) :
    componentAt picW picH yuv (chromaIndex picW picH j k) = yuv.u ∧
      componentAt picW picH yuv (chromaIndex picW picH j k + 1) = yuv.v := by
  have hStart : picH * picW ≤ chromaIndex picW picH j k := chromaIndex_ge hj hk hWidth
  have hParity : chromaIndex picW picH j k % 2 = 0 := chromaIndex_even hEven
  unfold componentAt
  constructor
  · rw [if_neg (by omega), if_pos hParity]
  · rw [if_neg (by omega), if_neg (by omega)]

/-- So two pixels never write different values to one byte. -/
theorem pixelWrites_component (hEven : Even picW) (hj : 0 ≤ j ∧ j < picH) (hk : 0 ≤ k ∧ k < picW)
    {write : Int × UInt8} (mem : write ∈ pixelWrites picW picH yuv j k) :
    write.2 = componentAt picW picH yuv write.1 := by
  have hChroma := @componentAt_chroma picW picH j k yuv hEven hj.1 hk.1 (by omega)
  rcases mem_pixelWrites.mp mem with rfl | rfl | rfl
  · exact (componentAt_luma hj hk).symm
  · exact hChroma.1.symm
  · exact hChroma.2.symm

end Components

/-- The border of the rectangle is painted, in both planes, and the rest of the
buffer is as it was. All of the bytes that are painted belong to the image. -/
structure PaintsBorder (data : List UInt8) (picW picH : Int) (rect : MarkedRect) : Prop where
  luma : ∀ j k, OnBorder rect j k →
    (nv12MarkRect data picW picH rect)[(lumaIndex picW j k).toNat]? =
      data[(lumaIndex picW j k).toNat]?.map (fun _ => rect.yuv.y)
  chroma : ∀ j k, OnBorder rect j k →
    (nv12MarkRect data picW picH rect)[(chromaIndex picW picH j k).toNat]? =
        data[(chromaIndex picW picH j k).toNat]?.map (fun _ => rect.yuv.u) ∧
      (nv12MarkRect data picW picH rect)[(chromaIndex picW picH j k + 1).toNat]? =
        data[(chromaIndex picW picH j k + 1).toNat]?.map (fun _ => rect.yuv.v)
  others : ∀ i : Nat, (∀ j k, OnBorder rect j k → lumaIndex picW j k ≠ i ∧
      chromaIndex picW picH j k ≠ i ∧ chromaIndex picW picH j k + 1 ≠ i) →
    (nv12MarkRect data picW picH rect)[i]? = data[i]?
  inside : ∀ j k, OnBorder rect j k →
    (0 ≤ lumaIndex picW j k ∧ lumaIndex picW j k < picH * picW) ∧
      picH * picW ≤ chromaIndex picW picH j k ∧
        chromaIndex picW picH j k + 1 < (picH + (picH + 1) / 2) * picW

theorem paintsBorder (data : List UInt8) {picW : Int} (picH : Int) {rect : MarkedRect}
    (hEven : Even picW) (hx : 0 ≤ rect.x) (hy : 0 ≤ rect.y)
    (hWidth : 2 * (rect.thin : Int) ≤ rect.w) (hHeight : 2 * (rect.thin : Int) ≤ rect.h)
    (hRight : rect.x + rect.w ≤ picW) (hBottom : rect.y + rect.h ≤ picH) :
    PaintsBorder data picW picH rect := by
  have hImage (j k : Int) (onBorder : OnBorder rect j k) :
      (0 ≤ j ∧ j < picH) ∧ (0 ≤ k ∧ k < picW) := by
    unfold OnBorder at onBorder
    omega
  have hWrites (write : Int × UInt8) : write ∈ markWrites picW picH rect ↔
      ∃ j k, OnBorder rect j k ∧ write ∈ pixelWrites picW picH rect.yuv j k := by
    simp only [mem_markWrites, drawn_iff_onBorder hWidth hHeight]
  have hPainted (j k : Int) (onBorder : OnBorder rect j k) (i : Int) (value : UInt8)
      (hNonneg : 0 ≤ i) (mem : (i, value) ∈ pixelWrites picW picH rect.yuv j k) :
      (nv12MarkRect data picW picH rect)[i.toNat]? = data[i.toNat]?.map (fun _ => value) := by
    have hCast : (i.toNat : Int) = i := Int.toNat_of_nonneg hNonneg
    obtain ⟨hj, hk⟩ := hImage j k onBorder
    have hValue : value = componentAt picW picH rect.yuv i := pixelWrites_component hEven hj hk mem
    rw [nv12MarkRect_eq]
    apply Writes.putAll_of_agree
    · exact ⟨_, (hWrites _).mpr ⟨j, k, onBorder, mem⟩, hCast.symm⟩
    · intro write hOther hAt
      obtain ⟨j', k', onBorder', mem'⟩ := (hWrites write).mp hOther
      obtain ⟨hj', hk'⟩ := hImage j' k' onBorder'
      rw [pixelWrites_component hEven hj' hk' mem', hAt, hCast, hValue]
  have hInside (j k : Int) (onBorder : OnBorder rect j k) :
      (0 ≤ lumaIndex picW j k ∧ lumaIndex picW j k < picH * picW) ∧
        picH * picW ≤ chromaIndex picW picH j k ∧
          chromaIndex picW picH j k + 1 < (picH + (picH + 1) / 2) * picW := by
    obtain ⟨hj, hk⟩ := hImage j k onBorder
    have hEnd := chromaIndex_lt hj.2 hk.2 (by omega)
    rw [Int.even_iff.mp hEven, add_zero] at hEnd
    exact ⟨lumaIndex_bounds hj hk, chromaIndex_ge hj.1 hk.1 (by omega), hEnd⟩
  constructor
  · intro j k onBorder
    exact hPainted j k onBorder _ _ (hInside j k onBorder).1.1 (mem_pixelWrites.mpr (Or.inl rfl))
  · intro j k onBorder
    have hPlace := hInside j k onBorder
    constructor
    · exact hPainted j k onBorder _ _ (by omega) (mem_pixelWrites.mpr (Or.inr (Or.inl rfl)))
    · exact hPainted j k onBorder _ _ (by omega) (mem_pixelWrites.mpr (Or.inr (Or.inr rfl)))
  · intro i hElsewhere
    rw [nv12MarkRect_eq]
    apply Writes.putAll_of_untouched
    intro write hWrite
    obtain ⟨j, k, onBorder, mem⟩ := (hWrites write).mp hWrite
    obtain ⟨hLuma, hFirst, hSecond⟩ := hElsewhere j k onBorder
    rcases mem_pixelWrites.mp mem with rfl | rfl | rfl
    · exact hLuma
    · exact hFirst
    · exact hSecond
  · exact hInside

/-- A rectangle at odd coordinates, in an image of odd height. -/
theorem paintsBorder_sample :
    PaintsBorder (List.replicate 90 0) 12 5 ⟨3, 1, 5, 4, 2, rgbToYuv 255 0 0⟩ :=
  paintsBorder _ 5 (by decide) (by decide) (by decide) (by decide) (by decide) (by decide)
    (by decide)

end Hengda

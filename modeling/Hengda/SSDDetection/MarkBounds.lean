import Hengda.SSDDetection.Detection
import Hengda.SSDDetection.MarkValues
import Mathlib.Algebra.Order.Field.Basic

/-! Whether the drawing stays inside the frame buffer. The corners of a detection
are cut off on one side only: the first one may lie beyond the lower right end of
the image, the second one before its upper left end. What the source computes for them
may even be no `int`. -/
namespace Hengda

section Corners

theorem truncate_nonneg {q : ℚ} (hNonneg : 0 ≤ q) : 0 ≤ truncate q :=
  Int.tdiv_nonneg (Rat.num_nonneg.mpr hNonneg) (Int.natCast_nonneg _)

theorem truncate_le {q : ℚ} {n : Nat} (hLe : q ≤ n) : truncate q ≤ n := by
  unfold truncate
  have hDen : (0 : Int) < q.den := by exact_mod_cast q.den_pos
  have hNum : q.num ≤ n * q.den := by
    have hCast : (q.num : ℚ) ≤ n * q.den := by
      rw [← div_le_iff₀ (by exact_mod_cast q.den_pos), Rat.num_div_den]
      exact hLe
    exact_mod_cast hCast
  rcases le_or_gt 0 q.num with hPos | hNeg
  · rw [Int.tdiv_eq_ediv_of_nonneg hPos]
    exact Int.ediv_le_of_le_mul hDen hNum
  · have hOpposite := Int.tdiv_nonneg (neg_nonneg.mpr (le_of_lt hNeg)) (le_of_lt hDen)
    rw [Int.neg_tdiv] at hOpposite
    omega

/-- The four numbers that are converted for the corners of a detection. -/
def Row.corners (row : Row) (width height : Nat) : List ℚ :=
  [scaled (max row.xmin 0) width, scaled (max row.ymin 0) height, scaled (min row.xmax 1) width,
    scaled (min row.ymax 1) height]

/-- The conversions of the corners are defined. -/
def Row.Converted (row : Row) (width height : Nat) : Prop :=
  ∀ q ∈ row.corners width height, IsInt32 (truncate q)

instance (row : Row) (width height : Nat) : Decidable (row.Converted width height) :=
  inferInstanceAs (Decidable (∀ q ∈ row.corners width height, IsInt32 (truncate q)))

theorem scaled_nonneg {q : ℚ} (hNonneg : 0 ≤ q) (side : Nat) : 0 ≤ scaled q side :=
  Rounding.toPrecision_nonneg one_lt_two
    (mul_nonneg hNonneg (Rounding.toPrecision_nonneg one_lt_two (Nat.cast_nonneg side)))

/-- A side of so few pixels is a `float` itself, and rounding does not pass it. -/
theorem scaled_le {q : ℚ} {side : Nat} (hOne : q ≤ 1) (hSide : side < 16777216) :
    scaled q side ≤ side := by
  have hGrid : Rounding.OnGrid 2 24 (side : ℚ) := Rounding.onGrid_natCast hSide
  have hSame : binary32 side = side :=
    Rounding.toPrecision_eq one_lt_two hGrid (Nat.cast_nonneg side)
  unfold scaled
  rw [hSame]
  apply Rounding.toPrecision_le one_lt_two hGrid (Nat.cast_nonneg side)
  exact mul_le_of_le_one_left (Nat.cast_nonneg side) hOne

variable {row : Row} {width height : Nat} (converted : row.Converted width height)
  (cast : ℚ → Int)

include converted

theorem Row.Converted.info_location : (row.info cast width height).location =
    { anchorLt := ⟨truncate (scaled (max row.xmin 0) width),
        truncate (scaled (max row.ymin 0) height)⟩
      anchorRb := ⟨truncate (scaled (min row.xmax 1) width),
        truncate (scaled (min row.ymax 1) height)⟩ } := by
  simp only [Row.Converted, Row.corners, List.forall_mem_cons] at converted
  obtain ⟨hxmin, hymin, hxmax, hymax, -⟩ := converted
  simp only [Row.info, toInt_of_isInt32, hxmin, hymin, hxmax, hymax]

/-- The first corner is cut off on the left and at the top. -/
theorem Row.Converted.first_nonneg :
    0 ≤ (row.info cast width height).location.anchorLt.x ∧
      0 ≤ (row.info cast width height).location.anchorLt.y := by
  rw [converted.info_location cast]
  exact ⟨truncate_nonneg (scaled_nonneg (le_max_right _ _) width),
    truncate_nonneg (scaled_nonneg (le_max_right _ _) height)⟩

/-- The second corner is cut off on the right and at the bottom. -/
theorem Row.Converted.second_le (hWidth : width < 16777216) (hHeight : height < 16777216) :
    (row.info cast width height).location.anchorRb.x ≤ width ∧
      (row.info cast width height).location.anchorRb.y ≤ height := by
  rw [converted.info_location cast]
  exact ⟨truncate_le (scaled_le (min_le_right _ _) hWidth),
    truncate_le (scaled_le (min_le_right _ _) hHeight)⟩

theorem Row.Converted.isInt32 :
    (IsInt32 (row.info cast width height).location.anchorLt.x ∧
      IsInt32 (row.info cast width height).location.anchorLt.y) ∧
    (IsInt32 (row.info cast width height).location.anchorRb.x ∧
      IsInt32 (row.info cast width height).location.anchorRb.y) := by
  rw [converted.info_location cast]
  simp only [Row.Converted, Row.corners, List.forall_mem_cons] at converted
  exact ⟨⟨converted.1, converted.2.1⟩, converted.2.2.1, converted.2.2.2.1⟩

end Corners

/-- The buffer has room for the image and its colours, and for the odd byte in the
last row. -/
theorem image_le_outBufferSize (width : Nat) {height : Nat} (hHeight : 0 < height) :
    ((height : Int) + (height + 1) / 2) * width + (width : Int) % 2 ≤
      outBufferSize width height := by
  obtain ⟨⟨hDvdWidth, hLeWidth⟩, _⟩ := alignUp_isLeast width (a := 128) (by decide)
  obtain ⟨⟨hDvdHeight, hLeHeight⟩, _⟩ := alignUp_isLeast height (a := 16) (by decide)
  unfold outBufferSize
  generalize alignUp width 128 = stride at hDvdWidth hLeWidth
  generalize alignUp height 16 = rows at hDvdHeight hLeHeight
  obtain ⟨b, rfl⟩ : ∃ b, rows = 2 * b := Nat.dvd_trans (by decide) hDvdHeight
  have hStride : 2 ∣ stride := Nat.dvd_trans (by decide) hDvdWidth
  have hSize : stride * (2 * b) * 3 / 2 = stride * (3 * b) := by
    rw [show stride * (2 * b) * 3 = stride * (3 * b) * 2 by ring]
    exact Nat.mul_div_cancel _ (by decide)
  have hRows : height + (height + 1) / 2 ≤ 3 * b := by omega
  have hColumns : width + width % 2 ≤ stride := by omega
  have hAll : (height + (height + 1) / 2) * width + width % 2 ≤ stride * (3 * b) := by
    calc (height + (height + 1) / 2) * width + width % 2
        ≤ (height + (height + 1) / 2) * width + (height + (height + 1) / 2) * (width % 2) := by
          apply Nat.add_le_add_left
          exact Nat.le_mul_of_pos_left _ (by omega)
      _ = (width + width % 2) * (height + (height + 1) / 2) := by ring
      _ ≤ stride * (3 * b) := Nat.mul_le_mul hColumns hRows
  rw [hSize]
  exact_mod_cast hAll

/-- Every byte that `NV12MarkRect` writes is in the buffer of the decoder. -/
def MarkInside (width height : Nat) (rect : MarkedRect) : Prop :=
  ∀ write ∈ markWrites width height rect, 0 ≤ write.1 ∧ write.1 < outBufferSize width height

/-- Everything that drawing a detection does is defined: its corners and the values that are
computed from them are `int`s, and what is written is in the buffer. -/
structure DrawnInside (cast : ℚ → Int) (row : Row) (width height : Nat) : Prop where
  converted : row.Converted width height
  values : AllInt32 (markValues width height (row.info cast width height).mark)
  inside : MarkInside width height (row.info cast width height).mark

/-- The addresses from here on are behind the buffer, or no `int`s. -/
def addressLimit (width height : Nat) : Int :=
  min (outBufferSize width height) 2147483648

/-- The bytes of a pixel are not in front of the buffer. -/
def StartsInside (width height : Nat) (j k : Int) : Prop :=
  0 ≤ lumaIndex width j k ∧ 0 ≤ chromaIndex width height j k

/-- They are not behind it. -/
def EndsInside (width height : Nat) (j k : Int) : Prop :=
  lumaIndex width j k < addressLimit width height ∧
    chromaIndex width height j k + 1 < addressLimit width height

/-- The sides of the image, those of the box, and the sums of its corners and the thickness
of the lines are `int`s. If the box has a width, the upper line must end in the buffer, and the
lower one must begin and end in it. If it is higher than two lines, the left line must end
in the buffer, and the right one must begin and end in it. -/
structure FitsBuffer (width height : Nat) (box : Rectangle) : Prop where
  image : IsInt32 width ∧ IsInt32 height
  sides : IsInt32 (box.anchorRb.x - box.anchorLt.x) ∧ IsInt32 (box.anchorRb.y - box.anchorLt.y)
  first : IsInt32 (box.anchorLt.x + 3) ∧ IsInt32 (box.anchorLt.y + 3)
  second : IsInt32 (box.anchorRb.x - 4) ∧ IsInt32 (box.anchorRb.y - 4) ∧
    IsInt32 (box.anchorRb.y + 3)
  widthLines : box.anchorLt.x < box.anchorRb.x →
    EndsInside width height (box.anchorLt.y + 2) (box.anchorRb.x - 1) ∧
      StartsInside width height (box.anchorRb.y - 3) box.anchorLt.x ∧
      EndsInside width height (box.anchorRb.y - 1) (box.anchorRb.x - 1)
  heightLines : box.anchorLt.y + 6 < box.anchorRb.y →
    EndsInside width height (box.anchorRb.y - 4) (box.anchorLt.x + 2) ∧
      StartsInside width height (box.anchorLt.y + 3) (box.anchorRb.x - 3) ∧
      EndsInside width height (box.anchorRb.y - 4) (box.anchorRb.x - 1)

section Bounds

variable {width height : Nat} {j k : Int}

/-- The three bytes of a pixel are in the buffer. -/
def PixelInside (width height : Nat) (j k : Int) : Prop :=
  (0 ≤ lumaIndex width j k ∧ lumaIndex width j k < outBufferSize width height) ∧
    (0 ≤ chromaIndex width height j k ∧
      chromaIndex width height j k + 1 < outBufferSize width height)

theorem pixelInside_iff (yuv : Yuv) : (∀ write ∈ pixelWrites width height yuv j k,
      0 ≤ write.1 ∧ write.1 < outBufferSize width height) ↔ PixelInside width height j k := by
  unfold PixelInside
  simp only [mem_pixelWrites]
  constructor
  · intro hAll
    have hLuma := hAll _ (Or.inl rfl)
    have hFirst := hAll _ (Or.inr (Or.inl rfl))
    have hSecond := hAll _ (Or.inr (Or.inr rfl))
    exact ⟨hLuma, hFirst.1, hSecond.2⟩
  · rintro ⟨hLuma, hFirst, hSecond⟩ write (rfl | rfl | rfl)
    · exact hLuma
    · exact ⟨hFirst, by dsimp only; omega⟩
    · exact ⟨by dsimp only; omega, hSecond⟩

theorem lumaIndex_mono {j' k' : Int} (hj : j ≤ j') (hk : k ≤ k') :
    lumaIndex width j k ≤ lumaIndex width j' k' := by
  unfold lumaIndex
  have hRow : j * width ≤ j' * width := mul_le_mul_of_nonneg_right hj (Int.natCast_nonneg _)
  omega

theorem chromaIndex_mono {j' k' : Int} (hj : j ≤ j') (hk : k ≤ k') :
    chromaIndex width height j k ≤ chromaIndex width height j' k' := by
  unfold chromaIndex
  have hRow : ((height : Int) + j / 2) * width ≤ (height + j' / 2) * width :=
    mul_le_mul_of_nonneg_right (by omega) (Int.natCast_nonneg _)
  omega

theorem StartsInside.mono {j' k' : Int} (starts : StartsInside width height j k) (hj : j ≤ j')
    (hk : k ≤ k') : StartsInside width height j' k' :=
  ⟨starts.1.trans (lumaIndex_mono hj hk), starts.2.trans (chromaIndex_mono hj hk)⟩

theorem EndsInside.mono {j' k' : Int} (ends : EndsInside width height j' k') (hj : j ≤ j')
    (hk : k ≤ k') : EndsInside width height j k :=
  ⟨(lumaIndex_mono hj hk).trans_lt ends.1,
    (add_le_add_left (chromaIndex_mono hj hk) 1).trans_lt ends.2⟩

theorem startsInside_of_nonneg (hj : 0 ≤ j) (hk : 0 ≤ k) : StartsInside width height j k := by
  have hLuma : lumaIndex width 0 0 ≤ lumaIndex width j k := lumaIndex_mono hj hk
  have hChroma : (height : Int) * width ≤ chromaIndex width height j k :=
    chromaIndex_ge hj hk (Int.natCast_nonneg width)
  have hPlane : 0 ≤ (height : Int) * width := by positivity
  have hZero : lumaIndex width 0 0 = 0 := by simp [lumaIndex]
  unfold StartsInside
  omega

theorem pixelInside_of_image (hj : 0 ≤ j ∧ j < height) (hk : 0 ≤ k ∧ k < width) :
    PixelInside width height j k := by
  have hHeight : 0 < height := by omega
  have hSize := image_le_outBufferSize width hHeight
  have hLuma := lumaIndex_bounds hj hk
  have hStart : (height : Int) * width ≤ chromaIndex width height j k :=
    chromaIndex_ge hj.1 hk.1 (Int.natCast_nonneg width)
  have hEnd := chromaIndex_lt hj.2 hk.2 (Int.natCast_nonneg width)
  unfold PixelInside
  omega

/-- A pixel is drawn without leaving the buffer or the range of `int`. -/
def PixelDrawn (width height : Nat) (j k : Int) : Prop :=
  AllInt32 (pixelValues width height j k) ∧ PixelInside width height j k

theorem pixelDrawn_iff (hWidth : 1 ≤ width) (hj : IsInt32 j) : PixelDrawn width height j k ↔
    (IsInt32 (j * width) ∧ IsInt32 ((height + j / 2) * width)) ∧
      StartsInside width height j k ∧ EndsInside width height j k := by
  unfold PixelDrawn PixelInside StartsInside EndsInside addressLimit
  rw [allInt32_pixelValues (by omega) (by omega) hj]
  unfold IsInt32
  omega

/-- In a column of the picture the rows are in range if the pixel is. -/
theorem pixelDrawn_of_nonneg (hWidth : 1 ≤ width) (hj : IsInt32 j) (hk : 0 ≤ k ∧ IsInt32 k)
    (starts : StartsInside width height j k) (ends : EndsInside width height j k) :
    PixelDrawn width height j k := by
  refine (pixelDrawn_iff hWidth hj).mpr ⟨?_, starts, ends⟩
  unfold StartsInside lumaIndex chromaIndex at starts
  unfold EndsInside addressLimit lumaIndex chromaIndex at ends
  unfold IsInt32 at hk ⊢
  omega

end Bounds

theorem markInside_iff_pixels {width height : Nat} {rect : MarkedRect} :
    MarkInside width height rect ↔
      (∀ j k, InWidthLine rect j k → PixelInside width height j k) ∧
        ∀ j k, InHeightLine rect j k → PixelInside width height j k := by
  unfold MarkInside
  simp only [mem_markWrites]
  constructor
  · intro hAll
    constructor
    · intro j k hLine
      rw [← pixelInside_iff rect.yuv]
      exact fun write mem => hAll write ⟨j, k, Or.inl hLine, mem⟩
    · intro j k hLine
      rw [← pixelInside_iff rect.yuv]
      exact fun write mem => hAll write ⟨j, k, Or.inr hLine, mem⟩
  · rintro ⟨hWidth, hHeight⟩ write ⟨j, k, hLine | hLine, mem⟩
    · exact (pixelInside_iff rect.yuv).mpr (hWidth j k hLine) write mem
    · exact (pixelInside_iff rect.yuv).mpr (hHeight j k hLine) write mem

section Lines

variable {width height : Nat} {info : DetectInfo}
  (hFirst : 0 ≤ info.location.anchorLt.x ∧ 0 ≤ info.location.anchorLt.y)
  (ends : EndsInRange info.mark)

include hFirst ends

/-- The columns of the upper and the lower line are in the buffer or behind it. The upper line
can leave it at the end, the lower one at both. -/
theorem widthLines_drawn_iff (hWidth : 1 ≤ width) :
    (∀ j k, InWidthLine info.mark j k → PixelDrawn width height j k) ↔
      (info.location.anchorLt.x < info.location.anchorRb.x →
        EndsInside width height (info.location.anchorLt.y + 2) (info.location.anchorRb.x - 1) ∧
        StartsInside width height (info.location.anchorRb.y - 3) info.location.anchorLt.x ∧
        EndsInside width height (info.location.anchorRb.y - 1)
          (info.location.anchorRb.x - 1)) := by
  obtain ⟨-, -, -, hLeft, hRight, hTop, hBottom⟩ := ends
  unfold InWidthLine
  unfold DetectInfo.mark IsInt32 at *
  dsimp only at *
  generalize info.location.anchorLt.x = x₀, info.location.anchorLt.y = y₀,
    info.location.anchorRb.x = x₁, info.location.anchorRb.y = y₁ at *
  constructor
  · intro hAll hBox
    have hDrawn (j k : Int) (hj : -2147483648 ≤ j ∧ j < 2147483648)
        (hLine : (x₀ ≤ k ∧ k < x₀ + (x₁ - x₀)) ∧ ((y₀ ≤ j ∧ j < y₀ + (3 : Nat)) ∨
          (y₀ + (y₁ - y₀) - (3 : Nat) ≤ j ∧ j < y₀ + (y₁ - y₀)))) :
        StartsInside width height j k ∧ EndsInside width height j k :=
      ((pixelDrawn_iff hWidth hj).mp (hAll j k hLine)).2
    refine ⟨(hDrawn _ _ ?_ ?_).2, (hDrawn _ _ ?_ ?_).1, (hDrawn _ _ ?_ ?_).2⟩ <;> omega
  · rintro hFits j k ⟨hk, hj⟩
    obtain ⟨hUpper, hStart, hLower⟩ := hFits (by omega)
    have hRow : IsInt32 j := by unfold IsInt32; omega
    have hColumn : 0 ≤ k ∧ IsInt32 k := by unfold IsInt32; omega
    rcases hj with hj | hj
    · exact pixelDrawn_of_nonneg hWidth hRow hColumn
        (startsInside_of_nonneg (by omega) hColumn.1) (hUpper.mono (by omega) (by omega))
    · exact pixelDrawn_of_nonneg hWidth hRow hColumn (hStart.mono (by omega) hk.1)
        (hLower.mono (by omega) (by omega))

/-- The left line can leave the buffer at the end, the right one at both ends. -/
theorem heightLines_drawn_iff (hWidth : 1 ≤ width) :
    (∀ j k, InHeightLine info.mark j k → PixelDrawn width height j k) ↔
      (info.location.anchorLt.y + 6 < info.location.anchorRb.y →
        EndsInside width height (info.location.anchorRb.y - 4) (info.location.anchorLt.x + 2) ∧
        StartsInside width height (info.location.anchorLt.y + 3) (info.location.anchorRb.x - 3) ∧
        EndsInside width height (info.location.anchorRb.y - 4)
          (info.location.anchorRb.x - 1)) := by
  obtain ⟨-, -, -, hLeft, hRight, hTop, hBottom⟩ := ends
  unfold InHeightLine
  unfold DetectInfo.mark IsInt32 at *
  dsimp only at *
  generalize info.location.anchorLt.x = x₀, info.location.anchorLt.y = y₀,
    info.location.anchorRb.x = x₁, info.location.anchorRb.y = y₁ at *
  constructor
  · intro hAll hBox
    have hDrawn (j k : Int) (hj : -2147483648 ≤ j ∧ j < 2147483648)
        (hLine : (y₀ + (3 : Nat) ≤ j ∧ j < y₀ + (y₁ - y₀) - (3 : Nat)) ∧
          ((x₀ ≤ k ∧ k < x₀ + (3 : Nat)) ∨
            (x₀ + (x₁ - x₀) - (3 : Nat) ≤ k ∧ k < x₀ + (x₁ - x₀)))) :
        StartsInside width height j k ∧ EndsInside width height j k :=
      ((pixelDrawn_iff hWidth hj).mp (hAll j k hLine)).2
    refine ⟨(hDrawn _ _ ?_ ?_).2, (hDrawn _ _ ?_ ?_).1, (hDrawn _ _ ?_ ?_).2⟩ <;> omega
  · rintro hFits j k ⟨hj, hk⟩
    obtain ⟨hLeftEnd, hRightStart, hRightEnd⟩ := hFits (by omega)
    have hRow : IsInt32 j := by unfold IsInt32; omega
    have hLeftDrawn (k : Int) (hk : x₀ ≤ k ∧ k < x₀ + (3 : Nat)) : PixelDrawn width height j k :=
      pixelDrawn_of_nonneg hWidth hRow (by unfold IsInt32; omega)
        (startsInside_of_nonneg (by omega) (by omega)) (hLeftEnd.mono (by omega) (by omega))
    rcases hk with hk | hk
    · exact hLeftDrawn k hk
    · -- the rows of the right line are those of the left one
      have hRows := ((pixelDrawn_iff hWidth hRow).mp (hLeftDrawn x₀ (by omega))).1
      exact (pixelDrawn_iff hWidth hRow).mpr ⟨hRows, hRightStart.mono (by omega) (by omega),
        hRightEnd.mono (by omega) (by omega)⟩

end Lines

/-- The ends of the loops are the corners with some of the thickness added or taken away. -/
theorem endsInRange_mark_iff {info : DetectInfo}
    (hFirst : 0 ≤ info.location.anchorLt.x ∧ 0 ≤ info.location.anchorLt.y)
    (hSecond : IsInt32 info.location.anchorRb.x) : EndsInRange info.mark ↔
      (IsInt32 (info.location.anchorRb.x - info.location.anchorLt.x) ∧
        IsInt32 (info.location.anchorRb.y - info.location.anchorLt.y)) ∧
      (IsInt32 (info.location.anchorLt.x + 3) ∧ IsInt32 (info.location.anchorLt.y + 3)) ∧
      IsInt32 (info.location.anchorRb.x - 4) ∧ IsInt32 (info.location.anchorRb.y - 4) ∧
        IsInt32 (info.location.anchorRb.y + 3) := by
  constructor
  · rintro ⟨hw, hh, -, hLeft, hRight, hTop, hBottom⟩
    unfold DetectInfo.mark IsInt32 at *
    dsimp only at *
    omega
  · rintro ⟨⟨hw, hh⟩, hSums⟩
    refine ⟨hw, hh, (by decide : IsInt32 (2 * (3 : Nat))), ?_, ?_, ?_, ?_⟩ <;>
      · unfold DetectInfo.mark IsInt32 at *
        dsimp only at *
        omega

/-- In an ordinary picture these are, among others, the boxes that begin three pixels before
its lower right end and end three pixels behind its upper left end. -/
theorem fitsBuffer_of_margins {cast : ℚ → Int} {row : Row} {width height : Nat}
    (converted : row.Converted width height) (hWidth : width < 16777216)
    (hHeight : height < 16777216) (hSize : outBufferSize width height < 2147483648)
    (hFirst : (row.info cast width height).location.anchorLt.x + 3 ≤ width ∧
      (row.info cast width height).location.anchorLt.y + 3 ≤ height)
    (hSecond : 3 ≤ (row.info cast width height).location.anchorRb.x ∧
      3 ≤ (row.info cast width height).location.anchorRb.y) :
    FitsBuffer width height (row.info cast width height).location := by
  have hNonneg := converted.first_nonneg cast
  have hLe := converted.second_le cast hWidth hHeight
  have hImage (j k : Int) (hj : 0 ≤ j ∧ j < height) (hk : 0 ≤ k ∧ k < width) :
      StartsInside width height j k ∧ EndsInside width height j k := by
    have hInside : PixelInside width height j k := pixelInside_of_image hj hk
    unfold PixelInside at hInside
    unfold StartsInside EndsInside addressLimit
    omega
  generalize (row.info cast width height).location = box at *
  constructor
  · unfold IsInt32
    omega
  · unfold IsInt32
    omega
  · unfold IsInt32
    omega
  · unfold IsInt32
    omega
  · intro _
    exact ⟨(hImage _ _ (by omega) (by omega)).2, (hImage _ _ (by omega) (by omega)).1,
      (hImage _ _ (by omega) (by omega)).2⟩
  · intro _
    exact ⟨(hImage _ _ (by omega) (by omega)).2, (hImage _ _ (by omega) (by omega)).1,
      (hImage _ _ (by omega) (by omega)).2⟩

/-- The drawing stays inside the buffer exactly for these boxes. -/
theorem drawnInside_iff (cast : ℚ → Int) (row : Row) {width : Nat} (height : Nat)
    (hWidth : 2 ≤ width) :
    DrawnInside cast row width height ↔ row.Converted width height ∧
      FitsBuffer width height (row.info cast width height).location := by
  have hThin : 1 ≤ (row.info cast width height).mark.thin := (by decide : 1 ≤ 3)
  constructor
  · rintro ⟨converted, values, inside⟩
    have hFirst := converted.first_nonneg cast
    obtain ⟨image, ends, hPixels⟩ := (allInt32_markValues hThin).mp values
    obtain ⟨hInWidth, hInHeight⟩ := markInside_iff_pixels.mp inside
    obtain ⟨sides, first, second⟩ :=
      (endsInRange_mark_iff hFirst (converted.isInt32 cast).2.1).mp ends
    refine ⟨converted, image, sides, first, second, ?_, ?_⟩
    · exact (widthLines_drawn_iff hFirst ends (by omega)).mp fun j k hLine =>
        ⟨hPixels j k (Or.inl hLine), hInWidth j k hLine⟩
    · exact (heightLines_drawn_iff hFirst ends (by omega)).mp fun j k hLine =>
        ⟨hPixels j k (Or.inr hLine), hInHeight j k hLine⟩
  · rintro ⟨converted, image, sides, first, second, widthLines, heightLines⟩
    have hFirst := converted.first_nonneg cast
    have ends := (endsInRange_mark_iff hFirst (converted.isInt32 cast).2.1).mpr
      ⟨sides, first, second⟩
    have hInWidth := (widthLines_drawn_iff hFirst ends (by omega)).mpr widthLines
    have hInHeight := (heightLines_drawn_iff hFirst ends (by omega)).mpr heightLines
    refine ⟨converted, (allInt32_markValues hThin).mpr ⟨image, ends, ?_⟩,
      markInside_iff_pixels.mpr ⟨fun j k hLine => (hInWidth j k hLine).2,
        fun j k hLine => (hInHeight j k hLine).2⟩⟩
    rintro j k (hLine | hLine)
    · exact (hInWidth j k hLine).1
    · exact (hInHeight j k hLine).1

/-- A person in the middle of the picture. -/
def middle : Row :=
  ⟨0, 1, 29 / 32, 1 / 4, 1 / 4, 1 / 2, 3 / 4⟩

theorem drawnInside_iff_sample : DrawnInside (fun _ => 0) middle 1280 720 := by
  have converted : middle.Converted 1280 720 := by decide +kernel
  apply (drawnInside_iff (fun _ => 0) middle 720 (by decide)).mpr
  exact ⟨converted, fitsBuffer_of_margins converted (by decide) (by decide) (by decide)
    (by decide +kernel) (by decide +kernel)⟩

/-- A person whose box ends in the first row of the picture: the lower line begins
two rows in front of the buffer. -/
def topRow : Row :=
  ⟨0, 1, 29 / 32, 1 / 2, 0, 257 / 512, 1 / 512⟩

/-- A box that begins two rows before the end of the picture, since its first row is rounded
up. -/
def bottomRow : Row :=
  ⟨0, 1, 29 / 32, 1 / 4, 4182653 / 4194304, 1 / 2, 1⟩

/-- A box that ends so far on the left that its corner is no `int`. -/
def farLeft : Row :=
  ⟨0, 1, 29 / 32, 1 / 4, 1 / 4, -10000000000, 1 / 2⟩

/-- The least `int` stands for what an x86 machine makes of a number that is none. -/
theorem drawn_outside :
    let cast : ℚ → Int := fun _ => -2147483648
    ((topRow.info cast 1280 720).classId = 1 ∧ scoreThreshold < topRow.score) ∧
      ¬ MarkInside 1280 720 (topRow.info cast 1280 720).mark ∧
      ¬ MarkInside 1280 720 (bottomRow.info cast 1280 720).mark ∧
      ¬ farLeft.Converted 1280 720 := by
  refine ⟨by decide +kernel, fun hInside => ?_, fun hInside => ?_, by decide +kernel⟩
  · have hPixel := (markInside_iff_pixels.mp hInside).1 (-2) 640
      (by unfold InWidthLine; decide +kernel)
    revert hPixel
    unfold PixelInside
    decide
  · have hPixel := (markInside_iff_pixels.mp hInside).1 720 639
      (by unfold InWidthLine; decide +kernel)
    revert hPixel
    unfold PixelInside
    decide

end Hengda

import Hengda.SSDDetection.MarkRect
import Mathlib.Order.Bounds.Basic
import Mathlib.Tactic.Ring

/-! The layouts that the stages assume for one and the same frame buffer: the
decoder and the scaler, the drawing of rectangles, and the encoder. -/
namespace Hengda

/-- `ALIGN_UP` -/
def alignUp (n a : Nat) : Nat :=
  (n + a - 1) / a * a

/-- `CHECK_EVEN` -/
def checkEven (n : Nat) : Nat :=
  if n % 2 = 0 then n else n - 1

/-- It is the least multiple that is large enough. -/
theorem alignUp_isLeast (n : Nat) {a : Nat} (hPos : 0 < a) :
    IsLeast {m | a ∣ m ∧ n ≤ m} (alignUp n a) := by
  have hDiv := Nat.div_add_mod (n + a - 1) a
  have hMod := Nat.mod_lt (n + a - 1) hPos
  constructor
  · refine ⟨Nat.dvd_mul_left .., ?_⟩
    rw [alignUp, Nat.mul_comm]
    omega
  · rintro m ⟨⟨k, rfl⟩, hLe⟩
    rw [alignUp, Nat.mul_comm a k]
    apply Nat.mul_le_mul_right
    rw [Nat.div_le_iff_le_mul_add_pred hPos]
    omega

theorem alignUp_eq_self_iff {n a : Nat} (hPos : 0 < a) : alignUp n a = n ↔ a ∣ n := by
  obtain ⟨⟨hDvd, hLe⟩, hLeast⟩ := alignUp_isLeast n hPos
  constructor
  · intro hEq
    rwa [hEq] at hDvd
  · intro hMultiple
    exact Nat.le_antisymm (hLeast ⟨hMultiple, le_rfl⟩) hLe

/-- Bytes from row to row, and the offset of the colour plane. -/
structure FrameLayout where
  stride : Nat
  chroma : Nat
deriving DecidableEq, Repr

/-- Where the three bytes of the pixel in row `j` and column `k` are. -/
def FrameLayout.pixel (layout : FrameLayout) (j k : Nat) : List Nat :=
  let u := layout.chroma + j / 2 * layout.stride + k - k % 2
  [j * layout.stride + k, u, u + 1]

/-- The strides of `vpcResize` for its input. -/
def vpcLayout (inWidth inHeight : Nat) : FrameLayout where
  stride := alignUp inWidth 128
  chroma := alignUp inWidth 128 * alignUp inHeight 16

/-- The size of the buffer that `Hfbc2YuvOld` allocates. -/
def outBufferSize (realWidth realHeight : Nat) : Nat :=
  alignUp realWidth 128 * alignUp realHeight 16 * 3 / 2

/-- The indices of `DrawWidthLine` and `DrawHeightLine`. -/
def markLayout (picW picH : Nat) : FrameLayout where
  stride := picW
  chroma := picW * picH

/-- The layout that `Encode` gives to the encoder; the formats up to `YUYV`, which
is 3, have two bytes per pixel in one plane. -/
def encodeLayout (format inWidth inHeight : Nat) : FrameLayout :=
  let width := checkEven inWidth
  let stride := if format ≤ 3 then alignUp (width * 2) 16 else alignUp width 16
  { stride := stride, chroma := stride * inHeight }

/-- `JpegEncode` uses `JPGENC_FORMAT_NV12`. -/
def jpegLayout (width height : Nat) : FrameLayout :=
  encodeLayout 16 width height

/-- The decoder leaves room for the brightness and the colours that the scaler
reads. -/
theorem outBufferSize_eq (width height : Nat) :
    outBufferSize width height = (vpcLayout width height).chroma * 3 / 2 := rfl

/-- The drawing uses `markLayout`. -/
theorem pixelWrites_eq (picW picH : Nat) (yuv : Yuv) (j k : Nat) :
    (pixelWrites picW picH yuv j k).map Prod.fst =
      ((markLayout picW picH).pixel j k).map Nat.cast := by
  have hMod : k % 2 ≤ k := Nat.mod_le k 2
  have hLow : k % 2 ≤ picW * picH + j / 2 * picW + k := by omega
  have hU : ((picW * picH + j / 2 * picW + k - k % 2 : Nat) : Int) =
      ((j : Int) / 2 + picH) * picW + k - (k : Int) % 2 := by
    rw [Nat.cast_sub hLow]
    push_cast
    ring
  simp [pixelWrites, FrameLayout.pixel, markLayout, hU]

/-- All stages see the same frame, and what is drawn at a pixel is what the
encoder takes for it. -/
def SameFrame (width height : Nat) : Prop :=
  vpcLayout width height = markLayout width height ∧
    jpegLayout width height = markLayout width height ∧
    ∀ yuv (j k : Nat), (pixelWrites width height yuv j k).map Prod.fst =
      ((jpegLayout width height).pixel j k).map Nat.cast

theorem vpcLayout_eq_iff {width height : Nat} (hWidth : 0 < width) :
    vpcLayout width height = markLayout width height ↔ 128 ∣ width ∧ 16 ∣ height := by
  rw [vpcLayout, markLayout, FrameLayout.mk.injEq, alignUp_eq_self_iff (by decide)]
  apply and_congr_right
  intro hDvd
  rw [(alignUp_eq_self_iff (by decide)).mpr hDvd, Nat.mul_right_inj (Nat.ne_of_gt hWidth),
    alignUp_eq_self_iff (by decide)]

theorem jpegLayout_eq {width : Nat} (hDvd : 16 ∣ width) (height : Nat) :
    jpegLayout width height = markLayout width height := by
  have hEven : checkEven width = width := if_pos (by omega)
  have hStride : alignUp width 16 = width := (alignUp_eq_self_iff (by decide)).mpr hDvd
  simp [jpegLayout, encodeLayout, markLayout, hEven, hStride]

/-- The stages agree exactly on the frames whose sides fit the coarsest
alignment. -/
theorem sameFrame_iff {width : Nat} (hWidth : 0 < width) (height : Nat) :
    SameFrame width height ↔ 128 ∣ width ∧ 16 ∣ height := by
  have hVpc : vpcLayout width height = markLayout width height ↔ 128 ∣ width ∧ 16 ∣ height :=
    vpcLayout_eq_iff hWidth
  constructor
  · intro hSame
    exact hVpc.mp hSame.1
  · rintro ⟨hDvd, hRows⟩
    have hJpeg := jpegLayout_eq (Nat.dvd_trans (by decide : 16 ∣ 128) hDvd) height
    refine ⟨hVpc.mpr ⟨hDvd, hRows⟩, hJpeg, ?_⟩
    intro yuv j k
    rw [hJpeg]
    exact pixelWrites_eq width height yuv j k

theorem sameFrame_iff_hd : SameFrame 1280 720 ↔ 128 ∣ 1280 ∧ 16 ∣ 720 :=
  sameFrame_iff (by decide) 720

/-- In a frame of 1920 by 1080 the decoder puts the colours eight rows below the
place where they are drawn and encoded. -/
theorem not_sameFrame_fullHd : ¬ SameFrame 1920 1080 := by
  intro hSame
  have hChroma := congrArg FrameLayout.chroma hSame.1
  revert hChroma
  decide

end Hengda

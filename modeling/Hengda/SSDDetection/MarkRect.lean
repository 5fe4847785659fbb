import Hengda.Utility.Types

/-! Drawing a rectangle into an NV12 image: the frame buffer holds one byte of
brightness per pixel, and below it one pair of colour bytes for every two by
two pixels. -/
namespace Hengda

structure Yuv where
  y : UInt8
  u : UInt8
  v : UInt8
deriving DecidableEq, Repr

/-- `RECT`. The width and height are signed; `thin` is the width of a line. -/
structure MarkedRect where
  x : Int
  y : Int
  w : Int
  h : Int
  thin : Nat
  yuv : Yuv
deriving DecidableEq, Repr

def rgbToYuv (r g b : ℚ) : Yuv where
  y := UInt8.ofInt (truncate (299 / 1000 * r + 587 / 1000 * g + 114 / 1000 * b))
  u := UInt8.ofInt (truncate (-1687 / 10000 * r + 3313 / 10000 * g + 1 / 2 * b + 128))
  v := UInt8.ofInt (truncate (1 / 2 * r - 4187 / 10000 * g - 813 / 10000 * b + 128))

/-- The corners at which the two horizontal and the two vertical lines start. -/
structure Axis where
  top : Int × Int
  bottom : Int × Int
  left : Int × Int
  right : Int × Int
deriving DecidableEq, Repr

def findAxis (rect : MarkedRect) : Axis where
  top := (rect.x, rect.y)
  bottom := (rect.x, rect.y + rect.h - rect.thin)
  left := (rect.x, rect.y + rect.thin)
  right := (rect.x + rect.w - rect.thin, rect.y + rect.thin)

/-- The values of a loop variable that starts at `low + count - 1` and goes down
to `low`; none if `count` is not positive. -/
def downFrom (low count : Int) : List Int :=
  (List.range count.toNat).map fun n : Nat => low + count - 1 - (n : Int)

/-- The three bytes of the pixel in row `j` and column `k`, as buffer indices. -/
def pixelWrites (picW picH : Int) (yuv : Yuv) (j k : Int) : List (Int × UInt8) :=
  let uIndex := (j / 2 + picH) * picW + k - k % 2
  [(j * picW + k, yuv.y), (uIndex, yuv.u), (uIndex + 1, yuv.v)]

def drawWidthLine (picW picH : Int) (rect : MarkedRect) (start : Int × Int) :
    List (Int × UInt8) :=
  (downFrom start.2 rect.thin).flatMap fun j =>
    (downFrom start.1 rect.w).flatMap fun k => pixelWrites picW picH rect.yuv j k

def drawHeightLine (picW picH : Int) (rect : MarkedRect) (start : Int × Int) :
    List (Int × UInt8) :=
  (downFrom start.1 rect.thin).flatMap fun k =>
    (downFrom start.2 (rect.h - 2 * rect.thin)).flatMap fun j =>
      pixelWrites picW picH rect.yuv j k

/-- A write outside the buffer has no defined effect in the source; it has none
here. -/
def paint (data : List UInt8) (write : Int × UInt8) : List UInt8 :=
  if 0 ≤ write.1 then data.set write.1.toNat write.2 else data

def nv12MarkRect (data : List UInt8) (picW picH : Int) (rect : MarkedRect) : List UInt8 :=
  let axis := findAxis rect
  let writes := drawWidthLine picW picH rect axis.top ++ drawWidthLine picW picH rect axis.bottom ++
    drawHeightLine picW picH rect axis.left ++ drawHeightLine picW picH rect axis.right
  writes.foldl paint data

theorem foldl_paint_length (writes : List (Int × UInt8)) (data : List UInt8) :
    (writes.foldl paint data).length = data.length := by
  induction writes generalizing data with
  | nil => rfl
  | cons write rest ih =>
      have hPaint : (paint data write).length = data.length := by
        unfold paint
        split_ifs
        · exact List.length_set
        · rfl
      exact (ih (paint data write)).trans hPaint

/-- Marking a rectangle never changes the size of the image. -/
@[simp]
theorem nv12MarkRect_length (data : List UInt8) (picW picH : Int) (rect : MarkedRect) :
    (nv12MarkRect data picW picH rect).length = data.length :=
  foldl_paint_length _ data

end Hengda

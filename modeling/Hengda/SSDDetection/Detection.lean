import Hengda.Library.Rounding
import Hengda.Library.Run
import Hengda.Library.Scatter
import Hengda.Library.Writes
import Hengda.SSDDetection.Setup

/-! The detector collects a batch of frames, scales them into the input tensor,
runs the model on it and forwards the frames with their detections. It keeps the
frames that have arrived and have not been forwarded, and the bytes of the tensor. -/
namespace Hengda

/-- One row of the result tensor. -/
structure Row where
  batch : ℚ
  label : ℚ
  score : ℚ
  xmin : ℚ
  ymin : ℚ
  xmax : ℚ
  ymax : ℚ
deriving DecidableEq, Repr

/-- `thresh` -/
def scoreThreshold : ℚ := 1 / 2

/-- Rounding to `float`, without its bounds for the exponent: a product that is too
large for `float` is too large for `int` as well, and one that is too small is
truncated to zero in any case. -/
def binary32 (x : ℚ) : ℚ :=
  Rounding.toPrecision 2 24 x

/-- The product of a coordinate and a side of the image, before it is truncated. -/
def scaled (coordinate : ℚ) (side : Nat) : ℚ :=
  binary32 (coordinate * binary32 side)

/-- A frame in the queue. `index` is no variable of the source: it numbers the
frames in the order in which they arrive. -/
structure Arrival where
  index : Nat
  frame : DeviceStreamData
deriving DecidableEq, Repr

/-- What is called but not part of the repository: the scaler behind `DvppCtl`, and
the inference, which sees the bytes of the input tensor. `cast` is what the machine
makes of a number that is no `int`. -/
structure Model where
  dvppCtl : VpcConfigure → List UInt8 → List UInt8
  infer : List UInt8 → List Row
  cast : ℚ → Int

/-- A call of `Process`: its argument, what happens to the calls of `vpcResize`, one
for each place of the queue, and whether `modelManager->Process` succeeds in case it
is called. -/
structure Delivery where
  arg : Option DeviceStreamData
  resizes : Nat → ResizeOutcome
  succeeds : Bool

/-- `sent` lists what the last call forwarded on port 0, `inputData` the bytes of
`inputDataBuffer[0]`. -/
structure SSDDetection where
  inputArgQueue : List Arrival := []
  inputData : List UInt8 := []
  arrived : Nat := 0
  sent : List Arrival := []
deriving DecidableEq, Repr

section Rows

variable (cast : ℚ → Int)

/-- The conversion of one row for an image of the given size. -/
def Row.info (row : Row) (width height : Nat) : DetectInfo where
  classId := toInt cast row.label
  confidence := row.score
  location :=
    { anchorLt :=
        ⟨toInt cast (scaled (max row.xmin 0) width), toInt cast (scaled (max row.ymin 0) height)⟩
      anchorRb :=
        ⟨toInt cast (scaled (min row.xmax 1) width), toInt cast (scaled (min row.ymax 1) height)⟩ }

/-- The queue entry that a row belongs to, if its score counts. -/
def Row.slot (row : Row) : Option Nat :=
  if scoreThreshold < row.score ∧ 0 ≤ toInt cast row.batch then
    some (toInt cast row.batch).toNat
  else none

/-- The rectangle that is drawn around a person. -/
def DetectInfo.mark (info : DetectInfo) : MarkedRect where
  x := info.location.anchorLt.x
  y := info.location.anchorLt.y
  w := info.location.anchorRb.x - info.location.anchorLt.x
  h := info.location.anchorRb.y - info.location.anchorLt.y
  thin := 3
  yuv := rgbToYuv 255 0 0

/-- The loop body of `postProcessDetection` for a row above the threshold. -/
def Row.addTo (row : Row) (arrival : Arrival) : Arrival :=
  let image := arrival.frame.imgOrigin
  let info := row.info cast image.width image.height
  { arrival with
    frame :=
      { detectResult := arrival.frame.detectResult ++ [info]
        imgOrigin :=
          if info.classId = 1 then
            { image with data := nv12MarkRect image.data image.width image.height info.mark }
          else image } }

end Rows

namespace SSDDetection

def postProcessDetection (cast : ℚ → Int) (rows : List Row) (queue : List Arrival) :
    List Arrival :=
  Scatter.scatter (Row.slot cast) (Row.addTo cast) queue rows

/-- The resize loop: the range of bytes that each frame of the queue gets. -/
def resizeRanges (kInputSize : Nat) : Nat → List Arrival → List (Nat × Nat)
  | _, [] => []
  | dataBufferPtr, _ :: rest =>
      (dataBufferPtr, dataBufferPtr + kInputSize) ::
        resizeRanges kInputSize (dataBufferPtr + kInputSize) rest

theorem resizeRanges_getElem? (kInputSize dataBufferPtr : Nat) (queue : List Arrival) (i : Nat) :
    (resizeRanges kInputSize dataBufferPtr queue)[i]? = if i < queue.length then
      some (dataBufferPtr + i * kInputSize, dataBufferPtr + (i + 1) * kInputSize) else none := by
  induction queue generalizing dataBufferPtr i with
  | nil => simp [resizeRanges]
  | cons first rest ih =>
      cases i with
      | zero => simp [resizeRanges]
      | succ i =>
          rw [resizeRanges, List.getElem?_cons_succ, ih]
          simp only [List.length_cons, Nat.add_lt_add_iff_right]
          have hStart : dataBufferPtr + kInputSize + i * kInputSize =
              dataBufferPtr + (i + 1) * kInputSize := by ring
          have hEnd : dataBufferPtr + kInputSize + (i + 1) * kInputSize =
              dataBufferPtr + (i + 1 + 1) * kInputSize := by ring
          rw [hStart, hEnd]

/-- Bytes that are written from an address on. What is written behind the end of the
buffer does not get into it. -/
def writeFrom (inputData : List UInt8) (start : Nat) (bytes : List UInt8) : List UInt8 :=
  Writes.putAll inputData (bytes.zipIdx.map fun entry => ((start + entry.2 : Nat), entry.1))

variable (model : Model) (setup : Setup)

/-- The tensor after the resize loop. The status of `vpcResize` is not looked at. -/
def resizeLoop (d : Delivery) (queue : List Arrival) (inputData : List UInt8) : List UInt8 :=
  ((resizeRanges setup.kInputSize 0 queue).zip queue).zipIdx.foldl
    (fun inputData entry =>
      writeFrom inputData entry.1.1.1
        (vpcResize model.dvppCtl (d.resizes entry.2) entry.1.2.frame.imgOrigin setup.kWidth
          setup.kHeight).2)
    inputData

def process (s : SSDDetection) (d : Delivery) : Status × SSDDetection :=
  match d.arg with
  | none => (.ok, { s with sent := [] })
  | some frame =>
      let queue := s.inputArgQueue ++ [⟨s.arrived, frame⟩]
      let waiting : SSDDetection :=
        { s with inputArgQueue := queue, arrived := s.arrived + 1, sent := [] }
      if queue.length < setup.kBatchSize then (.ok, waiting)
      else
        let resized := { waiting with inputData := resizeLoop model setup d queue s.inputData }
        if d.succeeds = false then (.error, resized)
        else
          (.ok, { resized with
            inputArgQueue := []
            sent := postProcessDetection model.cast (model.infer resized.inputData) queue })

def step (s : SSDDetection) (d : Delivery) : SSDDetection :=
  (process model setup s d).2

end SSDDetection
end Hengda

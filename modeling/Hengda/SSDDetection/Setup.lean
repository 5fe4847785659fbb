import Hengda.Common.StreamData
import Hengda.SSDDetection.FrameLayout

/-! What the detector starts with: the members that `Init` sets, the buffer of the input
tensor, and the scaler that fills it. -/
namespace Hengda

/-- `hiai::TensorDimension`; `size` is the number of bytes of the whole tensor. -/
structure TensorDimension where
  n : Nat
  c : Nat
  h : Nat
  w : Nat
  size : Nat
deriving DecidableEq, Repr

namespace SSDDetection

/-- What `Init` can run into: the library may refuse to start or to describe the
model, and allocations may fail. -/
structure InitOutcome where
  managerInit : Bool
  ioTensorDim : Bool
  inputMalloc : Nat → Bool
  outputMalloc : Nat → Bool

/-- The members that `Init` sets. A buffer is represented by its size. -/
structure Setup where
  kBatchSize : Nat
  kChannel : Nat
  kHeight : Nat
  kWidth : Nat
  kInputSize : Nat
  kAlignedWidth : Nat
  kAlignedHeight : Nat
  inputDataBuffer : List Nat
  outputDataBuffer : List Nat
deriving DecidableEq, Repr

def createTensors (malloc : Nat → Bool) (tensorDims : TensorDimension) (bufferVec : List Nat) :
    Option (List Nat) :=
  if malloc bufferVec.length then some (bufferVec ++ [tensorDims.size]) else none

def creatIOTensors (malloc : Nat → Bool) : List TensorDimension → List Nat → Option (List Nat)
  | [], bufferVec => some bufferVec
  | tensorDim :: rest, bufferVec =>
      (createTensors malloc tensorDim bufferVec).bind (creatIOTensors malloc rest)

/-- `none` stands for `HIAI_ERROR`, after which the engine does not start. -/
def init (outcome : InitOutcome) (inputTensorDims outputTensorDims : List TensorDimension) :
    Option Setup :=
  if outcome.managerInit = false ∨ outcome.ioTensorDim = false then none
  else
    match inputTensorDims with
    | [dims] => do
        let inputDataBuffer ← creatIOTensors outcome.inputMalloc [dims] []
        let outputDataBuffer ← creatIOTensors outcome.outputMalloc outputTensorDims []
        some
          { kBatchSize := dims.n
            kChannel := dims.c
            kHeight := dims.h
            kWidth := dims.w
            kInputSize := dims.size
            kAlignedWidth := alignUp dims.w 128
            kAlignedHeight := alignUp dims.h 16
            inputDataBuffer := inputDataBuffer
            outputDataBuffer := outputDataBuffer }
    | _ => none

/-- The input buffer is as large as the step of the loop that fills it. -/
theorem init_spec {outcome : InitOutcome} {inputTensorDims outputTensorDims : List TensorDimension}
    {setup : Setup} (hInit : init outcome inputTensorDims outputTensorDims = some setup) :
    ∃ dims, inputTensorDims = [dims] ∧ setup.kBatchSize = dims.n ∧
      setup.kInputSize = dims.size ∧ setup.inputDataBuffer = [dims.size] := by
  unfold init at hInit
  split_ifs at hInit
  match inputTensorDims, hInit with
  | [dims], hInit =>
      simp only [Option.bind_eq_bind, Option.bind_eq_some_iff, Option.some.injEq] at hInit
      obtain ⟨inputs, hInputs, outputs, _, rfl⟩ := hInit
      refine ⟨dims, rfl, rfl, rfl, ?_⟩
      simp only [creatIOTensors, createTensors, Option.bind_eq_some_iff, Option.some.injEq,
        Option.ite_none_right_eq_some] at hInputs
      obtain ⟨buffers, ⟨_, rfl⟩, rfl⟩ := hInputs
      rfl

end SSDDetection

section Scaler

/-- `CHECK_ODD` -/
def checkOdd (n : Nat) : Nat :=
  if n % 2 ≠ 0 then n else n - 1

/-- The numbers that `vpcResize` computes for `VpcUserImageConfigure`. The areas begin in the
first row and column. -/
structure VpcConfigure where
  bareDataBufferSize : Nat
  widthStride : Nat
  heightStride : Nat
  cropRightOffset : Nat
  cropDownOffset : Nat
  bufferSize : Nat
  outWidthStride : Nat
  outHeightStride : Nat
  outRightOffset : Nat
  outDownOffset : Nat
deriving DecidableEq, Repr

def vpcConfigure (inWidth inHeight outWidth outHeight : Nat) : VpcConfigure where
  bareDataBufferSize := alignUp inWidth 128 * alignUp inHeight 16 * 3 / 2
  widthStride := alignUp inWidth 128
  heightStride := alignUp inHeight 16
  cropRightOffset := checkOdd (inWidth - 1)
  cropDownOffset := checkOdd (inHeight - 1)
  bufferSize := alignUp outWidth 128 * alignUp outHeight 16 * 3 / 2
  outWidthStride := alignUp outWidth 128
  outHeightStride := alignUp outHeight 16
  outRightOffset := checkOdd (outWidth - 1)
  outDownOffset := checkOdd (outHeight - 1)

/-- The scaler reads a frame in the layout of the decoder. -/
theorem vpcConfigure_layout (inWidth inHeight outWidth outHeight : Nat) :
    let configure := vpcConfigure inWidth inHeight outWidth outHeight
    vpcLayout inWidth inHeight =
        ⟨configure.widthStride, configure.widthStride * configure.heightStride⟩ ∧
      configure.bareDataBufferSize = outBufferSize inWidth inHeight :=
  ⟨rfl, rfl⟩

/-- What one call of `vpcResize` can run into. If `DvppCtl` fails, it leaves some bytes in the
output buffer. -/
structure ResizeOutcome where
  createDvppApi : Bool
  dvppCtl : Option (List UInt8)
  destroyDvppApi : Bool
deriving DecidableEq, Repr

/-- The picture has been scaled; that the interface cannot be given back does not undo it. -/
def ResizeOutcome.Scaled (outcome : ResizeOutcome) : Prop :=
  outcome.createDvppApi = true ∧ outcome.dvppCtl = none

instance (outcome : ResizeOutcome) : Decidable outcome.Scaled :=
  inferInstanceAs (Decidable (_ ∧ _))

/-- The status, and the bytes that the output buffer has from its first one on. -/
def vpcResize (dvppCtl : VpcConfigure → List UInt8 → List UInt8) (outcome : ResizeOutcome)
    (image : ImageInfo) (outWidth outHeight : Nat) : Status × List UInt8 :=
  if outcome.createDvppApi = false then (.error, [])
  else
    match outcome.dvppCtl with
    | some left => (.error, left)
    | none =>
        (if outcome.destroyDvppApi then .ok else .error,
          dvppCtl (vpcConfigure image.width image.height outWidth outHeight) image.data)

end Scaler
end Hengda

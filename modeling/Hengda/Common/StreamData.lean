import Hengda.Utility.Types

/-! The data that travels between the engines of a graph. -/
namespace Hengda

/-- `HIAI_StatusT`, as far as it is told apart. -/
inductive Status
  | ok | error
deriving DecidableEq, Repr

structure Rectangle where
  anchorLt : Point
  anchorRb : Point
deriving DecidableEq, Repr

structure DetectInfo where
  classId : Int
  confidence : ℚ
  location : Rectangle
deriving DecidableEq, Repr

/-- `data` holds the `len_of_byte` bytes of the frame buffer: raw NV12 up to
the detector, a JPEG from the encoder on. -/
structure ImageInfo where
  width : Nat
  height : Nat
  data : List UInt8
deriving DecidableEq, Repr

structure DeviceStreamData where
  detectResult : List DetectInfo
  imgOrigin : ImageInfo
deriving DecidableEq, Repr

def personLabel : Int := 1

/-- The detections that every loop of the alarm engine looks at. -/
def DeviceStreamData.persons (frame : DeviceStreamData) : List DetectInfo :=
  frame.detectResult.filter (fun det => det.classId = personLabel)

/-- The foot that stands for a detection, `round((lt.x + rb.x)) / 2`. -/
def DetectInfo.foot (det : DetectInfo) : Point :=
  Hengda.foot det.location.anchorLt det.location.anchorRb

end Hengda

import Hengda.DstEngine.AlarmQueue
import Hengda.DstEngine.BestMatch
import Hengda.DstEngine.BorderShapes
import Hengda.DstEngine.Chords
import Hengda.DstEngine.Clips
import Hengda.DstEngine.CrossLine
import Hengda.DstEngine.CrossingCheck
import Hengda.DstEngine.Sampling
import Hengda.DstEngine.Intrusion
import Hengda.DstEngine.Overflow
import Hengda.DstEngine.Pnpoly
import Hengda.DstEngine.Rectangle
import Hengda.DstEngine.Reports
import Hengda.DstEngine.Sides
import Hengda.DstEngine.TrailStates
import Hengda.SSDDetection.Batches
import Hengda.SSDDetection.FrameLayout
import Hengda.SSDDetection.InputTensor
import Hengda.SSDDetection.MarkBounds
import Hengda.StreamPuller.Packets
import Hengda.StreamPuller.SessionProtocol
import Hengda.Utility.BorderStore
import Hengda.Utility.GraphStart
import Hengda.Utility.Requests
import Hengda.Utility.SaveSteps
import Hengda.Utility.DeServImpl
import Hengda.Utility.TaskAnswers
import Hengda.Common.RpcText
import Hengda.Common.FramePath
import Hengda.Common.Base64Decode
import Hengda.Base.FastDigits
import Hengda.Base.LruMap
import Hengda.Base.JsonKeys
import Hengda.Utility.GetIp
import Hengda.DstEngine.AlarmText

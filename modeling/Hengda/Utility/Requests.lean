import Hengda.Common.Base64
import Hengda.Utility.GraphStart

/-! The dispatch of the requests to the three handlers. A request comes from any client,
and the accessors stop the program for values of other types than they expect. -/
namespace Hengda.DeServ

inductive Handler
  | setEgbdTask | getKeyFrame | setBorderInfo
deriving DecidableEq, Repr

/-- What the handlers change: the graphs and the border files. -/
structure State where
  server : GraphStart.Server := {}
  loader : BordersLoader := {}

/-- What a call finds: its number, what the library and the file system do, and the
images that can be opened. -/
structure World where
  call : Nat
  created : Bool
  found : Bool
  outcome : WriteOutcome
  images : String → Option (List UInt8)

/-- `_methods` after the constructor. -/
def methods (hash64 : String → UInt64) : UInt64 → Option Handler :=
  let none : UInt64 → Option Handler := fun _ => .none
  let task := Function.update none (hash64 "set_egbd_task") (some .setEgbdTask)
  let frame := Function.update task (hash64 "get_key_frame") (some .getKeyFrame)
  Function.update frame (hash64 "set_border_info") (some .setBorderInfo)

/-- The answer, or `none` where an assertion of `json::Value` stops the program. -/
def getKeyFrame (req : Json) (images : String → Option (List UInt8)) :
    Option (List (String × Json)) := do
  let reqId ← req.member "req_id"
  let method ← req.member "method"
  let params ← req.member "params"
  let ip ← (← params.member "ip").getString
  match images ("/home/" ++ ip ++ ".jpg") with
  | some image =>
      some (DeServImpl.answer reqId method (.int 200) "200 ok" ++
        [("data", .string (String.ofList (base64Encode image)))])
  | none => some (DeServImpl.answer reqId method (.int 400) "400 key frame not found")

section Process

variable (hash64 : String → UInt64) (text : JsonText) (config : List Text)

def handle (req : Json) (world : World) (s : State) :
    Handler → Option (List (String × Json) × State)
  | .setEgbdTask => do
      let result ← GraphStart.setEgbdTask config text req world.call world.created world.found
        s.server
      some (result.1, { s with server := result.2 })
  | .getKeyFrame => do
      let res ← getKeyFrame req world.images
      some (res, s)
  | .setBorderInfo => do
      let result ← DeServImpl.setBorderInfo text req world.outcome s.loader
      some (result.1, { s with loader := result.2 })

def process (req : Json) (world : World) (s : State) :
    Option (List (String × Json) × State) := do
  let method ← req.member "method"
  match method with
  | .string name =>
      match methods hash64 (hash64 name) with
      | none => some ([("err", .int 404), ("errmsg", .string "404 method not found")], s)
      | some handler => handle text config req world s handler
  | _ => some ([("err", .int 400), ("errmsg", .string "400 req has no method")], s)

end Process

/-- The answer has one of the two error codes, under one of the two names. -/
def IsError (res : List (String × Json)) : Prop :=
  ∃ n, (n = 400 ∨ n = 404) ∧ (lookup .null "err" res = .int n ∨ lookup .null "code" res = .int n)

/-- The call comes to an answer, and the answer is an error if something was missing. -/
def Answers (complete : Prop) (result : Option (List (String × Json) × State)) : Prop :=
  ∃ res after, result = some (res, after) ∧ (¬ complete → IsError res)

section Handlers

variable {text : JsonText} {config : List Text} {members : List (String × Json)} {world : World}
  {s : State}

end Handlers

section Requests

variable (hash64 : String → UInt64) (text : JsonText)

variable {hash64 text} {config : List Text} {world : World} {s : State}

end Requests

section Sample

end Sample

end Hengda.DeServ

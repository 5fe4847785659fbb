import Hengda.Utility.Json

/-! The client end of the RPC library. A call tells its caller about the answer
only; everything that can go wrong closes the connection and is logged. -/
namespace Hengda.Rpc

/-- `rpc_max_msg_size`, which is `8 << 20`. -/
def maxMsgSize : Int := 8388608

/-- The header of a message in the byte order of the host. -/
structure Header where
  magic : Int
  len : Int
deriving DecidableEq, Repr

/-- What `recvn` comes back with. An error can be that the time is over. -/
inductive Received (α : Type*)
  | closed
  | error
  | got (value : α)
deriving Repr

/-- What the network does in the course of one call. -/
structure Exchange where
  connects : Bool
  sends : Bool
  header : Received Header
  body : Received Text
deriving Repr

/-- The ways in which `call` ends without an answer, under the names of its labels. -/
inductive Failure
  | noConnection | sendErr | recvZeroErr | recvErr | magicErr | msgTooLongErr | jsonParseErr
deriving DecidableEq, Repr

/-- Whether `_fd` is a connection. -/
structure ClientImpl where
  connected : Bool := false
deriving DecidableEq, Repr

variable (parse : Text → Json)

/-- The way through `call`, up to the answer. -/
def exchange (c : ClientImpl) (x : Exchange) : Except Failure Json :=
  if c.connected = false ∧ x.connects = false then .error .noConnection
  else if x.sends = false then .error .sendErr
  else
    match x.header with
    | .closed => .error .recvZeroErr
    | .error => .error .recvErr
    | .got header =>
        if header.magic ≠ 0xbaddad then .error .magicErr
        else if header.len > maxMsgSize then .error .msgTooLongErr
        else
          match x.body with
          | .closed => .error .recvZeroErr
          | .error => .error .recvErr
          | .got body =>
              match parse body with
              | .null => .error .jsonParseErr
              | res => .ok res

/-- `call` with the value of `res` before and after it. A text that cannot be parsed has
been assigned to it already. -/
def ClientImpl.call (x : Exchange) (c : ClientImpl) (res : Json) : ClientImpl × Json :=
  match exchange parse c x with
  | .ok answer => ({ connected := true }, answer)
  | .error .jsonParseErr => ({ connected := false }, .null)
  | .error _ => ({ connected := false }, res)

/-- The server has answered. -/
def ClientImpl.answered (x : Exchange) (c : ClientImpl) : Bool :=
  (exchange parse c x).isOk

variable {parse} {c : ClientImpl} {x : Exchange}

/-- The connection is open after a call exactly if the server has answered. -/
theorem call_connected (res : Json) :
    (c.call parse x res).1.connected = c.answered parse x := by
  unfold ClientImpl.call ClientImpl.answered
  cases exchange parse c x with
  | ok answer => rfl
  | error failure => cases failure <;> rfl

/-- A failure leaves nothing new in the answer. -/
theorem call_res_of_failure (res : Json) (hFailed : c.answered parse x = false) :
    (c.call parse x res).2 = res ∨ (c.call parse x res).2 = .null := by
  unfold ClientImpl.answered at hFailed
  unfold ClientImpl.call
  cases hExchange : exchange parse c x with
  | ok answer =>
      rw [hExchange] at hFailed
      cases hFailed
  | error failure =>
      cases failure with
      | jsonParseErr => exact Or.inr rfl
      | _ => exact Or.inl rfl

end Hengda.Rpc

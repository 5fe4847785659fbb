import Hengda.Common.RpcFrames
import Hengda.Library.Schedule

/-! The calls of one client over all the connections that it makes, with the coroutines
of the server at the other ends and the bytes in between. A call that fails closes
its connection, but the server may still be at work on it while the next call goes
through another one. -/
namespace Hengda.RpcSession

open Hengda.Rpc

/-- Where `on_connection` stands. -/
inductive ServerPoint
  | recvHeader
  | recvBody (len : Nat)
  | process (req : Json)
  | send (res : Json)
  | closed
  | crashed

/-- A connection without password. The bytes are those that have been sent and not been
read; `requests` has what the client has sent as a whole, with the number of the call,
and `processed` what the server has worked on, with its answer. -/
structure Conn where
  toServer : Text := []
  toClient : Text := []
  server : ServerPoint := .recvHeader
  requests : List (Nat × Json) := []
  processed : List (Json × Json) := []

/-- What the coroutine does next. A timeout of the idle connection loses the bytes of a
header that have come so far; every other failure ends the coroutine. -/
inductive ServerMove
  | header
  | idle (lost : Nat) (close : Bool)
  | fails
  | body
  | process (res : Json)
  | send
  | sendFails (sent : Nat)

/-- Where `call` stands. -/
inductive ClientPoint
  | idle
  | send (req : Json)
  | recvHeader (req : Json)
  | recvBody (req : Json) (len : Nat)
  | crashed

/-- A call that is over. -/
structure Call where
  req : Json
  answer : Option Json

/-- `current` is the connection of `_fd`, and `left` has the connections before it. -/
structure System where
  calls : List Call := []
  left : List Conn := []
  current : Option Conn := none
  point : ClientPoint := .idle

inductive Move
  | call (req : Json) (connects : Bool)
  | send
  | sendFails (sent : Nat)
  | header
  | body
  | fails
  | serverLeft (k : Nat) (move : ServerMove)
  | serverCurrent (move : ServerMove)

variable (parse : Text → Json) (str : Json → Text)

/-- What becomes of a connection when the server has read a header. A negative length is
passed to `resize` as it is, which no memory is large enough for. -/
def afterHeader (header : Header) : ServerPoint :=
  if header.magic ≠ 0xbaddad then .closed
  else if header.len > maxMsgSize then .closed
  else if header.len < 0 then .crashed
  else .recvBody header.len.toNat

/-- `json::parse` has no value for a text that it does not accept. -/
def afterBody (req : Json) : ServerPoint :=
  match req with
  | .null => .closed
  | req => .process req

def serverStep (c : Conn) : ServerMove → Option Conn
  | .header =>
      match c.server with
      | .recvHeader =>
          if 8 ≤ c.toServer.length then
            some { c with
              toServer := c.toServer.drop 8
              server := afterHeader (readHeader (c.toServer.take 8)) }
          else none
      | _ => none
  | .idle lost close =>
      match c.server with
      | .recvHeader =>
          if lost < 8 ∧ lost ≤ c.toServer.length then
            some { c with
              toServer := c.toServer.drop lost
              server := if close then .closed else .recvHeader }
          else none
      | _ => none
  | .fails =>
      match c.server with
      | .recvHeader => some { c with server := .closed }
      | .recvBody _ => some { c with server := .closed }
      | _ => none
  | .body =>
      match c.server with
      | .recvBody len =>
          if len = 0 then some { c with server := .closed }
          else if len ≤ c.toServer.length then
            some { c with
              toServer := c.toServer.drop len
              server := afterBody (parse (c.toServer.take len)) }
          else none
      | _ => none
  | .process res =>
      match c.server with
      | .process req =>
          some { c with server := .send res, processed := c.processed ++ [(req, res)] }
      | _ => none
  | .send =>
      match c.server with
      | .send res =>
          some { c with server := .recvHeader, toClient := c.toClient ++ frame (str res) }
      | _ => none
  | .sendFails sent =>
      match c.server with
      | .send res =>
          if sent < (frame (str res)).length then
            some { c with
              server := .closed
              toClient := c.toClient ++ (frame (str res)).take sent }
          else none
      | _ => none

/-- The call is over without an answer, and the connection is closed. -/
def disconnect (s : System) (req : Json) : System where
  calls := s.calls ++ [⟨req, none⟩]
  left := s.left ++ s.current.toList
  current := none
  point := .idle

def step (s : System) : Move → Option System
  | .call req connects =>
      match s.point, s.current with
      | .idle, some _ => some { s with point := .send req }
      | .idle, none =>
          if connects then some { s with current := some {}, point := .send req }
          else some { s with calls := s.calls ++ [⟨req, none⟩] }
      | _, _ => none
  | .send =>
      match s.point, s.current with
      | .send req, some c =>
          some { s with
            current := some { c with
              toServer := c.toServer ++ frame (str req)
              requests := c.requests ++ [(s.calls.length, req)] }
            point := .recvHeader req }
      | _, _ => none
  | .sendFails sent =>
      match s.point, s.current with
      | .send req, some c =>
          if sent < (frame (str req)).length then
            let c := { c with toServer := c.toServer ++ (frame (str req)).take sent }
            some (disconnect { s with current := some c } req)
          else none
      | _, _ => none
  | .header =>
      match s.point, s.current with
      | .recvHeader req, some c =>
          if 8 ≤ c.toClient.length then
            let header := readHeader (c.toClient.take 8)
            let s := { s with current := some { c with toClient := c.toClient.drop 8 } }
            if header.magic ≠ 0xbaddad then some (disconnect s req)
            else if header.len > maxMsgSize then some (disconnect s req)
            else if header.len < 0 then some { s with point := .crashed }
            else some { s with point := .recvBody req header.len.toNat }
          else none
      | _, _ => none
  | .body =>
      match s.point, s.current with
      | .recvBody req len, some c =>
          if len = 0 then some (disconnect s req)
          else if len ≤ c.toClient.length then
            let s := { s with current := some { c with toClient := c.toClient.drop len } }
            match parse (c.toClient.take len) with
            | .null => some (disconnect s req)
            | res => some { s with calls := s.calls ++ [⟨req, some res⟩], point := .idle }
          else none
      | _, _ => none
  | .fails =>
      match s.point with
      | .recvHeader req => some (disconnect s req)
      | .recvBody req _ => some (disconnect s req)
      | _ => none
  | .serverLeft k move =>
      match s.left[k]? with
      | some c => (serverStep parse str c move).map fun c => { s with left := s.left.set k c }
      | none => none
  | .serverCurrent move =>
      match s.current with
      | some c => (serverStep parse str c move).map fun c => { s with current := some c }
      | none => none

end Hengda.RpcSession

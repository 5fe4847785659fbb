import Hengda.Common.RpcSafety
import Mathlib.Data.List.Flatten

/-! What the callers of one client see, over every interleaving of the client with the
coroutines of the server and whatever they lose. -/
namespace Hengda.RpcSession

open Hengda.Rpc

variable {parse : Text → Json} {str : Json → Text} {s after : System}

/-- Everything that a step of the whole can do. -/
inductive Moved (parse : Text → Json) (str : Json → Text) (s after : System) : Move → Prop
  | begins {req connects c} (hPoint : s.point = .idle)
      (hConn : s.current = some c ∨ s.current = none ∧ c = {})
      (hAfter : after = { s with current := some c, point := .send req }) :
      Moved parse str s after (.call req connects)
  | refused {req connects} (hPoint : s.point = .idle) (hConn : s.current = none)
      (hAfter : after = { s with calls := s.calls ++ [⟨req, none⟩] }) :
      Moved parse str s after (.call req connects)
  | sent {req c} (hPoint : s.point = .send req) (hConn : s.current = some c)
      (hAfter : after = { s with
        current := some { c with
          toServer := c.toServer ++ frame (str req)
          requests := c.requests ++ [(s.calls.length, req)] }
        point := .recvHeader req }) : Moved parse str s after .send
  | sendFailed {req c sent} (hPoint : s.point = .send req) (hConn : s.current = some c)
      (hSent : sent < (frame (str req)).length)
      (hAfter : after = disconnect { s with current := some { c with
        toServer := c.toServer ++ (frame (str req)).take sent } } req) :
      Moved parse str s after (.sendFails sent)
  | header {req c n} (hPoint : s.point = .recvHeader req) (hConn : s.current = some c)
      (hLength : 8 ≤ c.toClient.length) (hHeader : (readHeader (c.toClient.take 8)).len = n)
      (hAfter : after = if n < 0 then
          { s with current := some { c with toClient := c.toClient.drop 8 }, point := .crashed }
        else { s with
          current := some { c with toClient := c.toClient.drop 8 }
          point := .recvBody req n.toNat }) : Moved parse str s after .header
  | refusedHeader {req c} (hPoint : s.point = .recvHeader req) (hConn : s.current = some c)
      (hLength : 8 ≤ c.toClient.length)
      (hAfter : after =
        disconnect { s with current := some { c with toClient := c.toClient.drop 8 } } req) :
      Moved parse str s after .header
  | answered {req len c} (hPoint : s.point = .recvBody req len) (hConn : s.current = some c)
      (hLength : len ≤ c.toClient.length)
      (hAfter : after = { s with
        calls := s.calls ++ [⟨req, some (parse (c.toClient.take len))⟩]
        current := some { c with toClient := c.toClient.drop len }
        point := .idle }) : Moved parse str s after .body
  | notJson {req len c} (hPoint : s.point = .recvBody req len) (hConn : s.current = some c)
      (hLength : len ≤ c.toClient.length)
      (hAfter : after =
        disconnect { s with current := some { c with toClient := c.toClient.drop len } } req) :
      Moved parse str s after .body
  | fails {req move}
      (hPoint : s.point = .recvHeader req ∨ ∃ len, s.point = .recvBody req len)
      (hAfter : after = disconnect s req) : Moved parse str s after move
  | serverLeft {k c d move} (hConn : s.left[k]? = some c)
      (hStep : serverStep parse str c move = some d)
      (hAfter : after = { s with left := s.left.set k d }) :
      Moved parse str s after (.serverLeft k move)
  | serverCurrent {c d move} (hConn : s.current = some c)
      (hStep : serverStep parse str c move = some d)
      (hAfter : after = { s with current := some d }) :
      Moved parse str s after (.serverCurrent move)

theorem step_cases {move : Move} (hStep : step parse str s move = some after) :
    Moved parse str s after move := by
  cases move with
  | call req connects =>
      cases hPoint : s.point with
      | idle =>
          cases hConn : s.current with
          | some c =>
              simp only [step, hPoint, hConn] at hStep
              exact .begins hPoint (Or.inl hConn) (by rw [← Option.some.inj hStep, ← hConn])
          | none =>
              simp only [step, hPoint, hConn] at hStep
              split_ifs at hStep
              · exact .begins hPoint (Or.inr ⟨hConn, rfl⟩) (Option.some.inj hStep).symm
              · exact .refused hPoint hConn
                  (by rw [hPoint, hConn]; exact (Option.some.inj hStep).symm)
      | _ => simp [step, hPoint] at hStep
  | send =>
      cases hPoint : s.point with
      | send req =>
          cases hConn : s.current with
          | some c =>
              simp only [step, hPoint, hConn] at hStep
              exact .sent hPoint hConn (Option.some.inj hStep).symm
          | none => simp [step, hPoint, hConn] at hStep
      | _ => simp [step, hPoint] at hStep
  | sendFails sent =>
      cases hPoint : s.point with
      | send req =>
          cases hConn : s.current with
          | some c =>
              simp only [step, hPoint, hConn] at hStep
              split_ifs at hStep with hSent
              exact .sendFailed hPoint hConn hSent (Option.some.inj hStep).symm
          | none => simp [step, hPoint, hConn] at hStep
      | _ => simp [step, hPoint] at hStep
  | header =>
      cases hPoint : s.point with
      | recvHeader req =>
          cases hConn : s.current with
          | some c =>
              simp only [step, hPoint, hConn] at hStep
              split_ifs at hStep with hLength hMagic hLong hNegative
              · exact .refusedHeader hPoint hConn hLength (Option.some.inj hStep).symm
              · exact .refusedHeader hPoint hConn hLength (Option.some.inj hStep).symm
              · exact .header hPoint hConn hLength rfl
                  (by rw [if_pos hNegative]; exact (Option.some.inj hStep).symm)
              · exact .header hPoint hConn hLength rfl
                  (by rw [if_neg hNegative]; exact (Option.some.inj hStep).symm)
          | none => simp [step, hPoint, hConn] at hStep
      | _ => simp [step, hPoint] at hStep
  | body =>
      cases hPoint : s.point with
      | recvBody req len =>
          cases hConn : s.current with
          | some c =>
              simp only [step, hPoint, hConn] at hStep
              split_ifs at hStep with hEmpty hLength
              · exact .fails (Or.inr ⟨len, hPoint⟩) (Option.some.inj hStep).symm
              · split at hStep
                · exact .notJson hPoint hConn hLength (Option.some.inj hStep).symm
                · exact .answered hPoint hConn hLength (Option.some.inj hStep).symm
          | none => simp [step, hPoint, hConn] at hStep
      | _ => simp [step, hPoint] at hStep
  | fails =>
      cases hPoint : s.point with
      | recvHeader req =>
          simp only [step, hPoint] at hStep
          exact .fails (Or.inl hPoint) (Option.some.inj hStep).symm
      | recvBody req len =>
          simp only [step, hPoint] at hStep
          exact .fails (Or.inr ⟨len, hPoint⟩) (Option.some.inj hStep).symm
      | _ => simp [step, hPoint] at hStep
  | serverLeft k move =>
      cases hConn : s.left[k]? with
      | some c =>
          simp only [step, hConn, Option.map_eq_some_iff] at hStep
          obtain ⟨d, hStep, hAfter⟩ := hStep
          exact .serverLeft hConn hStep hAfter.symm
      | none => simp [step, hConn] at hStep
  | serverCurrent move =>
      cases hConn : s.current with
      | some c =>
          simp only [step, hConn, Option.map_eq_some_iff] at hStep
          obtain ⟨d, hStep, hAfter⟩ := hStep
          exact .serverCurrent hConn hStep hAfter.symm
      | none => simp [step, hConn] at hStep

/-- All connections, in the order in which they were made. -/
def conns (s : System) : List Conn :=
  s.left ++ s.current.toList

theorem mem_conns {c : Conn} (hConn : s.current = some c) : c ∈ conns s := by
  rw [conns, hConn]
  exact List.mem_append_right _ (List.mem_singleton_self c)

/-- The requests that have been sent, each with the number of its call. -/
def sent (s : System) : List (Nat × Json) :=
  (conns s).flatMap Conn.requests

/-- The call that is waiting for its answer. -/
def ClientPoint.awaited : ClientPoint → Option Json
  | .recvHeader req => some req
  | .recvBody req _ => some req
  | _ => none

/-- The requests of the calls that have got to the point where they wait or are over. -/
def asked (s : System) : List Json :=
  s.calls.map Call.req ++ s.point.awaited.toList

def ClientPoint.view : ClientPoint → View
  | .idle => .idle
  | .send _ => .idle
  | .recvHeader _ => .waiting
  | .recvBody _ len => .reading len
  | .crashed => .idle

/-- The service has made `answer` of the request of call `i`, which was `req`, and `res` is
how the client reads it. -/
def Located (parse : Text → Json) (str : Json → Text) (s : System) (i : Nat)
    (req res : Json) : Prop :=
  ∃ c ∈ conns s, ∃ (j : Nat) (answer : Json), c.requests[j]? = some (i, req) ∧
    c.processed[j]? = some (parse (str req), answer) ∧ res = parse (str answer)

structure Inv (parse : Text → Json) (str : Json → Text) (s : System) : Prop where
  left : ∀ c ∈ s.left, ConnInv parse str c .left
  current : ∀ c, s.current = some c → ConnInv parse str c s.point.view
  alive : s.point ≠ .crashed
  attached : s.point ≠ .idle → s.current.isSome
  sending : ∀ req, s.point = .send req → IsBody (str req)
  pending : ∀ req, s.point.awaited = some req → ∀ c, s.current = some c →
    ∃ before, c.requests = before ++ [(s.calls.length, req)]
  increasing : ((sent s).map Prod.fst).Pairwise (· < ·)
  known : ∀ r ∈ sent s, (asked s)[r.1]? = some r.2
  answered : ∀ i req res, s.calls[i]? = some ⟨req, some res⟩ → Located parse str s i req res

/-- A move of parties whose texts are JSON and not longer than an `int` can say. -/
def Honest (str : Json → Text) : Move → Prop
  | .call req _ => IsBody (str req)
  | .serverLeft _ (.process res) => (str res).length < 2147483648
  | .serverCurrent (.process res) => (str res).length < 2147483648
  | _ => True

theorem getElem?_of_prefix {α : Type*} {xs ys : List α} (hPrefix : xs <+: ys) {i : Nat} {x : α}
    (hAt : xs[i]? = some x) : ys[i]? = some x := by
  obtain ⟨more, rfl⟩ := hPrefix
  obtain ⟨hInside, _⟩ := List.getElem?_eq_some_iff.mp hAt
  rw [List.getElem?_append_left hInside, hAt]

theorem prefix_of_eq {α : Type*} {xs ys : List α} (hSame : ys = xs) : xs <+: ys := by
  subst hSame
  exact List.prefix_rfl

/-- What has been sent stays sent while calls come to their ends. -/
theorem known_of_prefix (known : ∀ r ∈ sent s, (asked s)[r.1]? = some r.2)
    (hSent : sent after = sent s) (hAsked : asked s <+: asked after) :
    ∀ r ∈ sent after, (asked after)[r.1]? = some r.2 := by
  intro r hMem
  rw [hSent] at hMem
  exact getElem?_of_prefix hAsked (known r hMem)

/-- Connections only ever get more requests and more answers. -/
theorem Located.mono {i : Nat} {req res : Json} (located : Located parse str s i req res)
    (hGrows : ∀ c ∈ conns s, ∃ d ∈ conns after,
      c.requests <+: d.requests ∧ c.processed <+: d.processed) :
    Located parse str after i req res := by
  obtain ⟨c, hMem, j, answer, hRequest, hProcessed, hRes⟩ := located
  obtain ⟨d, hMember, hRequests, hAnswers⟩ := hGrows c hMem
  exact ⟨d, hMember, j, answer, getElem?_of_prefix hRequests hRequest,
    getElem?_of_prefix hAnswers hProcessed, hRes⟩

/-- A call that has come to an end without an answer says nothing of one. -/
theorem answered_of_failed
    (answered : ∀ i req res, s.calls[i]? = some ⟨req, some res⟩ → Located parse str s i req res)
    (hGrows : ∀ c ∈ conns s, ∃ d ∈ conns after,
      c.requests <+: d.requests ∧ c.processed <+: d.processed)
    {failed : Json} (hCalls : after.calls = s.calls ++ [⟨failed, none⟩]) :
    ∀ i req res, after.calls[i]? = some ⟨req, some res⟩ → Located parse str after i req res := by
  intro i req res hCall
  rw [hCalls] at hCall
  by_cases hOld : i < s.calls.length
  · rw [List.getElem?_append_left hOld] at hCall
    exact (answered i req res hCall).mono hGrows
  · have hLast := List.getElem?_eq_some_iff.mp hCall
    obtain ⟨hInside, hLast⟩ := hLast
    rw [List.getElem_append_right (Nat.le_of_not_lt hOld)] at hLast
    simp at hLast

/-- The client drops the connection in use and ends the call. -/
theorem Inv.disconnect (inv : Inv parse str s) {c d : Conn} {req : Json}
    (hConn : s.current = some c) (conn : ConnInv parse str d .left)
    (hRequests : d.requests = c.requests) (hProcessed : d.processed = c.processed)
    (hPoint : s.point = .send req ∨ s.point.awaited = some req) :
    Inv parse str (disconnect { s with current := some d } req) := by
  have hGrows : ∀ x ∈ conns s, ∃ y ∈ conns (RpcSession.disconnect { s with current := some d } req),
      x.requests <+: y.requests ∧ x.processed <+: y.processed := by
    intro x hMem
    simp only [conns, hConn, List.mem_append, Option.mem_toList, Option.some.injEq] at hMem
    rcases hMem with hLeft | rfl
    · exact ⟨x, by simp [conns, RpcSession.disconnect, hLeft], List.prefix_rfl, List.prefix_rfl⟩
    · refine ⟨d, by simp [conns, RpcSession.disconnect], ?_, ?_⟩
      · exact prefix_of_eq hRequests
      · exact prefix_of_eq hProcessed
  have hSent : sent (RpcSession.disconnect { s with current := some d } req) = sent s := by
    simp [sent, conns, RpcSession.disconnect, hConn, hRequests]
  have hAsked :
      asked s <+: asked (RpcSession.disconnect { s with current := some d } req) := by
    rcases hPoint with hPoint | hPoint
    · simp [asked, RpcSession.disconnect, hPoint, ClientPoint.awaited]
    · rw [asked, hPoint]
      simp [asked, RpcSession.disconnect, ClientPoint.awaited]
  exact {
    left := by
      intro x hMem
      simp only [RpcSession.disconnect, Option.toList_some, List.mem_append,
        List.mem_singleton] at hMem
      rcases hMem with hLeft | rfl
      · exact inv.left x hLeft
      · exact conn
    current := by simp [RpcSession.disconnect]
    alive := by simp [RpcSession.disconnect]
    attached := fun hBusy => absurd rfl hBusy
    sending := by simp [RpcSession.disconnect]
    pending := by simp [RpcSession.disconnect]
    increasing := by
      rw [hSent]
      exact inv.increasing
    known := known_of_prefix inv.known hSent hAsked
    answered := answered_of_failed inv.answered hGrows rfl }

/-- The connection in use changes, and the call, if there is one, goes on waiting. -/
theorem Inv.replace (inv : Inv parse str s) {c d : Conn} {point : ClientPoint}
    (hConn : s.current = some c) (conn : ConnInv parse str d point.view)
    (hRequests : d.requests = c.requests) (hProcessed : c.processed <+: d.processed)
    (hAwaited : point.awaited = s.point.awaited) (hAlive : point ≠ .crashed)
    (hSending : ∀ req, point = .send req → s.point = .send req) :
    Inv parse str { s with current := some d, point := point } := by
  have hGrows : ∀ x ∈ conns s, ∃ y ∈ conns { s with current := some d, point := point },
      x.requests <+: y.requests ∧ x.processed <+: y.processed := by
    intro x hMem
    simp only [conns, hConn, List.mem_append, Option.mem_toList, Option.some.injEq] at hMem
    rcases hMem with hLeft | rfl
    · exact ⟨x, by simp [conns, hLeft], List.prefix_rfl, List.prefix_rfl⟩
    · refine ⟨d, by simp [conns], ?_, hProcessed⟩
      exact prefix_of_eq hRequests
  have hSent : sent { s with current := some d, point := point } = sent s := by
    simp [sent, conns, hConn, hRequests]
  have hAsked : asked { s with current := some d, point := point } = asked s := by
    rw [asked, asked, hAwaited]
  exact {
    left := inv.left
    current := by
      intro x hNow
      cases hNow
      exact conn
    alive := hAlive
    attached := fun _ => rfl
    sending := fun req hPoint => inv.sending req (hSending req hPoint)
    pending := by
      intro req hPoint x hNow
      cases hNow
      obtain ⟨before, hPending⟩ := inv.pending req (hAwaited.symm.trans hPoint) c hConn
      exact ⟨before, hRequests.trans hPending⟩
    increasing := by
      rw [hSent]
      exact inv.increasing
    known := by
      rw [hSent, hAsked]
      exact inv.known
    answered := fun i req res hCall => (inv.answered i req res hCall).mono hGrows }

/-- A step of the server at the other end of a connection that is no longer used. -/
theorem Inv.serverLeft (inv : Inv parse str s) {k : Nat} {c d : Conn} {move : ServerMove}
    (hConn : s.left[k]? = some c) (hStep : serverStep parse str c move = some d)
    (hShort : ∀ res, move = .process res → (str res).length < 2147483648) :
    Inv parse str { s with left := s.left.set k d } := by
  obtain ⟨hRequests, hProcessed⟩ := (serverStep_cases hStep).requests
  obtain ⟨hInside, hAt⟩ := List.getElem?_eq_some_iff.mp hConn
  have hMapped : (s.left.set k d).map Conn.requests = s.left.map Conn.requests := by
    rw [List.map_set, hRequests, ← hAt, ← List.map_set, List.set_getElem_self]
  have hSent : sent { s with left := s.left.set k d } = sent s := by
    simp only [sent, conns, List.flatMap_def, List.map_append, hMapped]
  have hGrows : ∀ x ∈ conns s, ∃ y ∈ conns { s with left := s.left.set k d },
      x.requests <+: y.requests ∧ x.processed <+: y.processed := by
    intro x hMem
    rcases List.mem_append.mp hMem with hLeft | hNow
    · obtain ⟨j, hJ, hX⟩ := List.getElem_of_mem hLeft
      by_cases hSame : j = k
      · subst hSame
        refine ⟨d, List.mem_append_left _ (List.mem_set hInside d), ?_, ?_⟩
        · exact prefix_of_eq (by rw [hRequests, ← hX, hAt])
        · rw [← hX, hAt]
          exact hProcessed
      · refine ⟨x, List.mem_append_left _ ?_, List.prefix_rfl, List.prefix_rfl⟩
        rw [List.mem_iff_getElem]
        exact ⟨j, by simpa using hJ, by rw [List.getElem_set_ne (Ne.symm hSame), hX]⟩
    · exact ⟨x, List.mem_append_right _ hNow, List.prefix_rfl, List.prefix_rfl⟩
  exact {
    left := by
      intro x hMem
      rcases List.mem_or_eq_of_mem_set hMem with hOld | rfl
      · exact inv.left x hOld
      · exact (inv.left c (hAt ▸ List.getElem_mem hInside)).serverStep hStep hShort
    current := inv.current
    alive := inv.alive
    attached := inv.attached
    sending := inv.sending
    pending := inv.pending
    increasing := by
      rw [hSent]
      exact inv.increasing
    known := by
      rw [hSent]
      exact inv.known
    answered := fun i req res hCall => (inv.answered i req res hCall).mono hGrows }

/-- A connection is there, or is made, and the request is to be sent. -/
theorem Inv.begins (inv : Inv parse str s) {c : Conn} {req : Json} (hPoint : s.point = .idle)
    (hConn : s.current = some c ∨ s.current = none ∧ c = {}) (isBody : IsBody (str req)) :
    Inv parse str { s with current := some c, point := .send req } := by
  have hConn' : ConnInv parse str c .idle := by
    rcases hConn with hConn | ⟨_, rfl⟩
    · have conn := inv.current c hConn
      rwa [hPoint] at conn
    · exact ConnInv.new
  have hGrows : ∀ x ∈ conns s, ∃ y ∈ conns { s with current := some c, point := .send req },
      x.requests <+: y.requests ∧ x.processed <+: y.processed := by
    intro x hMem
    refine ⟨x, ?_, List.prefix_rfl, List.prefix_rfl⟩
    rcases hConn with hConn | ⟨hConn, _⟩
    · rw [conns, hConn] at hMem
      exact hMem
    · rw [conns, hConn, Option.toList_none, List.append_nil] at hMem
      exact List.mem_append_left _ hMem
  have hSent : sent { s with current := some c, point := .send req } = sent s := by
    rcases hConn with hConn | ⟨hConn, rfl⟩
    · simp [sent, conns, hConn]
    · simp [sent, conns, hConn]
  have hAsked : asked { s with current := some c, point := .send req } = asked s := by
    simp [asked, hPoint, ClientPoint.awaited]
  exact {
    left := inv.left
    current := by
      intro x hNow
      cases hNow
      exact hConn'
    alive := by simp
    attached := fun _ => rfl
    sending := by
      intro other hSend
      cases hSend
      exact isBody
    pending := fun _ hAwaited => by cases hAwaited
    increasing := by
      rw [hSent]
      exact inv.increasing
    known := by
      rw [hSent, hAsked]
      exact inv.known
    answered := fun i req res hCall => (inv.answered i req res hCall).mono hGrows }

/-- The number of the call is larger than all the numbers before it. -/
theorem Inv.sent (inv : Inv parse str s) {c : Conn} {req : Json} (hPoint : s.point = .send req)
    (hConn : s.current = some c) :
    Inv parse str { s with
      current := some { c with
        toServer := c.toServer ++ frame (str req)
        requests := c.requests ++ [(s.calls.length, req)] }
      point := .recvHeader req } := by
  have conn : ConnInv parse str c .idle := by
    have conn := inv.current c hConn
    rwa [hPoint] at conn
  have hAsked : asked s = s.calls.map Call.req := by
    simp [asked, hPoint, ClientPoint.awaited]
  have hSent : RpcSession.sent { s with
      current := some { c with
        toServer := c.toServer ++ frame (str req)
        requests := c.requests ++ [(s.calls.length, req)] }
      point := .recvHeader req } = RpcSession.sent s ++ [(s.calls.length, req)] := by
    simp [RpcSession.sent, conns, hConn]
  have hSmaller : ∀ r ∈ RpcSession.sent s, r.1 < s.calls.length := by
    intro r hMem
    have hKnown := inv.known r hMem
    rw [hAsked] at hKnown
    obtain ⟨hInside, _⟩ := List.getElem?_eq_some_iff.mp hKnown
    rwa [List.length_map] at hInside
  exact {
    left := inv.left
    current := by
      intro x hNow
      cases hNow
      exact conn.send (s.calls.length, req) (inv.sending req hPoint)
    alive := by simp
    attached := fun _ => rfl
    sending := by simp
    pending := by
      intro other hAwaited x hNow
      cases hNow
      cases hAwaited
      exact ⟨c.requests, rfl⟩
    increasing := by
      rw [hSent, List.map_append, List.pairwise_append]
      refine ⟨inv.increasing, List.pairwise_singleton _ _, ?_⟩
      intro i hOld j hNew
      obtain ⟨r, hMem, rfl⟩ := List.mem_map.mp hOld
      rw [List.map_singleton, List.mem_singleton] at hNew
      rw [hNew]
      exact hSmaller r hMem
    known := by
      intro r hMem
      rw [hSent, List.mem_append, List.mem_singleton] at hMem
      rcases hMem with hOld | rfl
      · refine getElem?_of_prefix ?_ (inv.known r hOld)
        rw [hAsked]
        exact List.prefix_append _ _
      · simp [asked, ClientPoint.awaited]
    answered := by
      intro i req res hCall
      refine (inv.answered i req res hCall).mono fun x hMem => ?_
      simp only [conns, hConn, List.mem_append, Option.mem_toList, Option.some.injEq] at hMem
      rcases hMem with hLeft | rfl
      · exact ⟨x, List.mem_append_left _ hLeft, List.prefix_rfl, List.prefix_rfl⟩
      · exact ⟨_, mem_conns rfl, List.prefix_append _ _, List.prefix_rfl⟩ }

/-- The answer that comes is the one to the request that is waiting. -/
theorem Inv.body (inv : Inv parse str s) {c : Conn} {req : Json} {len : Nat}
    (hPoint : s.point = .recvBody req len) (hConn : s.current = some c)
    (hLength : len ≤ c.toClient.length) :
    Inv parse str { s with
      calls := s.calls ++ [⟨req, some (parse (c.toClient.take len))⟩]
      current := some { c with toClient := c.toClient.drop len }
      point := .idle } := by
  have conn : ConnInv parse str c (.reading len) := by
    have conn := inv.current c hConn
    rwa [hPoint] at conn
  obtain ⟨hIdle, hDone, res, ⟨past, processed, hLast⟩, hAnswer⟩ := conn.body hLength
  obtain ⟨before, hPending⟩ := inv.pending req (by rw [hPoint]; rfl) c hConn
  have hCount : past.length = before.length := by
    rw [Done, hLast, hPending] at hDone
    simpa using hDone
  have hProcessed : processed = parse (str req) := by
    have hConsistent := conn.consistent
    rw [Consistent, hLast, hPending] at hConsistent
    rw [List.take_of_length_le (by simp [hCount]), List.map_append, List.map_append] at hConsistent
    simpa using (List.append_inj' hConsistent rfl).2
  have hSent : RpcSession.sent { s with
      calls := s.calls ++ [⟨req, some (parse (c.toClient.take len))⟩]
      current := some { c with toClient := c.toClient.drop len }
      point := .idle } = RpcSession.sent s := by
    simp [RpcSession.sent, conns, hConn]
  have hAsked : asked { s with
      calls := s.calls ++ [⟨req, some (parse (c.toClient.take len))⟩]
      current := some { c with toClient := c.toClient.drop len }
      point := .idle } = asked s := by
    simp [asked, hPoint, ClientPoint.awaited]
  have hGrows : ∀ x ∈ conns s, ∃ y ∈ conns { s with
      calls := s.calls ++ [⟨req, some (parse (c.toClient.take len))⟩]
      current := some { c with toClient := c.toClient.drop len }
      point := .idle }, x.requests <+: y.requests ∧ x.processed <+: y.processed := by
    intro x hMem
    simp only [conns, hConn, List.mem_append, Option.mem_toList, Option.some.injEq] at hMem
    rcases hMem with hLeft | rfl
    · exact ⟨x, List.mem_append_left _ hLeft, List.prefix_rfl, List.prefix_rfl⟩
    · exact ⟨_, mem_conns rfl, List.prefix_rfl, List.prefix_rfl⟩
  exact {
    left := inv.left
    current := by
      intro x hNow
      cases hNow
      exact hIdle
    alive := by simp
    attached := fun hBusy => absurd rfl hBusy
    sending := by simp
    pending := fun _ hAwaited => by cases hAwaited
    increasing := by
      rw [hSent]
      exact inv.increasing
    known := by
      rw [hSent, hAsked]
      exact inv.known
    answered := by
      intro i other answer hCall
      by_cases hOld : i < s.calls.length
      · rw [List.getElem?_append_left hOld] at hCall
        exact (inv.answered i other answer hCall).mono hGrows
      · rw [List.getElem?_append_right (Nat.le_of_not_lt hOld),
          List.getElem?_singleton] at hCall
        split_ifs at hCall with hHere
        have hI : i = s.calls.length := by omega
        cases hCall
        refine ⟨_, mem_conns rfl, before.length, res, ?_, ?_, ?_⟩
        · show c.requests[before.length]? = some (i, req)
          rw [hPending, hI]
          simp
        · show c.processed[before.length]? = some (parse (str req), res)
          rw [hLast, ← hProcessed, ← hCount]
          simp
        · rw [hAnswer] }

theorem Inv.refused (inv : Inv parse str s) {req : Json} (hPoint : s.point = .idle)
    (hConn : s.current = none) :
    Inv parse str { s with calls := s.calls ++ [⟨req, none⟩] } where
  left := inv.left
  current := inv.current
  alive := inv.alive
  attached := inv.attached
  sending := inv.sending
  pending := by
    intro other hAwaited x hNow
    cases hConn.symm.trans hNow
  increasing := inv.increasing
  known := by
    refine known_of_prefix inv.known rfl ?_
    simp [asked, hPoint, ClientPoint.awaited]
  answered := answered_of_failed inv.answered
    (fun c hMem => ⟨c, hMem, List.prefix_rfl, List.prefix_rfl⟩) rfl

/-- The connection in use while a call waits or sends. -/
theorem Inv.conn (inv : Inv parse str s) {point : ClientPoint} (hPoint : s.point = point)
    {c : Conn} (hConn : s.current = some c) : ConnInv parse str c point.view := by
  rw [← hPoint]
  exact inv.current c hConn

theorem Inv.start : Inv parse str {} where
  left := by simp
  current := by simp
  alive := by simp
  attached := fun hBusy => absurd rfl hBusy
  sending := by simp
  pending := by simp
  increasing := List.Pairwise.nil
  known := fun _ hMem => by cases hMem
  answered := by simp

theorem Inv.step (inv : Inv parse str s) {move : Move}
    (hStep : step parse str s move = some after) (hHonest : Honest str move) :
    Inv parse str after := by
  cases step_cases hStep with
  | begins hPoint hConn hAfter =>
      rw [hAfter]
      exact inv.begins hPoint hConn hHonest
  | refused hPoint hConn hAfter =>
      rw [hAfter]
      exact inv.refused hPoint hConn
  | sent hPoint hConn hAfter =>
      rw [hAfter]
      exact inv.sent hPoint hConn
  | sendFailed hPoint hConn hSent hAfter =>
      rw [hAfter]
      refine inv.disconnect hConn ?_ rfl rfl (Or.inl hPoint)
      exact (inv.conn hPoint hConn).sendFails (inv.sending _ hPoint) hSent
  | @header req c n hPoint hConn hLength hHeader hAfter =>
      obtain ⟨len, hRead, conn⟩ := (inv.conn hPoint hConn).header hLength
      have hLen : n = (len : Int) := by
        rw [← hHeader, hRead]
      rw [hAfter, if_neg (by omega), hLen, Int.toNat_natCast]
      exact inv.replace hConn conn rfl List.prefix_rfl (by rw [hPoint]; rfl) (by simp) (by simp)
  | refusedHeader hPoint hConn hLength hAfter =>
      obtain ⟨len, _, conn⟩ := (inv.conn hPoint hConn).header hLength
      rw [hAfter]
      exact inv.disconnect hConn conn.leave rfl rfl (Or.inr (by rw [hPoint]; rfl))
  | answered hPoint hConn hLength hAfter =>
      rw [hAfter]
      exact inv.body hPoint hConn hLength
  | notJson hPoint hConn hLength hAfter =>
      obtain ⟨conn, _⟩ := (inv.conn hPoint hConn).body hLength
      rw [hAfter]
      exact inv.disconnect hConn conn.leave rfl rfl (Or.inr (by rw [hPoint]; rfl))
  | @fails req _ hPoint hAfter =>
      have hAwaited : s.point.awaited = some req := by
        rcases hPoint with hPoint | ⟨len, hPoint⟩
        · rw [hPoint]
          rfl
        · rw [hPoint]
          rfl
      have hBusy : s.point ≠ .idle := by
        intro hIdle
        rw [hIdle] at hAwaited
        cases hAwaited
      obtain ⟨c, hConn⟩ := Option.isSome_iff_exists.mp (inv.attached hBusy)
      have hSame : after = RpcSession.disconnect { s with current := some c } req := by
        rw [hAfter, ← hConn]
      rw [hSame]
      exact inv.disconnect hConn (inv.current c hConn).leave rfl rfl (Or.inr hAwaited)
  | serverLeft hConn hServer hAfter =>
      rw [hAfter]
      refine inv.serverLeft hConn hServer fun res hMove => ?_
      rw [hMove] at hHonest
      exact hHonest
  | serverCurrent hConn hServer hAfter =>
      rw [hAfter]
      obtain ⟨hRequests, hProcessed⟩ := (serverStep_cases hServer).requests
      refine inv.replace hConn ((inv.current _ hConn).serverStep hServer fun res hMove => ?_)
        hRequests hProcessed rfl inv.alive (fun _ hSend => hSend)
      rw [hMove] at hHonest
      exact hHonest

/-- The requests that the service has got, each with what it has worked on and its answer. -/
def served (s : System) : List ((Nat × Json) × (Json × Json)) :=
  (conns s).flatMap fun c => c.requests.zip c.processed

/-- What the service works on is what the client wrote. -/
theorem Consistent.at {c : Conn} (consistent : Consistent parse str c)
    {e : (Nat × Json) × (Json × Json)} (hMem : e ∈ c.requests.zip c.processed) :
    e.2.1 = parse (str e.1.2) := by
  obtain ⟨j, hAt⟩ := List.mem_iff_getElem?.mp hMem
  obtain ⟨hRequest, hProcessed⟩ := List.getElem?_zip_eq_some.mp hAt
  obtain ⟨hInside, _⟩ := List.getElem?_eq_some_iff.mp hProcessed
  have hSame := congrArg (fun l => l[j]?) consistent
  simp only [List.getElem?_map, hProcessed, List.getElem?_take_of_lt hInside, hRequest,
    Option.map_some, Option.some.injEq] at hSame
  exact hSame

/-- One call over a new connection, with empty lists for the request and the answer. -/
def sampleMoves : List Move :=
  [.call (.array []) true, .send, .serverCurrent .header, .serverCurrent .body,
    .serverCurrent (.process (.array [])), .serverCurrent .send, .header, .body]

def sampleParse (t : Text) : Json :=
  if t = ['[', ']'] then .array [] else .null

def sampleStr (_ : Json) : Text :=
  ['[', ']']

def sampleEnd : System where
  calls := [⟨.array [], some (.array [])⟩]
  current := some { requests := [(0, .array [])], processed := [(.array [], .array [])] }

theorem run_sampleMoves :
    Schedule.run (step sampleParse sampleStr) {} sampleMoves = some sampleEnd := rfl

end Hengda.RpcSession

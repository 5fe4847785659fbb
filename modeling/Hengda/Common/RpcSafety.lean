import Hengda.Common.RpcSession

/-! Calls get their own answers. A request reaches the service at most once and as it was
sent, whatever is lost, late or cut off, and the answer that a call returns is what the
service has made of the request of this very call. -/
namespace Hengda.RpcSession

open Hengda.Rpc

section Connection

variable (parse : Text → Json) (str : Json → Text)

/-- What the client is doing with a connection. -/
inductive View
  | idle
  | waiting
  | reading (len : Nat)
  | left

/-- Every request that has been sent has been processed. -/
def Done (c : Conn) : Prop :=
  c.processed.length = c.requests.length

/-- The last request has still to be processed. -/
def Waiting (c : Conn) (r : Nat × Json) : Prop :=
  ∃ before, c.requests = before ++ [r] ∧ c.processed.length = before.length

/-- `res` is the last answer. -/
def Last (c : Conn) (res : Json) : Prop :=
  ∃ past req, c.processed = past ++ [(req, res)]

/-- How far the last exchange on a connection has come. Behind a request that the client
could not send as a whole there is no other one. -/
inductive Phase (c : Conn) : View → Prop
  | quiet {view} (hView : view = .idle ∨ view = .left) (hServer : c.server = .recvHeader)
      (hToServer : c.toServer = []) (hToClient : c.toClient = []) (hDone : Done c) : Phase c view
  | arriving {view r lost} (hView : view = .waiting ∨ view = .left)
      (hServer : c.server = .recvHeader)
      (hToServer : c.toServer = (frame (str r.2)).drop lost) (hToClient : c.toClient = [])
      (hWaiting : Waiting c r) : Phase c view
  | body {view r} (hView : view = .waiting ∨ view = .left)
      (hServer : c.server = .recvBody (str r.2).length) (hToServer : c.toServer = str r.2)
      (hToClient : c.toClient = []) (hWaiting : Waiting c r) : Phase c view
  | loaded {view r} (hView : view = .waiting ∨ view = .left)
      (hServer : c.server = .process (parse (str r.2))) (hToServer : c.toServer = [])
      (hToClient : c.toClient = []) (hWaiting : Waiting c r) : Phase c view
  | answering {view res} (hView : view = .waiting ∨ view = .left)
      (hServer : c.server = .send res) (hToServer : c.toServer = []) (hToClient : c.toClient = [])
      (hDone : Done c) (hLast : Last c res) (hShort : (str res).length < 2147483648) :
      Phase c view
  | answered {view res} (hView : view = .waiting ∨ view = .left)
      (hServer : c.server = .recvHeader ∨ c.server = .closed) (hToServer : c.toServer = [])
      (hToClient : c.toClient = frame (str res)) (hDone : Done c) (hLast : Last c res)
      (hShort : (str res).length < 2147483648) : Phase c view
  | reading {view res} (hView : view = .reading (str res).length ∨ view = .left)
      (hServer : c.server = .recvHeader ∨ c.server = .closed) (hToServer : c.toServer = [])
      (hToClient : c.toClient = str res) (hDone : Done c) (hLast : Last c res) : Phase c view
  | cut {view req sent lost} (hView : view = .left) (hServer : c.server = .recvHeader)
      (hBody : IsBody (str req)) (hSent : sent < (frame (str req)).length)
      (hToServer : c.toServer = ((frame (str req)).take sent).drop lost) (hDone : Done c) :
      Phase c view
  | cutBody {view len} (hView : view = .left) (hServer : c.server = .recvBody len)
      (hMissing : c.toServer.length < len) (hDone : Done c) : Phase c view
  | dead {view} (hView : view = .idle ∨ view = .waiting) (hServer : c.server = .closed)
      (hToClient : c.toClient = []) : Phase c view
  | deadPart {res sent} (hServer : c.server = .closed) (hSent : sent < (frame (str res)).length)
      (hToClient : c.toClient = (frame (str res)).take sent)
      (hShort : (str res).length < 2147483648) : Phase c .waiting
  | deadReading {len} (hServer : c.server = .closed) (hMissing : c.toClient.length < len) :
      Phase c (.reading len)
  | deadLeft (hServer : c.server = .closed) : Phase c .left

/-- What has been processed are the first requests, as they were sent. -/
def Consistent (c : Conn) : Prop :=
  c.processed.map Prod.fst =
    (c.requests.take c.processed.length).map fun r => parse (str r.2)

structure ConnInv (c : Conn) (view : View) : Prop where
  phase : Phase parse str c view
  consistent : Consistent parse str c
  bodies : ∀ r ∈ c.requests, IsBody (str r.2)

variable {parse str} {c d : Conn} {view : View}

/-- Everything that a step of the coroutine can do. -/
inductive Stepped (parse : Text → Json) (str : Json → Text) (c d : Conn) : ServerMove → Prop
  | header (hServer : c.server = .recvHeader) (hLength : 8 ≤ c.toServer.length)
      (hAfter : d = { c with
        toServer := c.toServer.drop 8
        server := afterHeader (readHeader (c.toServer.take 8)) }) : Stepped parse str c d .header
  | idle {lost close} (hServer : c.server = .recvHeader) (hAfter : d = { c with
        toServer := c.toServer.drop lost
        server := if close then .closed else .recvHeader }) :
      Stepped parse str c d (.idle lost close)
  | fails {move} (hServer : c.server = .recvHeader ∨ ∃ len, c.server = .recvBody len)
      (hAfter : d = { c with server := .closed }) : Stepped parse str c d move
  | body {len} (hServer : c.server = .recvBody len) (hLength : len ≤ c.toServer.length)
      (hAfter : d = { c with
        toServer := c.toServer.drop len
        server := afterBody (parse (c.toServer.take len)) }) : Stepped parse str c d .body
  | process {req res} (hServer : c.server = .process req) (hAfter : d = { c with
        server := .send res
        processed := c.processed ++ [(req, res)] }) : Stepped parse str c d (.process res)
  | send {res} (hServer : c.server = .send res) (hAfter : d = { c with
        server := .recvHeader
        toClient := c.toClient ++ frame (str res) }) : Stepped parse str c d .send
  | sendFails {res sent} (hServer : c.server = .send res) (hSent : sent < (frame (str res)).length)
      (hAfter : d = { c with
        server := .closed
        toClient := c.toClient ++ (frame (str res)).take sent }) :
      Stepped parse str c d (.sendFails sent)

theorem serverStep_cases {move : ServerMove} (hStep : serverStep parse str c move = some d) :
    Stepped parse str c d move := by
  cases hServer : c.server with
  | recvHeader =>
      cases move with
      | header =>
          simp only [serverStep, hServer] at hStep
          split_ifs at hStep with hLength
          exact .header hServer hLength (Option.some.inj hStep).symm
      | idle lost close =>
          simp only [serverStep, hServer] at hStep
          by_cases hLost : lost < 8 ∧ lost ≤ c.toServer.length
          · rw [if_pos hLost] at hStep
            exact .idle hServer (Option.some.inj hStep).symm
          · rw [if_neg hLost] at hStep
            cases hStep
      | fails =>
          simp only [serverStep, hServer] at hStep
          exact .fails (Or.inl hServer) (Option.some.inj hStep).symm
      | _ => simp [serverStep, hServer] at hStep
  | recvBody len =>
      cases move with
      | fails =>
          simp only [serverStep, hServer] at hStep
          exact .fails (Or.inr ⟨len, hServer⟩) (Option.some.inj hStep).symm
      | body =>
          simp only [serverStep, hServer] at hStep
          split_ifs at hStep with hEmpty hLength
          · exact .fails (Or.inr ⟨len, hServer⟩) (Option.some.inj hStep).symm
          · exact .body hServer hLength (Option.some.inj hStep).symm
      | _ => simp [serverStep, hServer] at hStep
  | process req =>
      cases move with
      | process res =>
          simp only [serverStep, hServer] at hStep
          exact .process hServer (Option.some.inj hStep).symm
      | _ => simp [serverStep, hServer] at hStep
  | send res =>
      cases move with
      | send =>
          simp only [serverStep, hServer] at hStep
          exact .send hServer (Option.some.inj hStep).symm
      | sendFails sent =>
          simp only [serverStep, hServer] at hStep
          split_ifs at hStep with hSent
          exact .sendFails hServer hSent (Option.some.inj hStep).symm
      | _ => simp [serverStep, hServer] at hStep
  | closed => cases move <;> simp [serverStep, hServer] at hStep
  | crashed => cases move <;> simp [serverStep, hServer] at hStep

/-- The parts that only the client changes. -/
theorem Stepped.requests {move : ServerMove} (stepped : Stepped parse str c d move) :
    d.requests = c.requests ∧ c.processed <+: d.processed := by
  cases stepped with
  | process _ hAfter =>
      rw [hAfter]
      exact ⟨rfl, List.prefix_append _ _⟩
  | header _ _ hAfter => rw [hAfter]; exact ⟨rfl, List.prefix_rfl⟩
  | idle _ hAfter => rw [hAfter]; exact ⟨rfl, List.prefix_rfl⟩
  | fails _ hAfter => rw [hAfter]; exact ⟨rfl, List.prefix_rfl⟩
  | body _ _ hAfter => rw [hAfter]; exact ⟨rfl, List.prefix_rfl⟩
  | send _ hAfter => rw [hAfter]; exact ⟨rfl, List.prefix_rfl⟩
  | sendFails _ _ hAfter => rw [hAfter]; exact ⟨rfl, List.prefix_rfl⟩

/-- The server may give a connection up wherever it stands. -/
theorem Phase.giveUp (phase : Phase parse str c view) (hServer : d.server = .closed)
    (hToServer : c.toServer = [] → d.toServer = []) (hToClient : d.toClient = c.toClient)
    (hRequests : d.requests = c.requests) (hProcessed : d.processed = c.processed) :
    Phase parse str d view := by
  cases view with
  | left => exact .deadLeft hServer
  | idle =>
      refine .dead (Or.inl rfl) hServer (hToClient.trans ?_)
      cases phase with
      | quiet _ _ _ hEmpty => exact hEmpty
      | dead _ _ hEmpty => exact hEmpty
      | _ hView => simp at hView
  | waiting =>
      have hDead : c.toClient = [] → Phase parse str d .waiting := fun hEmpty =>
        .dead (Or.inr rfl) hServer (hToClient.trans hEmpty)
      cases phase with
      | arriving _ _ _ hEmpty => exact hDead hEmpty
      | body _ _ _ hEmpty => exact hDead hEmpty
      | loaded _ _ _ hEmpty => exact hDead hEmpty
      | answering _ _ _ hEmpty => exact hDead hEmpty
      | dead _ _ hEmpty => exact hDead hEmpty
      | answered hView _ hRead hAnswer hDone hLast hShort =>
          refine .answered hView (Or.inr hServer) (hToServer hRead) (hToClient.trans hAnswer)
            ?_ ?_ hShort
          · rwa [Done, hRequests, hProcessed]
          · rwa [Last, hProcessed]
      | deadPart _ hSent hAnswer hShort =>
          exact .deadPart hServer hSent (hToClient.trans hAnswer) hShort
      | _ hView => simp at hView
  | reading len =>
      cases phase with
      | reading hView _ hRead hAnswer hDone hLast =>
          refine .reading hView (Or.inr hServer) (hToServer hRead) (hToClient.trans hAnswer) ?_ ?_
          · rwa [Done, hRequests, hProcessed]
          · rwa [Last, hProcessed]
      | deadReading _ hMissing => exact .deadReading hServer (by rwa [hToClient])
      | _ hView => simp at hView

theorem afterHeader_misread {body : Text} (isBody : IsBody body) {lost sent : Nat}
    {t : Text} (hText : t = ((frame body).take sent).drop lost) (hLength : 8 ≤ t.length)
    (hLost : 0 < lost) : afterHeader (readHeader (t.take 8)) = .closed := by
  have hWindow : t.take 8 = ((frame body).drop lost).take 8 := by
    rw [List.drop_take] at hText
    have hInside : 8 ≤ sent - lost := by
      rw [hText, List.length_take] at hLength
      omega
    rw [hText, List.take_take, min_eq_left hInside]
  have hFull : (t.take 8).length = 8 := List.length_take_of_le hLength
  rw [afterHeader]
  rcases misread isBody hLost hWindow hFull with hMagic | hLong
  · rw [if_pos hMagic]
  · split_ifs
    · rfl
    · rfl

/-- A frame that is longer than a message may be is refused, and every other one is read. -/
theorem afterHeader_frame {body : Text} (isBody : IsBody body) :
    afterHeader (readHeader (setHeader body.length)) = .closed ∨
      afterHeader (readHeader (setHeader body.length)) = .recvBody body.length := by
  rw [readHeader_setHeader isBody.short, afterHeader, if_neg (fun hMagic => hMagic rfl)]
  split_ifs with hLong hNegative
  · exact Or.inl rfl
  · exact absurd hNegative (by simp)
  · exact Or.inr rfl

theorem afterBody_cases (req : Json) :
    afterBody req = .closed ∨ afterBody req = .process req := by
  cases req with
  | null => exact Or.inl rfl
  | _ => exact Or.inr rfl

/-- What stays of a text of which nothing or something is gone. -/
theorem drop_eq_nil {t : Text} (hNil : t = []) (n : Nat) : t.drop n = [] := by
  rw [hNil, List.drop_nil]

/-- What the phase of a connection becomes when the server has read a header. -/
theorem Phase.header (phase : Phase parse str c view) (hBodies : ∀ r ∈ c.requests, IsBody (str r.2))
    (hServer : c.server = .recvHeader) (hLength : 8 ≤ c.toServer.length) :
    Phase parse str { c with
      toServer := c.toServer.drop 8
      server := afterHeader (readHeader (c.toServer.take 8)) } view := by
  have hFull : c.toServer ≠ [] := by
    rintro hNil
    rw [hNil] at hLength
    exact absurd hLength (by decide)
  have giveUp (hClosed : afterHeader (readHeader (c.toServer.take 8)) = .closed) :
      Phase parse str { c with
        toServer := c.toServer.drop 8
        server := afterHeader (readHeader (c.toServer.take 8)) } view :=
    phase.giveUp hClosed (fun hNil => drop_eq_nil hNil 8) rfl rfl rfl
  cases id phase with
  | @arriving _ r lost hView _ hToServer hToClient hWaiting =>
      obtain ⟨before, hRequests, hProcessed⟩ := hWaiting
      have isBody : IsBody (str r.2) := hBodies r (by rw [hRequests]; simp)
      rcases Nat.eq_zero_or_pos lost with rfl | hLost
      · rw [List.drop_zero] at hToServer
        have hHeader : c.toServer.take 8 = setHeader (str r.2).length := by
          rw [hToServer, frame_take]
        rcases afterHeader_frame isBody with hClosed | hRead
        · exact giveUp (by rw [hHeader, hClosed])
        · refine .body hView (by rw [← hRead, ← hHeader]) ?_ hToClient
            ⟨before, hRequests, hProcessed⟩
          show c.toServer.drop 8 = str r.2
          rw [hToServer, frame_drop]
      · refine giveUp (afterHeader_misread isBody (?_ :
          c.toServer = ((frame (str r.2)).take (frame (str r.2)).length).drop lost) hLength hLost)
        rw [hToServer, List.take_length]
  | @cut _ req sent lost hView _ hBody hSent hToServer hDone =>
      rcases Nat.eq_zero_or_pos lost with rfl | hLost
      · rw [List.drop_zero] at hToServer
        have hSentHeader : 8 ≤ sent := by
          rw [hToServer, List.length_take] at hLength
          exact le_trans hLength (min_le_left _ _)
        have hHeader : c.toServer.take 8 = setHeader (str req).length := by
          rw [hToServer, List.take_take, min_eq_left hSentHeader, frame_take]
        rcases afterHeader_frame hBody with hClosed | hRead
        · exact giveUp (by rw [hHeader, hClosed])
        · refine .cutBody hView (by rw [← hRead, ← hHeader]) ?_ hDone
          show (c.toServer.drop 8).length < (str req).length
          rw [hToServer, List.length_drop, List.length_take]
          rw [frame_length] at hSent ⊢
          omega
      · exact giveUp (afterHeader_misread hBody hToServer hLength hLost)
  | quiet _ _ hNil => exact absurd hNil hFull
  | answered _ _ hNil => exact absurd hNil hFull
  | reading _ _ hNil => exact absurd hNil hFull
  | body _ hOther | loaded _ hOther | answering _ hOther | cutBody _ hOther | dead _ hOther
  | deadPart hOther | deadReading hOther | deadLeft hOther =>
      cases hServer.symm.trans hOther

/-- The bytes of a header that have come before a timeout are lost. -/
theorem Phase.idle (phase : Phase parse str c view) (hServer : c.server = .recvHeader)
    (lost : Nat) :
    Phase parse str { c with toServer := c.toServer.drop lost, server := .recvHeader } view := by
  cases phase with
  | quiet hView _ hNil hToClient hDone =>
      exact .quiet hView rfl (drop_eq_nil hNil lost) hToClient hDone
  | @arriving _ r before hView _ hToServer hToClient hWaiting =>
      refine .arriving hView rfl
        (?_ : c.toServer.drop lost = (frame (str r.2)).drop (before + lost)) hToClient hWaiting
      rw [← List.drop_drop, ← hToServer]
  | answered hView _ hNil hToClient hDone hLast hShort =>
      exact .answered hView (Or.inl rfl) (drop_eq_nil hNil lost) hToClient hDone hLast hShort
  | reading hView _ hNil hToClient hDone hLast =>
      exact .reading hView (Or.inl rfl) (drop_eq_nil hNil lost) hToClient hDone hLast
  | @cut _ req sent before hView _ hBody hSent hToServer hDone =>
      refine .cut hView rfl hBody hSent
        (?_ : c.toServer.drop lost = ((frame (str req)).take sent).drop (before + lost)) hDone
      rw [← List.drop_drop, ← hToServer]
  | body _ hOther | loaded _ hOther | answering _ hOther | cutBody _ hOther | dead _ hOther
  | deadPart hOther | deadReading hOther | deadLeft hOther =>
      cases hServer.symm.trans hOther

/-- Only a whole body is read. -/
theorem Phase.body_step (phase : Phase parse str c view) {len : Nat}
    (hServer : c.server = .recvBody len) (hLength : len ≤ c.toServer.length) :
    Phase parse str { c with
      toServer := c.toServer.drop len
      server := afterBody (parse (c.toServer.take len)) } view := by
  cases id phase with
  | @body _ r hView hBody hToServer hToClient hWaiting =>
      have hLen : len = c.toServer.length := by
        cases hServer.symm.trans hBody
        rw [hToServer]
      have hTaken : c.toServer.take len = str r.2 := by
        rw [hLen, List.take_length, hToServer]
      have hRest : c.toServer.drop len = [] := by
        rw [hLen, List.drop_length]
      rcases afterBody_cases (parse (c.toServer.take len)) with hClosed | hLoaded
      · exact phase.giveUp hClosed (fun _ => hRest) rfl rfl rfl
      · exact .loaded hView (by rw [← hTaken, ← hLoaded]) hRest hToClient hWaiting
  | cutBody _ hOther hMissing =>
      cases hServer.symm.trans hOther
      exact absurd hMissing (Nat.not_lt.mpr hLength)
  | quiet _ hOther | arriving _ hOther | loaded _ hOther | answering _ hOther =>
      cases hServer.symm.trans hOther
  | answered _ hOther =>
      rcases hOther with hOther | hOther
      · cases hServer.symm.trans hOther
      · cases hServer.symm.trans hOther
  | reading _ hOther =>
      rcases hOther with hOther | hOther
      · cases hServer.symm.trans hOther
      · cases hServer.symm.trans hOther
  | cut _ hOther | dead _ hOther | deadPart hOther | deadReading hOther | deadLeft hOther =>
      cases hServer.symm.trans hOther

/-- The request at hand is the first one that is not processed. -/
theorem Phase.process (phase : Phase parse str c view) (consistent : Consistent parse str c)
    {req res : Json} (hServer : c.server = .process req)
    (hShort : (str res).length < 2147483648) :
    Phase parse str
        { c with server := .send res, processed := c.processed ++ [(req, res)] } view ∧
      Consistent parse str
        { c with server := .send res, processed := c.processed ++ [(req, res)] } := by
  cases phase with
  | @loaded _ r hView hLoaded hToServer hToClient hWaiting =>
      obtain ⟨before, hRequests, hProcessed⟩ := hWaiting
      have hReq : req = parse (str r.2) := by
        cases hServer.symm.trans hLoaded
        rfl
      constructor
      · refine .answering hView rfl hToServer hToClient ?_ ⟨c.processed, req, rfl⟩ hShort
        show (c.processed ++ [(req, res)]).length = c.requests.length
        rw [hRequests, List.length_append, List.length_append, hProcessed]
        rfl
      · have hBefore : c.processed.map Prod.fst = before.map fun r => parse (str r.2) := by
          rw [consistent, hRequests, hProcessed, List.take_left]
        show (c.processed ++ [(req, res)]).map Prod.fst =
          (c.requests.take (c.processed ++ [(req, res)]).length).map fun r => parse (str r.2)
        rw [List.map_append, hBefore, hRequests, List.take_of_length_le (by simp [hProcessed]),
          List.map_append, hReq]
        rfl
  | quiet _ hOther | arriving _ hOther | body _ hOther | answering _ hOther | cut _ hOther
  | cutBody _ hOther | dead _ hOther | deadPart hOther | deadReading hOther | deadLeft hOther =>
      cases hServer.symm.trans hOther
  | answered _ hOther | reading _ hOther =>
      rcases hOther with hOther | hOther
      · cases hServer.symm.trans hOther
      · cases hServer.symm.trans hOther

theorem Phase.send (phase : Phase parse str c view) {res : Json}
    (hServer : c.server = .send res) :
    Phase parse str
      { c with server := .recvHeader, toClient := c.toClient ++ frame (str res) } view := by
  cases phase with
  | answering hView hAnswer hToServer hToClient hDone hLast hShort =>
      cases hServer.symm.trans hAnswer
      refine .answered hView (Or.inl rfl) hToServer ?_ hDone hLast hShort
      rw [hToClient, List.nil_append]
  | quiet _ hOther | arriving _ hOther | body _ hOther | loaded _ hOther | cut _ hOther
  | cutBody _ hOther | dead _ hOther | deadPart hOther | deadReading hOther | deadLeft hOther =>
      cases hServer.symm.trans hOther
  | answered _ hOther | reading _ hOther =>
      rcases hOther with hOther | hOther
      · cases hServer.symm.trans hOther
      · cases hServer.symm.trans hOther

theorem Phase.sendFails (phase : Phase parse str c view) {res : Json} {sent : Nat}
    (hServer : c.server = .send res) (hSent : sent < (frame (str res)).length) :
    Phase parse str
      { c with server := .closed, toClient := c.toClient ++ (frame (str res)).take sent }
      view := by
  cases phase with
  | answering hView hAnswer hToServer hToClient hDone hLast hShort =>
      cases hServer.symm.trans hAnswer
      rcases hView with rfl | rfl
      · refine .deadPart rfl hSent ?_ hShort
        rw [hToClient, List.nil_append]
      · exact .deadLeft rfl
  | quiet _ hOther | arriving _ hOther | body _ hOther | loaded _ hOther | cut _ hOther
  | cutBody _ hOther | dead _ hOther | deadPart hOther | deadReading hOther | deadLeft hOther =>
      cases hServer.symm.trans hOther
  | answered _ hOther | reading _ hOther =>
      rcases hOther with hOther | hOther
      · cases hServer.symm.trans hOther
      · cases hServer.symm.trans hOther

/-- Every step of the coroutine keeps the invariant, with the client anywhere. -/
theorem ConnInv.serverStep (inv : ConnInv parse str c view) {move : ServerMove}
    (hStep : serverStep parse str c move = some d)
    (hShort : ∀ res, move = .process res → (str res).length < 2147483648) :
    ConnInv parse str d view := by
  obtain ⟨phase, consistent, bodies⟩ := inv
  cases serverStep_cases hStep with
  | header hServer hLength hAfter =>
      rw [hAfter]
      exact ⟨phase.header bodies hServer hLength, consistent, bodies⟩
  | @idle lost close hServer hAfter =>
      rw [hAfter]
      refine ⟨?_, consistent, bodies⟩
      cases close with
      | false => exact phase.idle hServer lost
      | true => exact phase.giveUp rfl (fun hNil => drop_eq_nil hNil lost) rfl rfl rfl
  | fails _ hAfter =>
      rw [hAfter]
      exact ⟨phase.giveUp rfl id rfl rfl rfl, consistent, bodies⟩
  | body hServer hLength hAfter =>
      rw [hAfter]
      exact ⟨phase.body_step hServer hLength, consistent, bodies⟩
  | @process req res hServer hAfter =>
      rw [hAfter]
      obtain ⟨hPhase, hConsistent⟩ := phase.process consistent hServer (hShort res rfl)
      exact ⟨hPhase, hConsistent, bodies⟩
  | send hServer hAfter =>
      rw [hAfter]
      exact ⟨phase.send hServer, consistent, bodies⟩
  | sendFails hServer hSent hAfter =>
      rw [hAfter]
      exact ⟨phase.sendFails hServer hSent, consistent, bodies⟩

theorem Consistent.processed_le (consistent : Consistent parse str c) :
    c.processed.length ≤ c.requests.length := by
  have hLength := congrArg List.length consistent
  rw [List.length_map, List.length_map, List.length_take] at hLength
  omega

theorem ConnInv.new : ConnInv parse str {} .idle where
  phase := .quiet (Or.inl rfl) rfl rfl rfl rfl
  consistent := rfl
  bodies := by simp

/-- The client has nothing more to do with the connection. -/
theorem ConnInv.leave (inv : ConnInv parse str c view) : ConnInv parse str c .left := by
  refine ⟨?_, inv.consistent, inv.bodies⟩
  cases inv.phase with
  | quiet _ hServer hToServer hToClient hDone =>
      exact .quiet (Or.inr rfl) hServer hToServer hToClient hDone
  | arriving _ hServer hToServer hToClient hWaiting =>
      exact .arriving (Or.inr rfl) hServer hToServer hToClient hWaiting
  | body _ hServer hToServer hToClient hWaiting =>
      exact .body (Or.inr rfl) hServer hToServer hToClient hWaiting
  | loaded _ hServer hToServer hToClient hWaiting =>
      exact .loaded (Or.inr rfl) hServer hToServer hToClient hWaiting
  | answering _ hServer hToServer hToClient hDone hLast hShort =>
      exact .answering (Or.inr rfl) hServer hToServer hToClient hDone hLast hShort
  | answered _ hServer hToServer hToClient hDone hLast hShort =>
      exact .answered (Or.inr rfl) hServer hToServer hToClient hDone hLast hShort
  | reading _ hServer hToServer hToClient hDone hLast =>
      exact .reading (Or.inr rfl) hServer hToServer hToClient hDone hLast
  | cut _ hServer hBody hSent hToServer hDone =>
      exact .cut rfl hServer hBody hSent hToServer hDone
  | cutBody _ hServer hMissing hDone => exact .cutBody rfl hServer hMissing hDone
  | dead _ hServer _ => exact .deadLeft hServer
  | deadPart hServer _ _ _ => exact .deadLeft hServer
  | deadReading hServer _ => exact .deadLeft hServer
  | deadLeft hServer => exact .deadLeft hServer

/-- A request goes out on a connection on which nothing is under way. -/
theorem ConnInv.send (inv : ConnInv parse str c .idle) (r : Nat × Json)
    (isBody : IsBody (str r.2)) :
    ConnInv parse str { c with
      toServer := c.toServer ++ frame (str r.2)
      requests := c.requests ++ [r] } .waiting := by
  refine ⟨?_, ?_, ?_⟩
  · cases inv.phase with
    | quiet _ hServer hToServer hToClient hDone =>
        refine .arriving (Or.inl rfl) hServer
          (?_ : c.toServer ++ frame (str r.2) = (frame (str r.2)).drop 0) hToClient
          ⟨c.requests, rfl, hDone⟩
        rw [hToServer]
        rfl
    | dead _ hServer hToClient => exact .dead (Or.inr rfl) hServer hToClient
    | _ hView => simp at hView
  · show c.processed.map Prod.fst =
      ((c.requests ++ [r]).take c.processed.length).map fun r => parse (str r.2)
    rw [List.take_append_of_le_length inv.consistent.processed_le]
    exact inv.consistent
  · intro q hMem
    rcases List.mem_append.mp hMem with hOld | hNew
    · exact inv.bodies q hOld
    · rw [List.mem_singleton.mp hNew]
      exact isBody

theorem ConnInv.sendFails (inv : ConnInv parse str c .idle) {req : Json}
    (isBody : IsBody (str req)) {sent : Nat} (hSent : sent < (frame (str req)).length) :
    ConnInv parse str { c with toServer := c.toServer ++ (frame (str req)).take sent }
      .left := by
  refine ⟨?_, inv.consistent, inv.bodies⟩
  cases inv.phase with
  | quiet _ hServer hToServer hToClient hDone =>
      refine .cut rfl hServer isBody hSent
        (?_ : c.toServer ++ (frame (str req)).take sent = ((frame (str req)).take sent).drop 0)
        hDone
      rw [hToServer]
      rfl
  | dead _ hServer hToClient => exact .deadLeft hServer
  | _ hView => simp at hView

/-- What comes back first is the header of an answer, and of its length. -/
theorem ConnInv.header (inv : ConnInv parse str c .waiting) (hLength : 8 ≤ c.toClient.length) :
    ∃ n : Nat, readHeader (c.toClient.take 8) = { magic := 0xbaddad, len := n } ∧
      ConnInv parse str { c with toClient := c.toClient.drop 8 } (.reading n) := by
  have hFull : c.toClient ≠ [] := by
    intro hNil
    rw [hNil] at hLength
    exact absurd hLength (by decide)
  cases inv.phase with
  | @answered _ res _ hServer hToServer hToClient hDone hLast hShort =>
      refine ⟨(str res).length, ?_, .reading (Or.inl rfl) hServer hToServer ?_ hDone hLast,
        inv.consistent, inv.bodies⟩
      · rw [hToClient, frame_take, readHeader_setHeader hShort]
      · show c.toClient.drop 8 = str res
        rw [hToClient, frame_drop]
  | @deadPart res sent hServer hSent hToClient hShort =>
      have hSentHeader : 8 ≤ sent := by
        rw [hToClient, List.length_take] at hLength
        exact le_trans hLength (min_le_left _ _)
      refine ⟨(str res).length, ?_, .deadReading hServer ?_, inv.consistent, inv.bodies⟩
      · rw [hToClient, List.take_take, min_eq_left hSentHeader, frame_take,
          readHeader_setHeader hShort]
      · show (c.toClient.drop 8).length < (str res).length
        rw [hToClient, List.length_drop, List.length_take]
        rw [frame_length] at hSent ⊢
        omega
  | quiet hView => simp at hView
  | arriving _ _ _ hNil | body _ _ _ hNil | loaded _ _ _ hNil | answering _ _ _ hNil
  | dead _ _ hNil => exact absurd hNil hFull
  | reading hView => simp at hView
  | cut hView => cases hView
  | cutBody hView => cases hView

/-- A body is whole only if it is the last answer, and then nothing is under way. -/
theorem ConnInv.body (inv : ConnInv parse str c (.reading len))
    (hLength : len ≤ c.toClient.length) :
    ConnInv parse str { c with toClient := c.toClient.drop len } .idle ∧ Done c ∧
      ∃ res, Last c res ∧ c.toClient.take len = str res := by
  cases inv.phase with
  | @reading _ res hView hServer hToServer hToClient hDone hLast =>
      have hLen : len = c.toClient.length := by
        simp only [View.reading.injEq, reduceCtorEq, or_false] at hView
        rw [hView, hToClient]
      have hRest : c.toClient.drop len = [] := by
        rw [hLen, List.drop_length]
      refine ⟨⟨?_, inv.consistent, inv.bodies⟩, hDone, res, hLast, ?_⟩
      · rcases hServer with hServer | hServer
        · exact .quiet (Or.inl rfl) hServer hToServer hRest hDone
        · exact .dead (Or.inl rfl) hServer hRest
      · rw [hLen, List.take_length, hToClient]
  | deadReading _ hMissing => exact absurd hMissing (Nat.not_lt.mpr hLength)
  | quiet hView | arriving hView | body hView | loaded hView | answering hView
  | answered hView | dead hView => simp at hView
  | cut hView => cases hView
  | cutBody hView => cases hView

end Connection

end Hengda.RpcSession

import Hengda.Base.JsonRoundTrip
import Hengda.Common.RpcCalls

/-! The calls with the texts of the library's own JSON. What a client and a service exchange
is what each of them has written, if it is of the kind that a text can carry. -/
namespace Hengda.RpcSession

open Hengda.Rpc

section Carried

variable {parse : Text → Json} {str : Json → Text} {s after : System} {P : Json → Prop}

/-- The values that a move brings into the system. -/
def Move.Carries (P : Json → Prop) : Move → Prop
  | .call req _ => P req
  | .serverLeft _ (.process res) => P res
  | .serverCurrent (.process res) => P res
  | _ => True

/-- Every request and every answer on a connection has the property. -/
structure Conn.Carries (P : Json → Prop) (c : Conn) : Prop where
  requests : ∀ r ∈ c.requests, P r.2
  answers : ∀ e ∈ c.processed, P e.2

structure Carried (P : Json → Prop) (s : System) : Prop where
  conns : ∀ c ∈ conns s, c.Carries P
  sending : ∀ req, s.point = .send req → P req

theorem Stepped.carries {c d : Conn} {move : ServerMove} (stepped : Stepped parse str c d move)
    (carries : c.Carries P) (hMove : ∀ res, move = .process res → P res) : d.Carries P := by
  cases stepped with
  | @process req res _ hAfter =>
      rw [hAfter]
      refine ⟨carries.requests, fun e hMem => ?_⟩
      rcases List.mem_append.mp hMem with hOld | hNew
      · exact carries.answers e hOld
      · rw [List.mem_singleton.mp hNew]
        exact hMove res rfl
  | header _ _ hAfter => rw [hAfter]; exact ⟨carries.requests, carries.answers⟩
  | idle _ hAfter => rw [hAfter]; exact ⟨carries.requests, carries.answers⟩
  | fails _ hAfter => rw [hAfter]; exact ⟨carries.requests, carries.answers⟩
  | body _ _ hAfter => rw [hAfter]; exact ⟨carries.requests, carries.answers⟩
  | send _ hAfter => rw [hAfter]; exact ⟨carries.requests, carries.answers⟩
  | sendFails _ _ hAfter => rw [hAfter]; exact ⟨carries.requests, carries.answers⟩

/-- All connections are as before, but for the last one. -/
theorem Carried.conns_last (carried : Carried P s) {d : Conn} (carries : d.Carries P) :
    ∀ c ∈ s.left ++ [d], c.Carries P := by
  intro c hMem
  rcases List.mem_append.mp hMem with hLeft | hLast
  · exact carried.conns c (List.mem_append_left _ hLeft)
  · rw [List.mem_singleton.mp hLast]
    exact carries

theorem Carried.current (carried : Carried P s) {c : Conn} (hConn : s.current = some c) :
    c.Carries P :=
  carried.conns c (mem_conns hConn)

/-- The connection in use is dropped, with other bytes in it. -/
theorem Carried.disconnect (carried : Carried P s) {c d : Conn} (hConn : s.current = some c)
    (hRequests : d.requests = c.requests) (hProcessed : d.processed = c.processed) (req : Json) :
    Carried P (disconnect { s with current := some d } req) where
  conns := by
    have carries : d.Carries P := by
      obtain ⟨requests, answers⟩ := carried.current hConn
      exact ⟨by rwa [hRequests], by rwa [hProcessed]⟩
    intro x hMem
    rw [RpcSession.conns, RpcSession.disconnect, Option.toList_none, List.append_nil] at hMem
    exact carried.conns_last carries x hMem
  sending := fun _ hPoint => by cases hPoint

theorem Carried.step (carried : Carried P s) {move : Move}
    (hStep : step parse str s move = some after) (hMove : move.Carries P) : Carried P after := by
  cases step_cases hStep with
  | @begins req connects c hPoint hConn hAfter =>
      have carries : c.Carries P := by
        rcases hConn with hConn | ⟨-, rfl⟩
        · exact carried.current hConn
        · exact ⟨by simp, by simp⟩
      rw [hAfter]
      refine ⟨carried.conns_last carries, fun other hSend => ?_⟩
      cases hSend
      exact hMove
  | refused hPoint hConn hAfter =>
      rw [hAfter]
      exact ⟨carried.conns, carried.sending⟩
  | @sent req c hPoint hConn hAfter =>
      rw [hAfter]
      refine ⟨carried.conns_last ⟨fun r hMem => ?_, (carried.current hConn).answers⟩, by simp⟩
      rcases List.mem_append.mp hMem with hOld | hNew
      · exact (carried.current hConn).requests r hOld
      · rw [List.mem_singleton.mp hNew]
        exact carried.sending req hPoint
  | sendFailed hPoint hConn hSent hAfter =>
      rw [hAfter]
      refine carried.disconnect hConn ?_ ?_ _
      · rfl
      · rfl
  | @header req c n hPoint hConn hLength hHeader hAfter =>
      have carries := carried.current hConn
      rw [hAfter]
      split_ifs
      · exact ⟨carried.conns_last ⟨carries.requests, carries.answers⟩, by simp⟩
      · exact ⟨carried.conns_last ⟨carries.requests, carries.answers⟩, by simp⟩
  | refusedHeader hPoint hConn hLength hAfter =>
      rw [hAfter]
      refine carried.disconnect hConn ?_ ?_ _
      · rfl
      · rfl
  | answered hPoint hConn hLength hAfter =>
      have carries := carried.current hConn
      rw [hAfter]
      exact ⟨carried.conns_last ⟨carries.requests, carries.answers⟩, by simp⟩
  | notJson hPoint hConn hLength hAfter =>
      rw [hAfter]
      refine carried.disconnect hConn ?_ ?_ _
      · rfl
      · rfl
  | fails hPoint hAfter =>
      rw [hAfter]
      refine ⟨fun c hMem => carried.conns c ?_, by simp [RpcSession.disconnect]⟩
      rwa [RpcSession.conns, RpcSession.disconnect, Option.toList_none, List.append_nil] at hMem
  | @serverLeft k c d move hConn hServer hAfter =>
      obtain ⟨hInside, hAt⟩ := List.getElem?_eq_some_iff.mp hConn
      have carries : d.Carries P := by
        refine (serverStep_cases hServer).carries
          (carried.conns c (List.mem_append_left _ (hAt ▸ List.getElem_mem hInside))) ?_
        intro res hProcess
        rw [hProcess] at hMove
        exact hMove
      rw [hAfter]
      refine ⟨fun x hMem => ?_, carried.sending⟩
      rcases List.mem_append.mp hMem with hLeft | hNow
      · rcases List.mem_or_eq_of_mem_set hLeft with hOld | rfl
        · exact carried.conns x (List.mem_append_left _ hOld)
        · exact carries
      · exact carried.conns x (List.mem_append_right _ hNow)
  | @serverCurrent c d move hConn hServer hAfter =>
      have carries : d.Carries P := by
        refine (serverStep_cases hServer).carries (carried.current hConn) ?_
        intro res hProcess
        rw [hProcess] at hMove
        exact hMove
      rw [hAfter]
      exact ⟨carried.conns_last carries, carried.sending⟩

end Carried

section Texts

variable (doubles : CoJson.Doubles)

variable {doubles}

end Texts

end Hengda.RpcSession

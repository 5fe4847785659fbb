import Mathlib.Data.List.Basic

/-! Messages of numbered sessions on one channel. A session is a run of ordinary
messages and, once it is over, a message that ends it. A log keeps the protocol
if its sessions follow one another and only the newest one may still be open. -/
namespace Sessions

variable {Message : Type*} (isLast : Message → Bool)

/-- The messages of session `k`, oldest first. -/
def session (log : List (Nat × Message)) (k : Nat) : List Message :=
  (log.filter (fun entry => entry.1 = k)).map Prod.snd

def Open (messages : List Message) : Prop :=
  ∀ m ∈ messages, isLast m = false

def Closed (messages : List Message) : Prop :=
  ∃ body final, messages = body ++ [final] ∧ Open isLast body ∧ isLast final = true

/-- `n` sessions have been begun. -/
structure Protocol (n : Nat) (log : List (Nat × Message)) : Prop where
  known : ∀ entry ∈ log, entry.1 < n
  concat : log.map Prod.snd = (List.range n).flatMap (session log)
  shape : ∀ k, Open isLast (session log k) ∨ Closed isLast (session log k)
  closed : ∀ k, k + 1 < n → Closed isLast (session log k)
  /-- Whatever a session sends comes behind the end of every earlier one. -/
  order : ∀ before k m after j, log = before ++ (k, m) :: after → j < k →
    ∃ final, (j, final) ∈ before ∧ isLast final = true

variable {isLast}

theorem session_concat (log : List (Nat × Message)) (k j : Nat) (m : Message) :
    session (log ++ [(k, m)]) j = session log j ++ if k = j then [m] else [] := by
  unfold session
  rw [List.filter_append, List.map_append]
  by_cases hHere : k = j
  · simp [hHere]
  · simp [hHere]

theorem mem_session {log : List (Nat × Message)} {k : Nat} {m : Message} :
    m ∈ session log k ↔ (k, m) ∈ log := by
  simp [session]

theorem session_eq_nil {log : List (Nat × Message)} {k : Nat}
    (hNone : ∀ entry ∈ log, entry.1 ≠ k) : session log k = [] := by
  rw [session, List.map_eq_nil_iff, List.filter_eq_nil_iff]
  intro entry mem
  simpa using hNone entry mem

theorem Open.concat {messages : List Message} (opened : Open isLast messages) {m : Message}
    (hOrdinary : isLast m = false) : Open isLast (messages ++ [m]) := by
  intro other mem
  rcases List.mem_append.mp mem with mem | mem
  · exact opened other mem
  · rw [List.mem_singleton.mp mem]
    exact hOrdinary

theorem Open.close {messages : List Message} (opened : Open isLast messages) {m : Message}
    (hLast : isLast m = true) : Closed isLast (messages ++ [m]) :=
  ⟨messages, m, rfl, opened, hLast⟩

theorem Protocol.empty : Protocol isLast 0 [] where
  known _ mem := by cases mem
  concat := rfl
  shape _ := Or.inl (fun _ mem => by cases mem)
  closed k hk := by omega
  order before k m after j hSplit := by simp at hSplit

/-- A session may begin once the one before it is over. -/
theorem Protocol.begin {n : Nat} {log : List (Nat × Message)} (protocol : Protocol isLast n log)
    (hOver : ∀ k, k + 1 = n → Closed isLast (session log k)) : Protocol isLast (n + 1) log where
  known entry mem := Nat.lt_succ_of_lt (protocol.known entry mem)
  concat := by
    have hNew : session log n = [] :=
      session_eq_nil (fun entry mem => Nat.ne_of_lt (protocol.known entry mem))
    rw [List.range_succ, List.flatMap_append, ← protocol.concat]
    simp [hNew]
  shape := protocol.shape
  closed k hk := by
    rcases Nat.lt_or_eq_of_le (Nat.le_of_lt_succ hk) with hk | hk
    · exact protocol.closed k hk
    · exact hOver k hk
  order := protocol.order

/-- The newest session sends a message, as long as it is open. -/
theorem Protocol.send {k : Nat} {log : List (Nat × Message)}
    (protocol : Protocol isLast (k + 1) log) (opened : Open isLast (session log k)) (m : Message) :
    Protocol isLast (k + 1) (log ++ [(k, m)]) where
  known entry mem := by
    rcases List.mem_append.mp mem with mem | mem
    · exact protocol.known entry mem
    · rw [List.mem_singleton.mp mem]
      exact Nat.lt_succ_self k
  concat := by
    have hEarlier : (List.range k).flatMap (session (log ++ [(k, m)])) =
        (List.range k).flatMap (session log) := by
      apply List.flatMap_congr
      intro j mem
      have hNe : k ≠ j := Nat.ne_of_gt (List.mem_range.mp mem)
      rw [session_concat, if_neg hNe, List.append_nil]
    have hConcat := protocol.concat
    rw [List.range_succ, List.flatMap_append] at hConcat ⊢
    rw [List.map_append, hConcat, hEarlier, List.append_assoc]
    simp [session_concat]
  shape j := by
    rw [session_concat]
    by_cases hHere : k = j
    · subst hHere
      rw [if_pos rfl]
      cases hLast : isLast m with
      | false => exact Or.inl (opened.concat hLast)
      | true => exact Or.inr (opened.close hLast)
    · rw [if_neg hHere, List.append_nil]
      exact protocol.shape j
  closed j hj := by
    have hNe : k ≠ j := by omega
    rw [session_concat, if_neg hNe, List.append_nil]
    exact protocol.closed j hj
  order before k' m' after j hSplit hLess := by
    rcases List.eq_nil_or_concat after with rfl | ⟨others, final, rfl⟩
    · have hEnd : log ++ [(k, m)] = before ++ [(k', m')] := hSplit
      obtain ⟨hLog, hEntry⟩ := List.append_inj' hEnd rfl
      obtain ⟨rfl, rfl⟩ := Prod.mk.inj (List.cons.inj hEntry).1
      obtain ⟨body, final, hSession, _, hLast⟩ := protocol.closed j (by omega)
      refine ⟨final, ?_, hLast⟩
      rw [← hLog, ← mem_session, hSession]
      simp
    · have hEnd : log ++ [(k, m)] = (before ++ (k', m') :: others) ++ [final] := by
        simpa using hSplit
      exact protocol.order before k' m' others j (List.append_inj' hEnd rfl).1 hLess

end Sessions

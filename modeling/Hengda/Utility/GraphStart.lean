import Hengda.Library.Schedule
import Hengda.Utility.DeServImpl
import Hengda.Utility.GraphConfig
import Mathlib.Logic.Function.Basic
import Mathlib.Data.List.Nodup
import Mathlib.Data.List.TakeWhile

/-! The request that starts the graph of a camera. The handler reads the number
of the next graph when it begins and increments it when it is done, and any
number of requests can be on their way at the same time. -/
namespace Hengda.GraphStart

/-- The two strings of a request that the handler uses, each as `get_string` gives it: up to
its first NUL. -/
structure Task where
  url : String
  ip : String
deriving DecidableEq, Repr

/-- Where a call stands, with the `GRAPH_ID` that it has read and the name of
the file that it has written. -/
inductive Phase
  | entered
  | numbered (graphId : Nat)
  | configured (graphId : Nat) (newConfigFileName : String)
  | created (graphId : Nat)
  | sent (graphId : Nat)
  | mapped (graphId : Nat)
  | returned
deriving DecidableEq, Repr

/-- The members of `DeServImpl`, the files and the calls. `started` has the
calls whose graph was created and got its start message, with the identity of
the graph. -/
structure Server where
  processNum : Nat := 1
  pidMap : String → Option Nat := fun _ => none
  files : String → Option Text := fun _ => none
  phase : Nat → Phase := fun _ => .entered
  started : List (Nat × Nat) := []

/-- The steps of the call with the number `i`. The library decides whether a
graph can be created and whether it is found afterwards. -/
inductive Move
  | readNum (i : Nat)
  | writeConfig (i : Nat)
  | createGraph (i : Nat) (ok : Bool)
  | sendStart (i : Nat) (found : Bool)
  | updatePidMap (i : Nat)
  | increment (i : Nat)
deriving DecidableEq, Repr

def Move.call : Move → Nat
  | .readNum i => i
  | .writeConfig i => i
  | .createGraph i _ => i
  | .sendStart i _ => i
  | .updatePidMap i => i
  | .increment i => i

def Server.setPhase (s : Server) (i : Nat) (phase : Phase) : Server :=
  { s with phase := Function.update s.phase i phase }

@[simp]
theorem Server.setPhase_processNum (s : Server) (i : Nat) (phase : Phase) :
    (s.setPhase i phase).processNum = s.processNum := rfl

variable (config : List Text) (tasks : Nat → Task)

/-- A failure of the library ends the call; the counter keeps its value then,
also if the graph has been created. The name of the new file comes from the
counter, not from the `GRAPH_ID`. -/
def step (s : Server) : Move → Option Server
  | .readNum i =>
      match s.phase i with
      | .entered => some (s.setPhase i (.numbered (100 + s.processNum)))
      | _ => none
  | .writeConfig i =>
      match s.phase i with
      | .numbered graphId =>
          let name := "graph" ++ toString s.processNum ++ ".config"
          let content := rewriteConfig config graphId (tasks i).url (tasks i).ip
          some ({ s with files := Function.update s.files name (some content) }.setPhase i
            (.configured graphId name))
      | _ => none
  | .createGraph i ok =>
      match s.phase i with
      | .configured graphId _ => some (s.setPhase i (if ok then .created graphId else .returned))
      | _ => none
  | .sendStart i found =>
      match s.phase i with
      | .created graphId =>
          if found then
            some ({ s with started := s.started ++ [(i, graphId)] }.setPhase i (.sent graphId))
          else some (s.setPhase i .returned)
      | _ => none
  | .updatePidMap i =>
      match s.phase i with
      | .sent graphId =>
          some ({ s with
            pidMap := Function.update s.pidMap (tasks i).url (some graphId) }.setPhase i
              (.mapped graphId))
      | _ => none
  | .increment i =>
      match s.phase i with
      | .mapped _ => some ({ s with processNum := s.processNum + 1 }.setPhase i .returned)
      | _ => none

/-- A call that no other one interrupts. -/
def served (i : Nat) (created found : Bool) (s : Server) : Server :=
  let graphId := 100 + s.processNum
  let name := "graph" ++ toString s.processNum ++ ".config"
  let content := rewriteConfig config graphId (tasks i).url (tasks i).ip
  let s := { s with files := Function.update s.files name (some content) }.setPhase i .returned
  if created && found then
    { s with
      started := s.started ++ [(i, graphId)]
      pidMap := Function.update s.pidMap (tasks i).url (some graphId)
      processNum := s.processNum + 1 }
  else s

/-- The members of the answer to a request that reaches the library. A failure
leaves it without a code. -/
def taskAnswer (reqId method : Json) (created found : Bool) : List (String × Json) :=
  if created && found then DeServImpl.answer reqId method (.int 200) "200 ok"
  else [("req_id", reqId), ("method", method)]

/-- `set_egbd_task`, or `none` where an assertion of `json::Value` stops the
program. -/
def setEgbdTask (text : JsonText) (req : Json) (i : Nat) (created found : Bool) (s : Server) :
    Option (List (String × Json) × Server) := do
  let reqId ← req.member "req_id"
  let method ← req.member "method"
  let params ← req.member "params"
  if text.str params = [] then
    some (DeServImpl.answer reqId method (.int 400) "400 params not found", s)
  else
    let url ← (← params.member "rtsp_url").getString
    if url = "" then
      some ([("req_id", reqId), ("method", method), ("code", .int 404),
        ("err_msg", .string "400 rtsp_url not found")], s)
    else
      let ip ← (← params.member "ip").getString
      some (taskAnswer reqId method created found,
        served config (fun _ => ⟨url, ip⟩) i created found s)

/-- The counter goes on exactly with the answer 200. -/
theorem setEgbdTask_code_iff {text : JsonText} {req : Json} {i : Nat} {created found : Bool}
    {s after : Server} {res : List (String × Json)}
    (hCall : setEgbdTask config text req i created found s = some (res, after)) :
    lookup .null "code" res = .int 200 ↔ after.processNum = s.processNum + 1 := by
  simp only [setEgbdTask, Option.bind_eq_bind, Option.bind_eq_some_iff] at hCall
  obtain ⟨reqId, -, method, -, params, -, hCall⟩ := hCall
  split_ifs at hCall with hStr
  · cases hCall
    simp
  · obtain ⟨rtsp, -, hCall⟩ := Option.bind_eq_some_iff.mp hCall
    obtain ⟨url, -, hCall⟩ := Option.bind_eq_some_iff.mp hCall
    split_ifs at hCall with hUrl
    · cases hCall
      simp [lookup]
    · obtain ⟨_, -, hCall⟩ := Option.bind_eq_some_iff.mp hCall
      obtain ⟨ip, -, hCall⟩ := Option.bind_eq_some_iff.mp hCall
      cases hCall
      cases hBoth : created && found with
      | true => simp [taskAnswer, served, hBoth]
      | false => simp [taskAnswer, lookup, served, hBoth, Server.setPhase]

/-- The steps that such a call takes. -/
def callMoves (i : Nat) (created found : Bool) : List Move :=
  [.readNum i, .writeConfig i, .createGraph i created] ++
    if created then
      .sendStart i found :: if found then [.updatePidMap i, .increment i] else []
    else []

theorem run_callMoves {s : Server} {i : Nat} (hPhase : s.phase i = .entered)
    (created found : Bool) :
    Schedule.run (step config tasks) s (callMoves i created found) =
      some (served config tasks i created found s) := by
  cases created with
  | false => simp [callMoves, step, hPhase, Server.setPhase, served]
  | true =>
      cases found with
      | false => simp [callMoves, step, hPhase, Server.setPhase, served]
      | true => simp [callMoves, step, hPhase, Server.setPhase, served]

/-- All that a move can do. -/
inductive Effect (s : Server) : Move → Server → Prop
  | readNum {i : Nat} (hPhase : s.phase i = .entered) :
      Effect s (.readNum i) (s.setPhase i (.numbered (100 + s.processNum)))
  | writeConfig {i graphId : Nat} {name : String} {content : Option Text}
      (hPhase : s.phase i = .numbered graphId) :
      Effect s (.writeConfig i)
        ({ s with files := Function.update s.files name content }.setPhase i
          (.configured graphId name))
  | createGraph {i graphId : Nat} {name : String} (hPhase : s.phase i = .configured graphId name) :
      Effect s (.createGraph i true) (s.setPhase i (.created graphId))
  | createFails {i graphId : Nat} {name : String} (hPhase : s.phase i = .configured graphId name) :
      Effect s (.createGraph i false) (s.setPhase i .returned)
  | sendStart {i graphId : Nat} (hPhase : s.phase i = .created graphId) :
      Effect s (.sendStart i true)
        ({ s with started := s.started ++ [(i, graphId)] }.setPhase i (.sent graphId))
  | notFound {i graphId : Nat} (hPhase : s.phase i = .created graphId) :
      Effect s (.sendStart i false) (s.setPhase i .returned)
  | updatePidMap {i graphId : Nat} (hPhase : s.phase i = .sent graphId) :
      Effect s (.updatePidMap i)
        ({ s with pidMap := Function.update s.pidMap (tasks i).url (some graphId) }.setPhase i
          (.mapped graphId))
  | increment {i graphId : Nat} (hPhase : s.phase i = .mapped graphId) :
      Effect s (.increment i)
        ({ s with processNum := s.processNum + 1 }.setPhase i .returned)

theorem step_effect {s after : Server} {move : Move}
    (hStep : step config tasks s move = some after) : Effect tasks s move after := by
  cases move with
  | readNum i =>
      simp only [step] at hStep
      split at hStep
      · cases hStep
        exact .readNum ‹_›
      · cases hStep
  | writeConfig i =>
      simp only [step] at hStep
      split at hStep
      · cases hStep
        exact .writeConfig ‹_›
      · cases hStep
  | createGraph i ok =>
      simp only [step] at hStep
      split at hStep
      · cases hStep
        cases ok with
        | true => exact .createGraph ‹_›
        | false => exact .createFails ‹_›
      · cases hStep
  | sendStart i found =>
      simp only [step] at hStep
      split at hStep
      · cases found with
        | true =>
            cases hStep
            exact .sendStart ‹_›
        | false =>
            cases hStep
            exact .notFound ‹_›
      · cases hStep
  | updatePidMap i =>
      simp only [step] at hStep
      split at hStep
      · cases hStep
        exact .updatePidMap ‹_›
      · cases hStep
  | increment i =>
      simp only [step] at hStep
      split at hStep
      · cases hStep
        exact .increment ‹_›
      · cases hStep

def Move.isIncrement : Move → Bool
  | .increment _ => true
  | _ => false

/-- Completed increments. -/
def increments (moves : List Move) : Nat :=
  moves.countP Move.isIncrement

/-- Increments that are complete when the call reads the number. -/
def turn (i : Nat) (moves : List Move) : Nat :=
  increments (moves.takeWhile fun move => move ≠ .readNum i)

theorem turn_concat {i : Nat} {moves : List Move} (hRead : .readNum i ∈ moves) (move : Move) :
    turn i (moves ++ [move]) = turn i moves := by
  have hTake : (moves ++ [move]).takeWhile (fun move => move ≠ .readNum i) =
      moves.takeWhile fun move => move ≠ .readNum i := by
    rw [List.takeWhile_append, if_neg]
    intro hLength
    have hAll := List.takeWhile_eq_self_iff.mp
      ((List.takeWhile_prefix _).eq_of_length hLength) _ hRead
    simp at hAll
  rw [turn, turn, hTake]

theorem turn_read {i : Nat} {moves : List Move} (hRead : .readNum i ∉ moves) :
    turn i (moves ++ [Move.readNum i]) = increments moves := by
  have hTake : (moves ++ [Move.readNum i]).takeWhile (fun move => move ≠ .readNum i) = moves := by
    rw [List.takeWhile_append_of_pos]
    · simp
    · intro move mem
      have hNe : move ≠ .readNum i := fun hSame => hRead (hSame ▸ mem)
      simp [hNe]
  rw [turn, hTake]

/-- What the phase of a call says about the moves so far. -/
def PhaseFits (moves : List Move) (i : Nat) : Phase → Prop
  | .entered => .readNum i ∉ moves ∧ .sendStart i true ∉ moves
  | .numbered graphId => .readNum i ∈ moves ∧ graphId = 101 + turn i moves ∧
      .sendStart i true ∉ moves
  | .configured graphId _ => .readNum i ∈ moves ∧ graphId = 101 + turn i moves ∧
      .sendStart i true ∉ moves
  | .created graphId => .readNum i ∈ moves ∧ graphId = 101 + turn i moves ∧
      .sendStart i true ∉ moves
  | .sent graphId => .readNum i ∈ moves ∧ graphId = 101 + turn i moves ∧
      .sendStart i true ∈ moves
  | .mapped graphId => .readNum i ∈ moves ∧ graphId = 101 + turn i moves
  | .returned => .readNum i ∈ moves

/-- The other calls do not notice a move. -/
theorem PhaseFits.frame {moves : List Move} {i : Nat} {phase : Phase}
    (fits : PhaseFits moves i phase) {move : Move} (hOther : move.call ≠ i) :
    PhaseFits (moves ++ [move]) i phase := by
  have hRead : .readNum i ∈ moves ++ [move] ↔ .readNum i ∈ moves := by
    have hNe : .readNum i ≠ move := by
      rintro rfl
      exact hOther rfl
    simp [hNe]
  have hSend : .sendStart i true ∈ moves ++ [move] ↔ .sendStart i true ∈ moves := by
    have hNe : .sendStart i true ≠ move := by
      rintro rfl
      exact hOther rfl
    simp [hNe]
  cases phase with
  | entered => exact ⟨hRead.not.mpr fits.1, hSend.not.mpr fits.2⟩
  | returned => exact hRead.mpr fits
  | sent graphId =>
      exact ⟨hRead.mpr fits.1, by rw [turn_concat fits.1]; exact fits.2.1, hSend.mpr fits.2.2⟩
  | mapped graphId =>
      exact ⟨hRead.mpr fits.1, by rw [turn_concat fits.1]; exact fits.2⟩
  | _ =>
      exact ⟨hRead.mpr fits.1, by rw [turn_concat fits.1]; exact fits.2.1,
        hSend.not.mpr fits.2.2⟩

/-- The server agrees with the moves that have led to it. -/
structure Traced (moves : List Move) (s : Server) : Prop where
  number : s.processNum = 1 + increments moves
  phase : ∀ i, PhaseFits moves i (s.phase i)
  started : ∀ p, p ∈ s.started ↔ .sendStart p.1 true ∈ moves ∧ p.2 = 101 + turn p.1 moves
  once : (s.started.map Prod.fst).Nodup
  entry : ∀ url graphId, s.pidMap url = some graphId →
    ∃ i, (i, graphId) ∈ s.started ∧ (tasks i).url = url
  kept : ∀ p ∈ s.started, s.phase p.1 = .sent p.2 ∨ (s.pidMap (tasks p.1).url).isSome

variable {tasks}

theorem Traced.read_of_send {moves : List Move} {s : Server} (traced : Traced tasks moves s)
    {i : Nat} (hSend : .sendStart i true ∈ moves) : .readNum i ∈ moves := by
  have hFits := traced.phase i
  cases hPhase : s.phase i with
  | entered =>
      rw [hPhase] at hFits
      exact absurd hSend hFits.2
  | returned =>
      rw [hPhase] at hFits
      exact hFits
  | _ =>
      rw [hPhase] at hFits
      exact hFits.1

/-- Moves that start no graph. -/
theorem Traced.started_concat {moves : List Move} {s : Server} (traced : Traced tasks moves s)
    {move : Move} (hMove : ∀ i, move ≠ .sendStart i true) (p : Nat × Nat) :
    p ∈ s.started ↔ .sendStart p.1 true ∈ moves ++ [move] ∧
      p.2 = 101 + turn p.1 (moves ++ [move]) := by
  have hSend : .sendStart p.1 true ∈ moves ++ [move] ↔ .sendStart p.1 true ∈ moves := by
    simp [(hMove p.1).symm]
  rw [traced.started, hSend]
  apply and_congr_right
  intro hMem
  rw [turn_concat (traced.read_of_send hMem)]

theorem increments_concat (moves : List Move) (move : Move) :
    increments (moves ++ [move]) = increments moves + if move.isIncrement then 1 else 0 := by
  simp [increments, List.countP_append, List.countP_cons]

/-- The phases after a move of the call `i`. -/
theorem Traced.phase_setPhase {moves : List Move} {s : Server} (traced : Traced tasks moves s)
    {move : Move} {i : Nat} (hCall : move.call = i) {phase : Phase}
    (hOwn : PhaseFits (moves ++ [move]) i phase) (k : Nat) :
    PhaseFits (moves ++ [move]) k (Function.update s.phase i phase k) := by
  by_cases hOther : k = i
  · rw [hOther, Function.update_self]
    exact hOwn
  · rw [Function.update_of_ne hOther]
    exact (traced.phase k).frame (hCall ▸ Ne.symm hOther)

theorem Traced.kept_setPhase {moves : List Move} {s : Server} (traced : Traced tasks moves s)
    {i : Nat} (hNotSent : ∀ graphId, s.phase i ≠ .sent graphId) (phase : Phase) :
    ∀ p ∈ s.started, Function.update s.phase i phase p.1 = .sent p.2 ∨
      (s.pidMap (tasks p.1).url).isSome := by
  intro p mem
  rcases traced.kept p mem with hSent | hSome
  · have hOther : p.1 ≠ i := by
      rintro rfl
      exact hNotSent _ hSent
    rw [Function.update_of_ne hOther]
    exact Or.inl hSent
  · exact Or.inr hSome

/-- A move that neither starts a graph nor enters one into the map. -/
theorem Traced.quiet {moves : List Move} {s : Server} (traced : Traced tasks moves s)
    {move : Move} (hMove : ∀ i, move ≠ .sendStart i true)
    (hNotSent : ∀ graphId, s.phase move.call ≠ .sent graphId) {phase : Phase}
    (hOwn : PhaseFits (moves ++ [move]) move.call phase) {processNum : Nat}
    (hNumber : processNum = 1 + increments (moves ++ [move])) (files : String → Option Text) :
    Traced tasks (moves ++ [move])
      ({ s with files := files, processNum := processNum }.setPhase move.call phase) where
  number := hNumber
  phase := traced.phase_setPhase rfl hOwn
  started := traced.started_concat hMove
  once := traced.once
  entry := traced.entry
  kept := traced.kept_setPhase hNotSent phase

/-- The calls that have read their number keep it. -/
theorem PhaseFits.read_concat {moves : List Move} {i graphId : Nat}
    (hRead : .readNum i ∈ moves) (hNumber : graphId = 101 + turn i moves) (move : Move) :
    .readNum i ∈ moves ++ [move] ∧ graphId = 101 + turn i (moves ++ [move]) := by
  rw [turn_concat hRead]
  exact ⟨List.mem_append_left _ hRead, hNumber⟩

/-- A graph that is started joins the list. -/
theorem Traced.send {moves : List Move} {s : Server} (traced : Traced tasks moves s)
    {i graphId : Nat} (hPhase : s.phase i = .created graphId) :
    Traced tasks (moves ++ [.sendStart i true])
      ({ s with started := s.started ++ [(i, graphId)] }.setPhase i (.sent graphId)) := by
  have hFits := traced.phase i
  rw [hPhase] at hFits
  obtain ⟨hRead, hId⟩ := PhaseFits.read_concat hFits.1 hFits.2.1 (.sendStart i true)
  have hNew : ∀ p ∈ s.started, p.1 ≠ i := by
    rintro p mem rfl
    exact hFits.2.2 ((traced.started p).mp mem).1
  exact
    { number := by
        change s.processNum = _
        simpa [increments_concat, Move.isIncrement] using traced.number
      phase := traced.phase_setPhase rfl ⟨hRead, hId, by simp [Move.call]⟩
      started := by
        intro p
        change p ∈ s.started ++ [(i, graphId)] ↔ _
        rw [List.mem_append, List.mem_singleton, List.mem_append, List.mem_singleton]
        constructor
        · rintro (mem | rfl)
          · obtain ⟨hSend, hNumber⟩ := (traced.started p).mp mem
            rw [turn_concat (traced.read_of_send hSend)]
            exact ⟨Or.inl hSend, hNumber⟩
          · exact ⟨Or.inr rfl, hId⟩
        · rintro ⟨hSend | hSend, hNumber⟩
          · rw [turn_concat (traced.read_of_send hSend)] at hNumber
            exact Or.inl ((traced.started p).mpr ⟨hSend, hNumber⟩)
          · cases hSend
            rw [← hId] at hNumber
            exact Or.inr (Prod.ext rfl hNumber)
      once := by
        change ((s.started ++ [(i, graphId)]).map Prod.fst).Nodup
        rw [List.map_append, List.map_singleton, List.nodup_append]
        refine ⟨traced.once, List.nodup_singleton _, ?_⟩
        intro a hA b hB
        obtain ⟨p, mem, rfl⟩ := List.mem_map.mp hA
        rw [List.mem_singleton.mp hB]
        exact hNew p mem
      entry := by
        intro url id hEntry
        obtain ⟨k, mem, hUrl⟩ := traced.entry url id hEntry
        exact ⟨k, List.mem_append_left _ mem, hUrl⟩
      kept := by
        intro p mem
        rcases List.mem_append.mp mem with mem | mem
        · exact traced.kept_setPhase (by simp [hPhase]) _ p mem
        · rw [List.mem_singleton.mp mem]
          exact Or.inl (Function.update_self ..) }

/-- The map gets an entry for a graph that has been started. -/
theorem Traced.map {moves : List Move} {s : Server} (traced : Traced tasks moves s)
    {i graphId : Nat} (hPhase : s.phase i = .sent graphId) :
    Traced tasks (moves ++ [.updatePidMap i])
      ({ s with pidMap := Function.update s.pidMap (tasks i).url (some graphId) }.setPhase i
        (.mapped graphId)) := by
  have hFits := traced.phase i
  rw [hPhase] at hFits
  exact
    { number := by
        change s.processNum = _
        simpa [increments_concat, Move.isIncrement] using traced.number
      phase := traced.phase_setPhase rfl (PhaseFits.read_concat hFits.1 hFits.2.1 _)
      started := traced.started_concat (by simp)
      once := traced.once
      entry := by
        intro url id hEntry
        change Function.update s.pidMap (tasks i).url (some graphId) url = some id at hEntry
        by_cases hUrl : url = (tasks i).url
        · rw [hUrl, Function.update_self, Option.some.injEq] at hEntry
          rw [← hEntry]
          exact ⟨i, (traced.started (i, graphId)).mpr ⟨hFits.2.2, hFits.2.1⟩, hUrl.symm⟩
        · rw [Function.update_of_ne hUrl] at hEntry
          exact traced.entry url id hEntry
      kept := by
        intro p mem
        change Function.update s.phase i (.mapped graphId) p.1 = _ ∨
          (Function.update s.pidMap (tasks i).url (some graphId) (tasks p.1).url).isSome
        by_cases hUrl : (tasks p.1).url = (tasks i).url
        · rw [hUrl, Function.update_self]
          exact Or.inr rfl
        · have hOther : p.1 ≠ i := by
            rintro rfl
            exact hUrl rfl
          rw [Function.update_of_ne hUrl, Function.update_of_ne hOther]
          exact traced.kept p mem }

theorem Traced.next {moves : List Move} {s after : Server} {move : Move}
    (traced : Traced tasks moves s) (effect : Effect tasks s move after) :
    Traced tasks (moves ++ [move]) after := by
  have hFits := traced.phase move.call
  have hNumber := traced.number
  cases effect with
  | @readNum i hPhase =>
      rw [Move.call, hPhase] at hFits
      apply traced.quiet (by simp) (by simp [Move.call, hPhase])
      · refine ⟨by simp [Move.call], ?_, by simpa [Move.call] using hFits.2⟩
        rw [Move.call, turn_read hFits.1, hNumber]
        omega
      · simpa [increments_concat, Move.isIncrement] using hNumber
  | @writeConfig i graphId name content hPhase =>
      rw [Move.call, hPhase] at hFits
      obtain ⟨hRead, hId⟩ := PhaseFits.read_concat hFits.1 hFits.2.1 (.writeConfig i)
      apply traced.quiet (by simp) (by simp [Move.call, hPhase])
      · exact ⟨hRead, hId, by simpa [Move.call] using hFits.2.2⟩
      · simpa [increments_concat, Move.isIncrement] using hNumber
  | @createGraph i graphId name hPhase =>
      rw [Move.call, hPhase] at hFits
      obtain ⟨hRead, hId⟩ := PhaseFits.read_concat hFits.1 hFits.2.1 (.createGraph i true)
      apply traced.quiet (by simp) (by simp [Move.call, hPhase])
      · exact ⟨hRead, hId, by simpa [Move.call] using hFits.2.2⟩
      · simpa [increments_concat, Move.isIncrement] using hNumber
  | @createFails i graphId name hPhase =>
      rw [Move.call, hPhase] at hFits
      apply traced.quiet (by simp) (by simp [Move.call, hPhase])
      · exact List.mem_append_left _ hFits.1
      · simpa [increments_concat, Move.isIncrement] using hNumber
  | @sendStart i graphId hPhase => exact traced.send hPhase
  | @notFound i graphId hPhase =>
      rw [Move.call, hPhase] at hFits
      apply traced.quiet (by simp) (by simp [Move.call, hPhase])
      · exact List.mem_append_left _ hFits.1
      · simpa [increments_concat, Move.isIncrement] using hNumber
  | @updatePidMap i graphId hPhase => exact traced.map hPhase
  | @increment i graphId hPhase =>
      rw [Move.call, hPhase] at hFits
      apply traced.quiet (by simp) (by simp [Move.call, hPhase])
      · exact List.mem_append_left _ hFits.1
      · rw [increments_concat, hNumber]
        simp [Move.isIncrement]
        omega

variable (tasks)

/-- Every run of the server is traced. -/
theorem traced_run {moves : List Move} {s : Server}
    (hRun : Schedule.run (step config tasks) {} moves = some s) : Traced tasks moves s := by
  apply Schedule.run_rule _ _ hRun
  · exact
      { number := rfl
        phase := fun i => ⟨by simp, by simp⟩
        started := by simp
        once := List.nodup_nil
        entry := by simp
        kept := by simp }
  · intro past before move after traced hStep
    exact traced.next (step_effect config tasks hStep)

/-- No call is on its way. -/
def Quiet (s : Server) : Prop :=
  ∀ i, s.phase i = .entered ∨ s.phase i = .returned

/-- The graphs that have been started have identities of their own, and all of
them can be found. -/
def Addressable (s : Server) : Prop :=
  (s.started.map Prod.snd).Nodup ∧ ∀ p ∈ s.started, ∃ url, s.pidMap url = some p.2

/-- Two requests that start a graph have different addresses, and the counter
is incremented between their readings of it. -/
def Apart (moves : List Move) : Prop :=
  ∀ i j, .sendStart i true ∈ moves → .sendStart j true ∈ moves → i ≠ j →
    (tasks i).url ≠ (tasks j).url ∧ turn i moves ≠ turn j moves

/-- At the end of a run all started graphs can be addressed exactly if no two
of them share an address or a reading of the counter. -/
theorem addressable_iff {moves : List Move} {s : Server}
    (hRun : Schedule.run (step config tasks) {} moves = some s) (hQuiet : Quiet s) :
    Addressable s ↔ Apart tasks moves := by
  have traced := traced_run config tasks hRun
  constructor
  · rintro ⟨hDistinct, hFound⟩ i j hI hJ hOther
    have hMemI := (traced.started (i, 101 + turn i moves)).mpr ⟨hI, rfl⟩
    have hMemJ := (traced.started (j, 101 + turn j moves)).mpr ⟨hJ, rfl⟩
    have hTurns : turn i moves ≠ turn j moves := by
      intro hSame
      have hEq := List.inj_on_of_nodup_map hDistinct hMemI hMemJ (by simp [hSame])
      exact hOther (Prod.mk.inj hEq).1
    refine ⟨?_, hTurns⟩
    intro hUrl
    have hOwn : ∀ k, (k, 101 + turn k moves) ∈ s.started →
        s.pidMap (tasks k).url = some (101 + turn k moves) := by
      intro k mem
      obtain ⟨url, hEntry⟩ := hFound _ mem
      obtain ⟨k', mem', hUrl'⟩ := traced.entry url _ hEntry
      have hEq := List.inj_on_of_nodup_map hDistinct mem' mem rfl
      rw [(Prod.mk.inj hEq).1] at hUrl'
      rw [hUrl']
      exact hEntry
    have hSame := (hOwn i hMemI).symm.trans ((congrArg s.pidMap hUrl).trans (hOwn j hMemJ))
    rw [Option.some.injEq] at hSame
    exact hTurns (by omega)
  · intro hApart
    constructor
    · refine List.Nodup.map_on ?_ (List.Nodup.of_map _ traced.once)
      intro p hP q hQ hSame
      obtain ⟨hSendP, hNumberP⟩ := (traced.started p).mp hP
      obtain ⟨hSendQ, hNumberQ⟩ := (traced.started q).mp hQ
      by_contra hNe
      have hCall : p.1 ≠ q.1 := fun hCall => hNe (Prod.ext hCall hSame)
      have hTurn := (hApart p.1 q.1 hSendP hSendQ hCall).2
      omega
    · intro p mem
      have hEntry : (s.pidMap (tasks p.1).url).isSome := by
        rcases traced.kept p mem with hSent | hSome
        · rcases hQuiet p.1 with hPhase | hPhase <;> rw [hPhase] at hSent <;> cases hSent
        · exact hSome
      obtain ⟨graphId, hGraph⟩ := Option.isSome_iff_exists.mp hEntry
      obtain ⟨k, mem', hUrl⟩ := traced.entry _ _ hGraph
      refine ⟨(tasks p.1).url, ?_⟩
      have hSame : k = p.1 := by
        by_contra hOther
        exact
          (hApart k p.1 ((traced.started _).mp mem').1 ((traced.started _).mp mem).1 hOther).1 hUrl
      subst hSame
      have hNumber : graphId = p.2 :=
        ((traced.started _).mp mem').2.trans ((traced.started p).mp mem).2.symm
      rw [hGraph, hNumber]

theorem Quiet.served {s : Server} (quiet : Quiet s) (i : Nat) (created found : Bool) :
    Quiet (served config tasks i created found s) := by
  have hPhase : (GraphStart.served config tasks i created found s).phase =
      Function.update s.phase i .returned := by
    rw [GraphStart.served]
    split_ifs <;> rfl
  intro k
  rw [hPhase]
  by_cases hCall : k = i
  · rw [hCall, Function.update_self]
    exact Or.inr rfl
  · rw [Function.update_of_ne hCall]
    exact quiet k

theorem quiet_start : Quiet {} := fun _ => Or.inl rfl

/-- Two requests, one after the other. -/
theorem run_two :
    Schedule.run (step config tasks) {} (callMoves 0 true true ++ callMoves 1 true true) =
      some (served config tasks 1 true true (served config tasks 0 true true {})) := by
  rw [Schedule.run_append, run_callMoves _ _ rfl, Option.bind_some, run_callMoves _ _ rfl]

theorem addressable_iff_sample :
    Addressable (served graphConfig (fun i => ⟨toString i, "cam"⟩) 1 true true
        (served graphConfig (fun i => ⟨toString i, "cam"⟩) 0 true true {})) ↔
      Apart (fun i => ⟨toString i, "cam"⟩) (callMoves 0 true true ++ callMoves 1 true true) :=
  addressable_iff graphConfig (fun i => ⟨toString i, "cam"⟩) (run_two _ _)
    ((quiet_start.served _ _ 0 true true).served _ _ 1 true true)

/-- The same camera is started twice: the first graph runs on, and nothing
leads to it. -/
theorem same_address :
    ¬ ∀ s, Schedule.run (step graphConfig fun _ => ⟨"rtsp://camera", "cam"⟩) {}
      (callMoves 0 true true ++ callMoves 1 true true) = some s → Quiet s → Addressable s := by
  intro hAll
  obtain ⟨_, hFound⟩ := hAll _ (run_two _ _)
    ((quiet_start.served _ _ 0 true true).served _ _ 1 true true)
  obtain ⟨url, hEntry⟩ := hFound (0, 101) (by simp [served, Server.setPhase])
  change Function.update (Function.update (fun _ => none) "rtsp://camera" (some 101))
    "rtsp://camera" (some 102) url = some 101 at hEntry
  by_cases hUrl : url = "rtsp://camera"
  · simp [hUrl] at hEntry
  · simp [hUrl] at hEntry

end Hengda.GraphStart

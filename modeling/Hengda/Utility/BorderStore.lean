import Hengda.Library.Schedule
import Hengda.Utility.DeServImpl

/-! The border files over whole runs of the server, with json11 as it is. Seen through
`load` the files are a map from cameras to borders: a request that is answered with 200
and whose text reaches the file as a whole sets the borders of its camera, one whose
text breaks off leaves the camera without borders, and nothing else has an effect. -/
namespace Hengda.BorderStore

open Json11

variable (printed : CoJson.Doubles) (doubles : Doubles)

/-- A request that the server works on, or a load of the borders of a camera. -/
inductive Event
  | update (req : Json) (outcome : WriteOutcome)
  | load (ip : String)

/-- The server stops with an assertion where there is no next state. -/
def step (s : BordersLoader) : Event → Option BordersLoader
  | .update req outcome =>
      (DeServImpl.setBorderInfo (libraries printed doubles) req outcome s).map Prod.snd
  | .load ip => some (s.load (libraries printed doubles) (ip ++ ".json")).2

/-- The borders of every camera, as `load` gives them to the detector. -/
def inForce (s : BordersLoader) (ip : String) : List Border :=
  (s.load (libraries printed doubles) (ip ++ ".json")).1

/-- What json11 makes of the text that the RPC library prints. -/
def received (info : Json) : Except Text Json11 :=
  Json11.parse doubles (cString (CoJson.str printed info))

/-- The camera and the borders that a request is about, once they have been read. -/
def requested (req : Json) : Option (String × Json11) := do
  let params ← req.member "params"
  let info ← params.member "info"
  let ip ← (← params.member "ip").getString
  (received printed doubles info).toOption.map fun borders => (ip, borders)

/-- The effect of an event on the map from cameras to borders. -/
def effect (store : String → List Border) : Event → String → List Border
  | .load _ => store
  | .update req outcome =>
      match requested printed doubles req, outcome with
      | some (ip, borders), .written n =>
          Function.update store ip
            (if (dump doubles borders).length ≤ n then borders.toBorders else [])
      | _, _ => store

/-- All numbers of the borders that a request is about are in the range of `double`. -/
def InRange : Event → Prop
  | .load _ => True
  | .update req _ => ∀ ip borders, requested printed doubles req = some (ip, borders) →
      borders.finite = true

variable {printed doubles}

theorem inForce_eq_of_file {s t : BordersLoader} {ip : String}
    (hFile : s.files (ip ++ ".json") = t.files (ip ++ ".json")) :
    inForce printed doubles s ip = inForce printed doubles t ip := by
  rw [inForce, inForce, BordersLoader.load, BordersLoader.load, hFile]

theorem filename_injective {ip other : String} (hSame : ip ++ ".json" = other ++ ".json") :
    ip = other := by
  have hText := congrArg String.toList hSame
  rw [String.toList_append, String.toList_append] at hText
  exact String.toList_inj.mp (List.append_cancel_right hText)

/-- A request whose borders have been read is saved; with any other one the files stay as
they are. -/
theorem step_update {req : Json} {outcome : WriteOutcome} {s after : BordersLoader}
    (hStep : step printed doubles s (.update req outcome) = some after) :
    (∃ ip borders, requested printed doubles req = some (ip, borders) ∧
      after = s.save (libraries printed doubles) borders (ip ++ ".json") outcome) ∨
      requested printed doubles req = none ∧ after = s := by
  simp only [step, DeServImpl.setBorderInfo, Option.map_eq_some_iff] at hStep
  obtain ⟨⟨res, last⟩, hAnswer, rfl⟩ := hStep
  simp only [Option.bind_eq_bind, Option.bind_eq_some_iff] at hAnswer
  obtain ⟨reqId, -, method, -, params, hParams, info, hInfo, value, hMember, ip, hIp, hAnswer⟩ :=
    hAnswer
  have hRequested : requested printed doubles req =
      (received printed doubles info).toOption.map fun borders => (ip, borders) := by
    simp [requested, hParams, hInfo, hMember, hIp]
  rw [hRequested]
  cases hRead : received printed doubles info with
  | error err =>
      have hParse : (libraries printed doubles).parse
          (cString ((libraries printed doubles).str info)) = .error err := hRead
      rw [hParse] at hAnswer
      cases hAnswer
      exact Or.inr ⟨rfl, rfl⟩
  | ok borders =>
      have hParse : (libraries printed doubles).parse
          (cString ((libraries printed doubles).str info)) = .ok borders := hRead
      rw [hParse] at hAnswer
      cases hAnswer
      exact Or.inl ⟨ip, borders, rfl, rfl⟩

theorem document_of_requested {req : Json} {ip : String} {borders : Json11}
    (hRequested : requested printed doubles req = some (ip, borders)) :
    ∃ info, document doubles (cString (CoJson.str printed info)) = .ok borders := by
  simp only [requested, Option.bind_eq_bind, Option.bind_eq_some_iff,
    Option.map_eq_some_iff] at hRequested
  obtain ⟨_, _, info, _, _, _, _, _, _, hRead, hPair⟩ := hRequested
  cases hPair
  refine ⟨info, parse_eq_ok.mp ?_⟩
  cases hParse : received printed doubles info with
  | error err =>
      rw [hParse] at hRead
      cases hRead
  | ok v =>
      rw [hParse] at hRead
      cases hRead
      exact hParse

theorem inForce_save_other {borders : Json11} {ip other : String} (hOther : other ≠ ip)
    (outcome : WriteOutcome) (s : BordersLoader) :
    inForce printed doubles
        (s.save (libraries printed doubles) borders (ip ++ ".json") outcome) other =
      inForce printed doubles s other := by
  refine inForce_eq_of_file ?_
  cases outcome with
  | openFails => rfl
  | written n => exact Function.update_of_ne (fun hSame => hOther (filename_injective hSame)) ..

/-- One event changes what is in force as the map says. -/
theorem inForce_step (lawful : doubles.Lawful) {s after : BordersLoader} {event : Event}
    (hRange : InRange printed doubles event) (hStep : step printed doubles s event = some after) :
    inForce printed doubles after = effect printed doubles (inForce printed doubles s) event := by
  cases event with
  | load ip =>
      cases hStep
      rfl
  | update req outcome =>
      rcases step_update hStep with ⟨ip, borders, hRequested, rfl⟩ | ⟨hNone, rfl⟩
      · have hFinite := hRange ip borders hRequested
        obtain ⟨info, hRead⟩ := document_of_requested hRequested
        cases outcome with
        | openFails =>
            simp only [effect, hRequested]
            rfl
        | written n =>
            simp only [effect, hRequested]
            funext other
            by_cases hSame : other = ip
            · rw [hSame, Function.update_self]
              exact load_saved lawful hRead hFinite _ n s
            · rw [Function.update_of_ne hSame]
              exact inForce_save_other hSame _ s
      · simp only [effect, hNone]

/-- Over every run of requests and loads the files are a map from cameras to borders. -/
theorem inForce_run (lawful : doubles.Lawful) {start after : BordersLoader} {events : List Event}
    (hRange : ∀ event ∈ events, InRange printed doubles event)
    (hRun : Schedule.run (step printed doubles) start events = some after) :
    inForce printed doubles after =
      events.foldl (effect printed doubles) (inForce printed doubles start) := by
  induction events generalizing start with
  | nil =>
      cases hRun
      rfl
  | cons event rest ih =>
      rw [Schedule.run_cons, Option.bind_eq_some_iff] at hRun
      obtain ⟨middle, hStep, hRest⟩ := hRun
      obtain ⟨hFirst, hRange⟩ := List.forall_mem_cons.mp hRange
      rw [List.foldl_cons, ← inForce_step lawful hFirst hStep]
      exact ih hRange hRest

section Sample

/-- A request whose text reaches the file, a load, and a request whose text breaks off. -/
def sampleEvents : List Event :=
  [.update DeServImpl.sampleRequest (.written 50), .load "cam",
    .update DeServImpl.sampleRequest (.written 7)]

def sampleRun : Option BordersLoader :=
  Schedule.run (step CoJson.sampleDoubles wholeDoubles) {} sampleEvents

theorem sampleRun_isSome : sampleRun.isSome = true := by
  decide +kernel

theorem sample_inRange :
    ∀ event ∈ sampleEvents, InRange CoJson.sampleDoubles wholeDoubles event := by
  have hFinite : ((requested CoJson.sampleDoubles wholeDoubles DeServImpl.sampleRequest).elim true
      fun p => p.2.finite) = true := by
    decide +kernel
  have hUpdate : ∀ outcome,
      InRange CoJson.sampleDoubles wholeDoubles (.update DeServImpl.sampleRequest outcome) := by
    intro outcome ip borders hRequested
    rw [hRequested] at hFinite
    exact hFinite
  simp only [sampleEvents, List.forall_mem_cons]
  exact ⟨hUpdate _, trivial, hUpdate _, List.forall_mem_nil _⟩

theorem inForce_run_sample :
    inForce CoJson.sampleDoubles wholeDoubles (sampleRun.get sampleRun_isSome) =
      sampleEvents.foldl (effect CoJson.sampleDoubles wholeDoubles)
        (inForce CoJson.sampleDoubles wholeDoubles {}) :=
  inForce_run wholeDoubles_lawful sample_inRange (Option.some_get sampleRun_isSome).symm

end Sample

end Hengda.BorderStore

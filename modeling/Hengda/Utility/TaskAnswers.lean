import Hengda.Common.StreamData
import Hengda.Utility.GraphStart

/-! The exits of `set_egbd_task`. Both the handler and `HIAI_InitAndStartGraph` look
the graph up, and what each exit leaves in the answer is not the same. -/
namespace Hengda.GraphStart

/-- What the file system and the library do in the course of one request. The first
instance is that of `HIAI_InitAndStartGraph`, the second one that of the handler. -/
structure Outcomes where
  configOpens : Bool
  newConfig : WriteOutcome
  createGraph : Status
  firstInstance : Bool
  secondInstance : Bool
  sendData : Status
deriving DecidableEq, Repr

/-- What a request asks of the library. -/
inductive GraphCall
  | createGraph (configFile : String) (result : Status)
  | setDataRecvFunctor (graphId : Nat)
  | sendData (graphId : Nat) (result : Status)
deriving DecidableEq, Repr

/-- The status of `HIAI_Init` is overwritten at once. Where the graph is not found, the
status of its creation is returned, and that is `HIAI_OK`. -/
def hiaiInitAndStartGraph (o : Outcomes) (configFile : String) (graphId : Nat) :
    Status × List GraphCall :=
  let status := o.createGraph
  if status ≠ .ok then (status, [.createGraph configFile status])
  else if o.firstInstance = false then (status, [.createGraph configFile status])
  else (.ok, [.createGraph configFile status, .setDataRecvFunctor graphId])

/-- The two streams are only tested in part: without a template nothing is copied, and
what is put into a stream that is not open is dropped. -/
def writeNewConfig (config : List Text) (o : Outcomes) (task : Task) (graphId : Nat)
    (newConfigFileName : String) (s : Server) : Server :=
  let content := rewriteConfig (if o.configOpens then config else []) graphId task.url task.ip
  match o.newConfig with
  | .openFails => s
  | .written n =>
      { s with files := Function.update s.files newConfigFileName (some (content.take n)) }

/-- The answer, the server afterwards and the calls of the library. -/
structure TaskResult where
  res : List (String × Json)
  server : Server
  calls : List GraphCall

/-- The handler behind its checks of the parameters. -/
def startTask (config : List Text) (reqId method : Json) (task : Task) (i : Nat) (o : Outcomes)
    (s : Server) : TaskResult :=
  let graphId := 100 + s.processNum
  let newConfigFileName := "graph" ++ toString s.processNum ++ ".config"
  let s := (writeNewConfig config o task graphId newConfigFileName s).setPhase i .returned
  let started := hiaiInitAndStartGraph o newConfigFileName graphId
  if started.1 ≠ .ok then ⟨[("req_id", reqId), ("method", method)], s, started.2⟩
  else if o.secondInstance = false then
    ⟨[("req_id", reqId), ("method", method)], s, started.2⟩
  else
    { res := DeServImpl.answer reqId method (.int 200) "200 ok"
      server := { s with
        started := s.started ++ [(i, graphId)]
        pidMap := Function.update s.pidMap task.url (some graphId)
        processNum := s.processNum + 1 }
      calls := started.2 ++ [.sendData graphId o.sendData] }

/-- `set_egbd_task` with every outcome of what it calls. -/
def answerTask (text : JsonText) (config : List Text) (req : Json) (i : Nat) (o : Outcomes)
    (s : Server) : Option TaskResult := do
  let reqId ← req.member "req_id"
  let method ← req.member "method"
  let params ← req.member "params"
  if text.str params = [] then
    some ⟨DeServImpl.answer reqId method (.int 400) "400 params not found", s, []⟩
  else
    let url ← (← params.member "rtsp_url").getString
    if url = "" then
      some ⟨[("req_id", reqId), ("method", method), ("code", .int 404),
        ("err_msg", .string "400 rtsp_url not found")], s, []⟩
    else
      let ip ← (← params.member "ip").getString
      some (startTask config reqId method ⟨url, ip⟩ i o s)

/-- A request that names a stream and a camera, by strings that are read as `url` and `ip`. -/
structure TaskRequest (req params : Json) (url ip : String) : Prop where
  hasParams : req.member "params" = some params
  hasUrl : ∃ v, params.member "rtsp_url" = some v ∧ v.getString = some url
  hasIp : ∃ v, params.member "ip" = some v ∧ v.getString = some ip

variable {text : JsonText} {config : List Text} {req params : Json} {url ip : String}
  {i : Nat} {o : Outcomes} {s : Server}

/-- Such a request comes to one of the exits. -/
theorem answerTask_eq (request : TaskRequest req params url ip) :
    ∃ reqId method, answerTask text config req i o s = some
      (if text.str params = [] then
        ⟨DeServImpl.answer reqId method (.int 400) "400 params not found", s, []⟩
      else if url = "" then
        ⟨[("req_id", reqId), ("method", method), ("code", .int 404),
          ("err_msg", .string "400 rtsp_url not found")], s, []⟩
      else startTask config reqId method ⟨url, ip⟩ i o s) := by
  obtain ⟨hParams, ⟨urlValue, hUrlMember, hUrl⟩, ⟨ipValue, hIpMember, hIp⟩⟩ := request
  obtain ⟨reqId, hReqId⟩ := Json.member_total hParams "req_id"
  obtain ⟨method, hMethod⟩ := Json.member_total hParams "method"
  refine ⟨reqId, method, ?_⟩
  simp only [answerTask, hReqId, hMethod, hParams, hUrlMember, hUrl, hIpMember, hIp,
    Option.bind_eq_bind, Option.bind_some]
  split_ifs <;> rfl

/-- The start message was sent to the graph that was created, which is the one whose
number is in the name of its file. `counts` tells for which results of `SendData` the
message was sent. -/
def StartSent (counts : Status → Bool) (calls : List GraphCall) : Prop :=
  ∃ num result, .createGraph ("graph" ++ toString num ++ ".config") .ok ∈ calls ∧
    .sendData (100 + num) result ∈ calls ∧ counts result = true

/-- The answer is complete and says what has become of the request. -/
structure TaskAnswered (counts : Status → Bool) (before : Server) (r : TaskResult) : Prop where
  reqId : ∃ v, ("req_id", v) ∈ r.res
  method : ∃ v, ("method", v) ∈ r.res
  code : ∃ n v, r.res.filter (fun m => m.1 = "code") = [("code", v)] ∧ v = .int n
  sent : lookup .null "code" r.res = .int 200 ↔ StartSent counts r.calls
  unchanged : lookup .null "code" r.res ≠ .int 200 →
    r.server.processNum = before.processNum ∧ r.server.pidMap = before.pidMap

theorem writeNewConfig_frame (config : List Text) (o : Outcomes) (task : Task) (graphId : Nat)
    (name : String) (s : Server) :
    (writeNewConfig config o task graphId name s).processNum = s.processNum ∧
      (writeNewConfig config o task graphId name s).pidMap = s.pidMap := by
  unfold writeNewConfig
  cases o.newConfig <;> exact ⟨rfl, rfl⟩

/-- A graph that is not found does not change the status. -/
theorem hiaiInitAndStartGraph_status (configFile : String) (graphId : Nat) :
    (hiaiInitAndStartGraph o configFile graphId).1 = o.createGraph := by
  unfold hiaiInitAndStartGraph
  dsimp only
  split_ifs with hFailed
  · rfl
  · rfl
  · exact (not_not.mp hFailed).symm

theorem hiaiInitAndStartGraph_calls (configFile : String) (graphId : Nat) :
    .createGraph configFile o.createGraph ∈ (hiaiInitAndStartGraph o configFile graphId).2 ∧
      ∀ id result, .sendData id result ∉ (hiaiInitAndStartGraph o configFile graphId).2 := by
  unfold hiaiInitAndStartGraph
  dsimp only
  split_ifs
  · simp
  · simp
  · simp

variable {counts : Status → Bool} {reqId method : Json}

/-- The two exits in front of the library. -/
theorem taskAnswered_of_refused {n : Int} {key : String} {message : Json} (hCode : n ≠ 200)
    (hKey : key ≠ "code") :
    TaskAnswered counts s
      ⟨[("req_id", reqId), ("method", method), ("code", .int n), (key, message)], s, []⟩ where
  reqId := ⟨reqId, by simp⟩
  method := ⟨method, by simp⟩
  code := ⟨n, _, by simp [hKey], rfl⟩
  sent := by
    apply iff_of_false
    · simpa [lookup] using hCode
    · rintro ⟨num, result, mem, _⟩
      cases mem
  unchanged _ := ⟨rfl, rfl⟩

/-- An exit that adds nothing to the answer breaks the promise of a code. -/
theorem not_taskAnswered_of_silent {after : Server} {calls : List GraphCall} :
    ¬ TaskAnswered counts s ⟨[("req_id", reqId), ("method", method)], after, calls⟩ := by
  intro hAnswered
  obtain ⟨n, v, hOnly, _⟩ := hAnswered.code
  simp at hOnly

/-- Behind the library, the start message is the only one that is sent. -/
theorem startSent_iff (counts : Status → Bool) (num : Nat) (hCreated : o.createGraph = .ok) :
    StartSent counts ((hiaiInitAndStartGraph o
        ("graph" ++ toString num ++ ".config") (100 + num)).2 ++
          [.sendData (100 + num) o.sendData]) ↔ counts o.sendData = true := by
  obtain ⟨hCall, hUnsent⟩ := hiaiInitAndStartGraph_calls (o := o)
    ("graph" ++ toString num ++ ".config") (100 + num)
  constructor
  · rintro ⟨other, result, _, mem, hCounts⟩
    rcases List.mem_append.mp mem with mem | mem
    · exact absurd mem (hUnsent (100 + other) result)
    · have hSame := List.mem_singleton.mp mem
      rw [GraphCall.sendData.injEq] at hSame
      rw [← hSame.2]
      exact hCounts
  · intro hCounts
    rw [hCreated] at hCall
    exact ⟨num, o.sendData, List.mem_append_left _ hCall, by simp, hCounts⟩

/-- The last exit, if the message was sent. -/
theorem taskAnswered_of_sent {after : Server} {calls : List GraphCall}
    (hSent : StartSent counts calls) :
    TaskAnswered counts s ⟨DeServImpl.answer reqId method (.int 200) "200 ok", after, calls⟩ where
  reqId := ⟨reqId, by simp [DeServImpl.answer]⟩
  method := ⟨method, by simp [DeServImpl.answer]⟩
  code := ⟨200, _, by simp [DeServImpl.answer], rfl⟩
  sent := iff_of_true (DeServImpl.answer_code _ _ _ _) hSent
  unchanged hNot := absurd (DeServImpl.answer_code _ _ _ _) hNot

theorem startTask_answered_iff (task : Task) :
    TaskAnswered counts s (startTask config reqId method task i o s) ↔
      o.createGraph = .ok ∧ o.secondInstance = true ∧ counts o.sendData = true := by
  have hStatus := hiaiInitAndStartGraph_status (o := o)
    ("graph" ++ toString s.processNum ++ ".config") (100 + s.processNum)
  unfold startTask
  dsimp only
  rw [hStatus]
  split_ifs with hFailed hMissing
  · exact iff_of_false not_taskAnswered_of_silent (fun h => hFailed h.1)
  · apply iff_of_false not_taskAnswered_of_silent
    rintro ⟨_, hFound, _⟩
    rw [hMissing] at hFound
    cases hFound
  · rw [not_not] at hFailed
    have hFound : o.secondInstance = true := by simpa using hMissing
    have hSent := startSent_iff counts s.processNum hFailed
    constructor
    · intro hAnswered
      exact ⟨hFailed, hFound, hSent.mp (hAnswered.sent.mp (DeServImpl.answer_code _ _ _ _))⟩
    · rintro ⟨_, _, hCounts⟩
      exact taskAnswered_of_sent (hSent.mpr hCounts)

/-- Every request that names a stream and a camera comes to an exit, and the answer is
as it should be exactly on the exits that write a code and, behind the library, only if
the message was sent. -/
theorem taskAnswered_iff (text : JsonText) (config : List Text) {req params : Json}
    {url ip : String} (request : TaskRequest req params url ip) (i : Nat) (o : Outcomes)
    (s : Server) (counts : Status → Bool) :
    (∃ r, answerTask text config req i o s = some r ∧ TaskAnswered counts s r) ↔
      text.str params = [] ∨ url = "" ∨
        o.createGraph = .ok ∧ o.secondInstance = true ∧ counts o.sendData = true := by
  obtain ⟨reqId, method, hAnswer⟩ := answerTask_eq request
  rw [hAnswer]
  simp only [Option.some.injEq, exists_eq_left']
  split_ifs with hStr hUrl
  · exact iff_of_true (taskAnswered_of_refused (by decide) (by decide)) (Or.inl hStr)
  · exact iff_of_true (taskAnswered_of_refused (by decide) (by decide)) (Or.inr (Or.inl hUrl))
  · rw [or_iff_right hStr, or_iff_right hUrl]
    exact startTask_answered_iff _

/-- No exit without the code 200 changes the numbering or the map, also those that say
nothing. -/
theorem answerTask_unchanged (request : TaskRequest req params url ip) {r : TaskResult}
    (hCall : answerTask text config req i o s = some r)
    (hCode : lookup .null "code" r.res ≠ .int 200) :
    r.server.processNum = s.processNum ∧ r.server.pidMap = s.pidMap := by
  obtain ⟨reqId, method, hAnswer⟩ := answerTask_eq request
  rw [hAnswer, Option.some.injEq] at hCall
  rw [← hCall] at hCode ⊢
  split_ifs at hCode ⊢
  · exact ⟨rfl, rfl⟩
  · exact ⟨rfl, rfl⟩
  · obtain ⟨hNum, hMap⟩ := writeNewConfig_frame config o ⟨url, ip⟩ (100 + s.processNum)
      ("graph" ++ toString s.processNum ++ ".config") s
    unfold startTask at hCode ⊢
    dsimp only at hCode ⊢
    split_ifs at hCode ⊢
    · exact ⟨hNum, hMap⟩
    · exact ⟨hNum, hMap⟩
    · exact absurd (DeServImpl.answer_code _ _ _ _) hCode

/-- A template that can be read and a new file that takes all of it. -/
def FilesUsable (config : List Text) (task : Task) (o : Outcomes) (s : Server) : Prop :=
  o.configOpens = true ∧ ∃ n, o.newConfig = .written n ∧
    (rewriteConfig config (100 + s.processNum) task.url task.ip).length ≤ n

theorem FilesUsable.writeNewConfig_eq {task : Task} (usable : FilesUsable config task o s)
    (name : String) :
    writeNewConfig config o task (100 + s.processNum) name s =
      { s with
        files := Function.update s.files name
          (some (rewriteConfig config (100 + s.processNum) task.url task.ip)) } := by
  obtain ⟨hConfig, n, hWritten, hWhole⟩ := usable
  simp only [writeNewConfig, hConfig, hWritten, if_true, List.take_of_length_le hWhole]

theorem startTask_eq_served {task : Task} (usable : FilesUsable config task o s) :
    let r := startTask config reqId method task i o s
    r.res = taskAnswer reqId method (o.createGraph = .ok) o.secondInstance ∧
      r.server = served config (fun _ => task) i (o.createGraph = .ok) o.secondInstance s := by
  have hStatus := hiaiInitAndStartGraph_status (o := o)
    ("graph" ++ toString s.processNum ++ ".config") (100 + s.processNum)
  unfold startTask served taskAnswer
  dsimp only
  rw [hStatus, usable.writeNewConfig_eq]
  cases o.createGraph with
  | error => exact ⟨rfl, rfl⟩
  | ok =>
      cases o.secondInstance with
      | false => exact ⟨rfl, rfl⟩
      | true => exact ⟨rfl, rfl⟩

/-- Where both files can be used, this is the handler without the calls. -/
theorem answerTask_eq_setEgbdTask (request : TaskRequest req params url ip)
    (usable : FilesUsable config ⟨url, ip⟩ o s) :
    (answerTask text config req i o s).map (fun r => (r.res, r.server)) =
      setEgbdTask config text req i (o.createGraph = .ok) o.secondInstance s := by
  obtain ⟨hParams, ⟨urlValue, hUrlMember, hUrl⟩, ⟨ipValue, hIpMember, hIp⟩⟩ := request
  obtain ⟨reqId, hReqId⟩ := Json.member_total hParams "req_id"
  obtain ⟨method, hMethod⟩ := Json.member_total hParams "method"
  simp only [answerTask, setEgbdTask, hReqId, hMethod, hParams, hUrlMember, hUrl, hIpMember, hIp,
    Option.bind_eq_bind, Option.bind_some]
  split_ifs
  · rfl
  · rfl
  · obtain ⟨hRes, hServer⟩ := startTask_eq_served usable
    rw [Option.map_some, hRes, hServer]

section Sample

def sampleParams : Json :=
  .object [("rtsp_url", .string "rtsp://camera"), ("ip", .string "cam")]

def sampleTaskRequest : Json :=
  .object [("req_id", .int 7), ("method", .string "set_egbd_task"), ("params", sampleParams)]

/-- Everything goes well. -/
def sampleOutcomes : Outcomes :=
  { configOpens := true, newConfig := .written 5000, createGraph := .ok, firstInstance := true,
    secondInstance := true, sendData := .ok }

theorem sampleTask_request : TaskRequest sampleTaskRequest sampleParams "rtsp://camera" "cam" :=
  ⟨rfl, ⟨_, rfl, rfl⟩, ⟨_, rfl, rfl⟩⟩

theorem taskAnswered_iff_sample :
    (∃ r, answerTask DeServImpl.sampleText graphConfig sampleTaskRequest 0 sampleOutcomes {} =
      some r ∧ TaskAnswered (fun result => result = .ok) {} r) ↔
      DeServImpl.sampleText.str sampleParams = [] ∨ "rtsp://camera" = "" ∨
        sampleOutcomes.createGraph = .ok ∧ sampleOutcomes.secondInstance = true ∧
          (fun result => decide (result = Status.ok)) sampleOutcomes.sendData = true :=
  taskAnswered_iff DeServImpl.sampleText graphConfig sampleTask_request 0 sampleOutcomes {}
    (fun result => result = .ok)

/-- The library refuses to create the graph, and the answer has no code. -/
theorem silent_exit :
    ¬ ∃ r, answerTask DeServImpl.sampleText graphConfig sampleTaskRequest 0
        { sampleOutcomes with createGraph := .error } {} = some r ∧
      TaskAnswered (fun _ => true) {} r := by
  rintro ⟨r, hCall, hAnswered⟩
  obtain ⟨reqId, method, hExit⟩ := answerTask_eq sampleTask_request
  rw [hExit, if_neg (by decide), if_neg (by decide)] at hCall
  cases hCall
  exact not_taskAnswered_of_silent hAnswered

end Sample

end Hengda.GraphStart

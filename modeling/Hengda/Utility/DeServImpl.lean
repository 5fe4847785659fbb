import Hengda.Utility.Libraries

/-! The request that replaces the borders of a camera. It is answered with 200
whatever becomes of the file; whether the borders can be loaded afterwards is
decided by the file alone. -/
namespace Hengda.DeServImpl

variable (text : JsonText)

/-- The members that an answer gets. -/
def answer (reqId method code : Json) (codeMsg : String) : List (String × Json) :=
  [("req_id", reqId), ("method", method), ("code", code), ("code_msg", .string codeMsg)]

@[simp]
theorem answer_code (reqId method code : Json) (codeMsg : String) :
    lookup .null "code" (answer reqId method code codeMsg) = code := by
  simp [lookup, answer]

/-- The answer and the loader afterwards, or `none` where an assertion of
`json::Value` stops the program. -/
def setBorderInfo (req : Json) (outcome : WriteOutcome) (s : BordersLoader) :
    Option (List (String × Json) × BordersLoader) := do
  let reqId ← req.member "req_id"
  let method ← req.member "method"
  let params ← req.member "params"
  let info ← params.member "info"
  let ip ← (← params.member "ip").getString
  match text.parse (cString (text.str info)) with
  | .error _ => some (answer reqId method (.string "400") "400 parse borders error", s)
  | .ok borders =>
      some (answer reqId method (.int 200) "200 ok",
        s.save text borders (ip ++ ".json") outcome)

/-- A request to give the camera `ip` new borders, with the address as it is read. -/
def BorderRequest (req info : Json) (ip : String) : Prop :=
  ∃ params v, req.member "params" = some params ∧ params.member "info" = some info ∧
    params.member "ip" = some v ∧ v.getString = some ip

/-- Whatever happens to the file, the answer is 200 once the borders have been
read from the request. -/
theorem setBorderInfo_eq {req info : Json} {ip : String} (request : BorderRequest req info ip)
    {borders : Json11} (hRead : text.parse (cString (text.str info)) = .ok borders)
    (outcome : WriteOutcome) (s : BordersLoader) :
    ∃ reqId method, setBorderInfo text req outcome s =
      some (answer reqId method (.int 200) "200 ok",
        s.save text borders (ip ++ ".json") outcome) := by
  obtain ⟨params, v, hParams, hInfo, hMember, hIp⟩ := request
  obtain ⟨reqId, hReqId⟩ := Json.member_total hParams "req_id"
  obtain ⟨method, hMethod⟩ := Json.member_total hParams "method"
  refine ⟨reqId, method, ?_⟩
  simp [setBorderInfo, hReqId, hMethod, hParams, hInfo, hMember, hIp, hRead]

/-- If the request is answered with 200, the next `load` returns the borders. -/
def Durable (req : Json) (ip : String) (bs : List Border) (outcome : WriteOutcome)
    (s : BordersLoader) : Prop :=
  ∀ res after, setBorderInfo text req outcome s = some (res, after) →
    lookup .null "code" res = .int 200 → (after.load text (ip ++ ".json")).1 = bs

/-- The whole of the new text has reached the file, or what the file has is
worth the same: a list that is not empty has been there before, an empty one
is also what `load` makes of a text that breaks off. -/
def Stored (borders : Json11) (ip : String) (bs : List Border) (outcome : WriteOutcome)
    (s : BordersLoader) : Prop :=
  match outcome with
  | .openFails => (s.load text (ip ++ ".json")).1 = bs
  | .written n => (text.dump borders).length ≤ n ∨ bs = []

/-- After a save the file has the part of the text that reached it. -/
theorem load_save_written {borders : Json11} (filename : String) (s : BordersLoader)
    (hUndo : text.parse (text.dump borders) = .ok borders)
    (hUnfinished : ∀ n < (text.dump borders).length,
      (text.parse ((text.dump borders).take n)).isOk = false) (n : Nat) :
    ((s.save text borders filename (.written n)).load text filename).1 =
      if (text.dump borders).length ≤ n then borders.toBorders else [] := by
  have hFile : ((s.save text borders filename (.written n)).files filename).getD [] =
      (text.dump borders).take n := by
    change (Function.update s.files filename (some ((text.dump borders).take n))
      filename).getD [] = (text.dump borders).take n
    rw [Function.update_self, Option.getD_some]
  split_ifs with hWhole
  · apply BordersLoader.load_of_parse
    rw [hFile, List.take_of_length_le hWhole, hUndo]
  · apply BordersLoader.load_of_unreadable
    rw [hFile]
    exact hUnfinished n (Nat.lt_of_not_le hWhole)

theorem load_save_openFails (borders : Json11) (filename : String) (s : BordersLoader) :
    ((s.save text borders filename .openFails).load text filename).1 =
      (s.load text filename).1 := rfl

/-- An acknowledged update is in force exactly if the file has taken it or did
not need to. The hypotheses on the two libraries are about this update only:
the printed value is read back as the same value, and nothing less than the
whole text of it can be read. -/
theorem durable_iff {req info : Json} {ip : String} {bs : List Border} {borders : Json11}
    (request : BorderRequest req info ip) (hBorders : IsBorders info bs)
    (hRead : text.parse (cString (text.str info)) = .ok borders) (hSame : Same info borders)
    (hUndo : text.parse (text.dump borders) = .ok borders)
    (hUnfinished : ∀ n < (text.dump borders).length,
      (text.parse ((text.dump borders).take n)).isOk = false)
    (outcome : WriteOutcome) (s : BordersLoader) :
    Durable text req ip bs outcome s ↔ Stored text borders ip bs outcome s := by
  have hDecoded := hBorders.toBorders hSame
  have hAnswered : Durable text req ip bs outcome s ↔
      ((s.save text borders (ip ++ ".json") outcome).load text (ip ++ ".json")).1 = bs := by
    obtain ⟨reqId, method, hAnswer⟩ := setBorderInfo_eq text request hRead outcome s
    constructor
    · intro hDurable
      exact hDurable _ _ hAnswer (answer_code _ _ _ _)
    · intro hLoad res after hRes _
      rw [hAnswer, Option.some.injEq, Prod.mk.injEq] at hRes
      rw [← hRes.2]
      exact hLoad
  rw [hAnswered]
  cases outcome with
  | openFails => rw [load_save_openFails, Stored]
  | written n =>
      rw [load_save_written text _ s hUndo hUnfinished, hDecoded, Stored]
      split_ifs with hWhole
      · exact iff_of_true rfl (Or.inl hWhole)
      · rw [eq_comm, or_iff_right hWhole]

/-- A rectangle with the corners (1,2) and (3,4), as it comes and as it is
kept. -/
def sampleInfo : Json :=
  .array [.object [("type", .int 1),
    ("points", .array [.array [.int 1, .int 2], .array [.int 3, .int 4]])]]

def sampleBorders : Json11 :=
  .array [.object [("points", .array [.array [.int 1, .int 2], .array [.int 3, .int 4]]),
    ("type", .int 1)]]

/-- The libraries as they are; there are no doubles in the texts here. -/
def sampleText : JsonText :=
  libraries CoJson.sampleDoubles Json11.wholeDoubles

def sampleRequest : Json :=
  .object [("req_id", .int 7), ("method", .string "set_border_info"),
    ("params", .object [("ip", .string "cam"), ("info", sampleInfo)])]

theorem sample_request : BorderRequest sampleRequest sampleInfo "cam" :=
  ⟨_, _, rfl, rfl, rfl, rfl⟩

theorem sample_isBorders : IsBorders sampleInfo [⟨1, [⟨1, 2⟩, ⟨3, 4⟩]⟩] := by
  refine ⟨_, rfl, .cons ⟨_, _, rfl, rfl, by decide, rfl, ?_⟩ .nil⟩
  exact .cons ⟨rfl, by decide, by decide⟩ (.cons ⟨rfl, by decide, by decide⟩ .nil)

theorem sample_same : Same sampleInfo sampleBorders := by
  have hPoint : ∀ x y, Same (.array [.int x, .int y]) (.array [.int x, .int y]) := by
    intro x y
    exact .array (.cons (.int x) (.cons (.int y) .nil))
  refine .array (.cons (.object ?_) .nil)
  intro key
  by_cases hType : key = "type"
  · rw [hType]
    exact .int 1
  · by_cases hPoints : key = "points"
    · rw [hPoints]
      exact .array (.cons (hPoint 1 2) (.cons (hPoint 3 4) .nil))
    · simp only [lookup, List.find?, Ne.symm hType, Ne.symm hPoints, decide_false]
      exact .null

theorem sample_unfinished : ∀ n < (sampleText.dump sampleBorders).length,
    (sampleText.parse ((sampleText.dump sampleBorders).take n)).isOk = false := by
  decide +kernel

/-- The whole text has reached the file. -/
theorem durable_iff_sample :
    Durable sampleText sampleRequest "cam" [⟨1, [⟨1, 2⟩, ⟨3, 4⟩]⟩] (.written 50) {} ↔
      Stored sampleText sampleBorders "cam" [⟨1, [⟨1, 2⟩, ⟨3, 4⟩]⟩] (.written 50) {} :=
  durable_iff sampleText sample_request sample_isBorders (by rfl) sample_same (by rfl)
    sample_unfinished (.written 50) {}

/-- The file cannot be opened: the request is answered with 200 and the camera
keeps running without borders. -/
theorem update_lost :
    ¬ Durable sampleText sampleRequest "cam" [⟨1, [⟨1, 2⟩, ⟨3, 4⟩]⟩] .openFails {} := by
  intro hDurable
  have hRead : sampleText.parse (cString (sampleText.str sampleInfo)) = .ok sampleBorders := rfl
  obtain ⟨reqId, method, hAnswer⟩ :=
    setBorderInfo_eq sampleText sample_request hRead .openFails {}
  have hLoad := hDurable _ _ hAnswer (answer_code _ _ _ _)
  have hEmpty : (BordersLoader.load sampleText ("cam" ++ ".json") {}).1 = [] := by
    apply BordersLoader.load_of_unreadable
    decide +kernel
  rw [load_save_openFails, hEmpty] at hLoad
  cases hLoad

end Hengda.DeServImpl

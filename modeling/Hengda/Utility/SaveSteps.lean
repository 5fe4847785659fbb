import Hengda.Library.Schedule
import Hengda.Utility.DeServImpl

/-! A call of `save` as the steps in which it reaches the file, and the loads of
the detector between them. The file is truncated when it is opened and then
written from its start, so that for a while it has a beginning of the new text. -/
namespace Hengda.SaveSteps

/-- Where the call stands. Nothing reaches the file through a stream that could
not be opened. -/
inductive SavePoint
  | entered
  | assigned
  | opened (done : Nat)
  | unopened
  | returned
deriving DecidableEq, Repr

structure Update where
  loader : BordersLoader
  point : SavePoint := .entered

/-- The steps of the call, and `load` as one step. A `write` takes the next
characters of the text to the file; a stream with an error is closed before the
whole text has been written. -/
inductive Move
  | assign
  | openFile (ok : Bool)
  | write (n : Nat)
  | close
  | load
deriving DecidableEq, Repr

/-- The loader after the file has got a new content. -/
def withFile (loader : BordersLoader) (filename : String) (content : Text) : BordersLoader :=
  { loader with files := Function.update loader.files filename (some content) }

@[simp]
theorem withFile_files (loader : BordersLoader) (filename : String) (content : Text) :
    (withFile loader filename content).files filename = some content :=
  Function.update_self ..

@[simp]
theorem withFile_withFile (loader : BordersLoader) (filename : String) (first second : Text) :
    withFile (withFile loader filename first) filename second =
      withFile loader filename second := by
  simp [withFile]

theorem withFile_eq_self {loader : BordersLoader} {filename : String} {content : Text}
    (hContent : loader.files filename = some content) :
    withFile loader filename content = loader := by
  rw [withFile, ← hContent, Function.update_eq_self]

variable (text : JsonText) (borders : Json11) (filename : String)

def step : Update → Move → Option Update
  | ⟨loader, .entered⟩, .assign => some ⟨{ loader with borders := borders }, .assigned⟩
  | ⟨loader, .assigned⟩, .openFile true =>
      some ⟨withFile loader filename [], .opened 0⟩
  | ⟨loader, .assigned⟩, .openFile false => some ⟨loader, .unopened⟩
  | ⟨loader, .opened done⟩, .write n =>
      if done + n ≤ (text.dump borders).length then
        let content := (loader.files filename).getD [] ++ ((text.dump borders).drop done).take n
        some ⟨withFile loader filename content, .opened (done + n)⟩
      else none
  | ⟨loader, .opened _⟩, .close => some ⟨loader, .returned⟩
  | ⟨loader, .unopened⟩, .close => some ⟨loader, .returned⟩
  | ⟨loader, point⟩, .load => some ⟨(loader.load text filename).2, point⟩
  | _, _ => none

/-- Characters that the moves take to the file. -/
def written : List Move → Nat
  | [] => 0
  | .write n :: rest => n + written rest
  | _ :: rest => written rest

theorem written_cons (move : Move) (rest : List Move) :
    written (move :: rest) = written [move] + written rest := by
  cases move with
  | write n => rfl
  | _ => exact (Nat.zero_add _).symm

theorem written_concat (moves : List Move) (move : Move) :
    written (moves ++ [move]) = written moves + written [move] := by
  induction moves with
  | nil => exact (Nat.zero_add _).symm
  | cons first rest ih =>
      rw [List.cons_append, written_cons, ih, written_cons first rest, Nat.add_assoc]

/-- Only the moves of the writer on an open file change its content. -/
theorem written_eq_zero {move : Move} (other : ∀ n, move ≠ .write n) : written [move] = 0 := by
  cases move with
  | write n => exact absurd rfl (other n)
  | _ => rfl

/-- What is in the file after the moves: what was there before, or the part of
the new text that has been written. -/
def Content (old : Option Text) (moves : List Move) (s : Update) : Prop :=
  (.openFile true ∉ moves ∧ written moves = 0 ∧ s.loader.files filename = old ∧
      ∀ done, s.point ≠ .opened done) ∨
    (.openFile true ∈ moves ∧
      s.loader.files filename = some ((text.dump borders).take (written moves)) ∧
      (s.point = .opened (written moves) ∨ s.point = .returned))

variable {text borders filename}

/-- A move that leaves the file alone and does not open it. -/
theorem Content.frame {old : Option Text} {moves : List Move} {s after : Update} {move : Move}
    (content : Content text borders filename old moves s)
    (hWrite : ∀ n, move ≠ .write n) (hOpen : move ≠ .openFile true)
    (hFile : after.loader.files = s.loader.files)
    (hPoint : after.point = s.point ∨ after.point = .returned ∨ ∀ done, s.point ≠ .opened done ∧
      s.point ≠ .returned ∧ after.point ≠ .opened done) :
    Content text borders filename old (moves ++ [move]) after := by
  have hWritten : written (moves ++ [move]) = written moves := by
    rw [written_concat, written_eq_zero hWrite, Nat.add_zero]
  have hMem : .openFile true ∈ moves ++ [move] ↔ .openFile true ∈ moves := by
    simp [hOpen.symm]
  unfold Content
  rw [hWritten, hMem, hFile]
  rcases content with ⟨hOld, hZero, hContent, hClosed⟩ | ⟨hNew, hContent, hAt⟩
  · refine Or.inl ⟨hOld, hZero, hContent, ?_⟩
    intro done
    rcases hPoint with hSame | hDone | hOther
    · rw [hSame]
      exact hClosed done
    · rw [hDone]
      simp
    · exact (hOther done).2.2
  · refine Or.inr ⟨hNew, hContent, ?_⟩
    rcases hPoint with hSame | hDone | hOther
    · rw [hSame]
      exact hAt
    · exact Or.inr hDone
    · rcases hAt with hAt | hAt
      · exact absurd hAt (hOther _).1
      · exact absurd hAt (hOther 0).2.1

/-- One possible move keeps account of the file. -/
theorem Content.step {old : Option Text} {moves : List Move} {s after : Update} {move : Move}
    (content : Content text borders filename old moves s)
    (hStep : step text borders filename s move = some after) :
    Content text borders filename old (moves ++ [move]) after := by
  obtain ⟨loader, point⟩ := s
  cases move with
  | assign =>
      cases point with
      | entered =>
          cases hStep
          exact content.frame (by simp) (by simp) rfl (by simp)
      | _ => cases hStep
  | openFile ok =>
      cases point with
      | assigned =>
          cases ok with
          | false =>
              cases hStep
              exact content.frame (by simp) (by simp) rfl (by simp)
          | true =>
              cases hStep
              have hZero : written moves = 0 := by
                rcases content with ⟨_, hZero, _⟩ | ⟨_, _, hAt⟩
                · exact hZero
                · simp at hAt
              apply Or.inr
              rw [written_concat, hZero]
              simp [written]
      | _ => cases ok <;> cases hStep
  | write n =>
      cases point with
      | opened done =>
          rcases content with ⟨_, _, _, hClosed⟩ | ⟨hOpen, hContent, hAt⟩
          · exact absurd rfl (hClosed done)
          · simp only [SaveSteps.step, Option.ite_none_right_eq_some, Option.some.injEq] at hStep
            obtain ⟨_, rfl⟩ := hStep
            have hDone : done = written moves := by simpa using hAt
            have hWritten : written (moves ++ [.write n]) = written moves + n :=
              written_concat moves (.write n)
            apply Or.inr
            refine ⟨List.mem_append_left _ hOpen, ?_, Or.inl ?_⟩
            · rw [withFile_files, hContent, hDone, Option.getD_some, ← List.take_add, hWritten]
            · rw [hWritten, hDone]
      | _ => cases hStep
  | close =>
      cases point with
      | opened done =>
          cases hStep
          exact content.frame (by simp) (by simp) rfl (by simp)
      | unopened =>
          cases hStep
          exact content.frame (by simp) (by simp) rfl (by simp)
      | _ => cases hStep
  | load =>
      have hAfter : after = ⟨(loader.load text filename).2, point⟩ := by
        cases point <;> cases hStep <;> rfl
      rw [hAfter]
      exact content.frame (by simp) (by simp) rfl (by simp)

variable (text borders filename)

/-- Chunks that are written one after the other add up. -/
theorem run_writes (loader : BordersLoader) (done : Nat) (chunks : List Nat)
    (hContent : loader.files filename = some ((text.dump borders).take done))
    (hChunks : done + written (chunks.map .write) ≤ (text.dump borders).length) :
    Schedule.run (step text borders filename) ⟨loader, .opened done⟩ (chunks.map .write) =
      some ⟨withFile loader filename
          ((text.dump borders).take (done + written (chunks.map .write))),
        .opened (done + written (chunks.map .write))⟩ := by
  induction chunks generalizing loader done with
  | nil => simp [written, withFile_eq_self hContent]
  | cons n rest ih =>
      rw [List.map_cons, written, ← Nat.add_assoc] at hChunks
      have hFits : done + n ≤ (text.dump borders).length := by omega
      have hRest := ih (withFile loader filename ((text.dump borders).take (done + n)))
        (done + n) (by simp) hChunks
      rw [withFile_withFile] at hRest
      rw [List.map_cons, Schedule.run_cons, step, if_pos hFits, hContent, Option.getD_some,
        ← List.take_add, Option.bind_some, hRest, written, Nat.add_assoc]

/-- The moves of an undisturbed call do what `save` does in one step. -/
theorem run_save (s : BordersLoader) (chunks : List Nat)
    (hChunks : written (chunks.map .write) ≤ (text.dump borders).length) :
    Schedule.run (step text borders filename) ⟨s, .entered⟩
        ([.assign, .openFile true] ++ chunks.map .write ++ [.close]) =
      some ⟨s.save text borders filename (.written (written (chunks.map .write))), .returned⟩ := by
  have hWrites := run_writes text borders filename
    (withFile { s with borders := borders } filename []) 0 chunks (by simp) (by simpa using hChunks)
  rw [withFile_withFile, Nat.zero_add] at hWrites
  rw [Schedule.run_concat, Schedule.run_append]
  change ((Schedule.run (step text borders filename)
    ⟨withFile { s with borders := borders } filename [], .opened 0⟩ (chunks.map .write)).bind _) = _
  rw [hWrites]
  rfl

theorem run_save_openFails (s : BordersLoader) :
    Schedule.run (step text borders filename) ⟨s, .entered⟩
        [.assign, .openFile false, .close] =
      some ⟨s.save text borders filename .openFails, .returned⟩ := rfl

/-- Every load finds the old borders or the new ones. -/
def AtomicLoads (old new : List Border) (start : Update) (moves : List Move) : Prop :=
  ∀ before after s, moves = before ++ .load :: after →
    Schedule.run (step text borders filename) start before = some s →
      (s.loader.load text filename).1 = old ∨ (s.loader.load text filename).1 = new

/-- No load comes between the opening of the file and the end of the text, or
one of the two lists is what `load` makes of a text that breaks off. -/
def LoadsApart (old new : List Border) (moves : List Move) : Prop :=
  old = [] ∨ new = [] ∨ ∀ before after, moves = before ++ .load :: after →
    .openFile true ∈ before → (text.dump borders).length ≤ written before

variable {text borders filename}

/-- What a load finds after the moves. -/
theorem Content.load {s : BordersLoader} {moves : List Move} {u : Update}
    (content : Content text borders filename (s.files filename) moves u)
    (hUndo : text.parse (text.dump borders) = .ok borders)
    (hUnfinished : ∀ n < (text.dump borders).length,
      (text.parse ((text.dump borders).take n)).isOk = false) :
    (u.loader.load text filename).1 =
      if .openFile true ∈ moves then
        if (text.dump borders).length ≤ written moves then borders.toBorders else []
      else (s.load text filename).1 := by
  rcases content with ⟨hOpen, _, hFile, _⟩ | ⟨hOpen, hFile, _⟩
  · rw [if_neg hOpen, BordersLoader.load, BordersLoader.load, hFile]
  · have hSaved :=
      DeServImpl.load_save_written text filename u.loader hUndo hUnfinished (written moves)
    rw [if_pos hOpen, ← hSaved, BordersLoader.load, BordersLoader.load, hFile]
    simp [BordersLoader.save]

/-- The loads of a run see whole lists exactly if none of them falls into the
time in which the file has a part of the text. -/
theorem atomicLoads_iff {info : Json} {old new : List Border} (hNew : IsBorders info new)
    (hSame : Same info borders) (hUndo : text.parse (text.dump borders) = .ok borders)
    (hUnfinished : ∀ n < (text.dump borders).length,
      (text.parse ((text.dump borders).take n)).isOk = false)
    (s : BordersLoader) (hOld : (s.load text filename).1 = old) (moves : List Move)
    (hRun : (Schedule.run (step text borders filename) ⟨s, .entered⟩ moves).isSome) :
    AtomicLoads text borders filename old new ⟨s, .entered⟩ moves ↔
      LoadsApart text borders old new moves := by
  have hFound : ∀ before u,
      Schedule.run (step text borders filename) ⟨s, .entered⟩ before = some u →
        (u.loader.load text filename).1 =
          if .openFile true ∈ before then
            if (text.dump borders).length ≤ written before then new else []
          else old := by
    intro before u hBefore
    have hContent : Content text borders filename (s.files filename) before u :=
      Schedule.run_rule (Or.inl ⟨by simp, rfl, rfl, by simp⟩)
        (fun _ _ _ _ content hStep => content.step hStep) hBefore
    rw [hContent.load hUndo hUnfinished, hNew.toBorders hSame, hOld]
  constructor
  · intro hAtomic
    by_cases hOldEmpty : old = []
    · exact Or.inl hOldEmpty
    by_cases hNewEmpty : new = []
    · exact Or.inr (Or.inl hNewEmpty)
    refine Or.inr (Or.inr ?_)
    intro before after hMoves hOpen
    by_contra hPart
    obtain ⟨last, hLast⟩ := Option.isSome_iff_exists.mp hRun
    rw [hMoves] at hLast
    obtain ⟨u, hBefore, _⟩ := Schedule.exists_of_run_append hLast
    have hEmpty := hFound before u hBefore
    rw [if_pos hOpen, if_neg hPart] at hEmpty
    rcases hAtomic before after u hMoves hBefore with hLoad | hLoad
    · exact hOldEmpty (hLoad.symm.trans hEmpty)
    · exact hNewEmpty (hLoad.symm.trans hEmpty)
  · intro hApart before after u hMoves hBefore
    rw [hFound before u hBefore]
    rcases hApart with rfl | rfl | hApart
    · split_ifs <;> simp
    · split_ifs <;> simp
    · split_ifs with hOpen hWhole
      · exact Or.inr rfl
      · exact absurd (hApart before after hMoves hOpen) hWhole
      · exact Or.inl rfl

/-- The camera has the sample rectangle in its file. -/
def sampleLoader : BordersLoader :=
  { files := fun _ => some (DeServImpl.sampleText.dump DeServImpl.sampleBorders) }

/-- The load comes after the whole text. -/
theorem atomicLoads_iff_sample :
    AtomicLoads DeServImpl.sampleText DeServImpl.sampleBorders "cam.json"
        [⟨1, [⟨1, 2⟩, ⟨3, 4⟩]⟩] [⟨1, [⟨1, 2⟩, ⟨3, 4⟩]⟩] ⟨sampleLoader, .entered⟩
        [.assign, .openFile true, .write 20, .write 21, .load, .close] ↔
      LoadsApart DeServImpl.sampleText DeServImpl.sampleBorders
        [⟨1, [⟨1, 2⟩, ⟨3, 4⟩]⟩] [⟨1, [⟨1, 2⟩, ⟨3, 4⟩]⟩]
        [.assign, .openFile true, .write 20, .write 21, .load, .close] :=
  atomicLoads_iff DeServImpl.sample_isBorders DeServImpl.sample_same (by rfl)
    DeServImpl.sample_unfinished sampleLoader (by rfl) _ (by rfl)

/-- A frame that is processed between the truncation and the first write of an
update that changes nothing finds no borders at all. -/
theorem load_after_truncation :
    ¬ AtomicLoads DeServImpl.sampleText DeServImpl.sampleBorders "cam.json"
      [⟨1, [⟨1, 2⟩, ⟨3, 4⟩]⟩] [⟨1, [⟨1, 2⟩, ⟨3, 4⟩]⟩] ⟨sampleLoader, .entered⟩
      [.assign, .openFile true, .load, .write 41, .close] := by
  intro hAtomic
  have hLoad := hAtomic [.assign, .openFile true] [.write 41, .close] _ rfl rfl
  rw [BordersLoader.load_of_unreadable] at hLoad
  · simp at hLoad
  · rfl

end Hengda.SaveSteps

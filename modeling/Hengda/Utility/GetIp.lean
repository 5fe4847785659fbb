import Hengda.Base.JsonPrefix
import Hengda.Base.JsonRoundTrip

/-! The address under which the server is started. It is read from `network.json` through a
buffer that is not cleared and to which no zero is appended. -/
namespace Hengda

open CoJson Scanning

/-- `find`, which has a null value also for a value without members. -/
def Json.find (key : String) : Json → Json
  | .object members => lookup .null key members
  | _ => .null

/-- Up to 256 bytes of the file are put into the buffer. Behind them stands what the memory
holds. -/
def getIp (doubles : Doubles) (file : Option Text) (memory : Text) : Option String :=
  let buf := (file.getD []).take 256 ++ memory
  match (parse doubles (cString buf)).find "server_ip" with
  | .string ip => some (ofCString ip)
  | _ => none

section Memory

variable {doubles : Doubles}

theorem cString_append {t : Text} (hZero : '\x00' ∉ t) (memory : Text) :
    cString (t ++ memory) = t ++ cString memory := by
  have hRun : ∀ ch ∈ t, decide (ch ≠ '\x00') = true := by
    intro ch hMem
    refine decide_eq_true ?_
    rintro rfl
    exact hZero hMem
  exact List.takeWhile_append_of_pos hRun

/-- From a file that is accepted the address is taken if there happens to be a zero behind the
file, or only white space in front of the first zero. With anything else behind it there is no
address, and the server is not started. -/
theorem getIp_of_file {file : Text} {v : Json} {ip : String} (hLength : file.length ≤ 256)
    (hZero : '\x00' ∉ file) (hParse : parseFrom doubles file = some v)
    (hIp : v.find "server_ip" = .string ip) (memory : Text) :
    getIp doubles (some file) memory =
      if (cString memory).all isWhiteChar then some (ofCString ip)
      else none := by
  have hBuffer : cString (file.take 256 ++ memory) = file ++ cString memory := by
    rw [List.take_of_length_le hLength, cString_append hZero]
  simp only [getIp, Option.getD_some]
  rw [hBuffer, parse, parseFrom_append hParse]
  by_cases hWhite : (cString memory).all isWhiteChar = true
  · rw [if_pos hWhite, if_pos hWhite, Option.getD_some, hIp]
  · rw [if_neg hWhite, if_neg hWhite]
    rfl

/-- A file with a comma behind its only member, as the one that comes with the server. -/
def sampleFile : Text :=
  ['\x7b', '\n', '"', 's', 'e', 'r', 'v', 'e', 'r', '_', 'i', 'p', '"', ':', '"', '1', '"', ',',
    '\n', '\x7d', '\n']

theorem getIp_of_file_sample :
    getIp sampleDoubles (some sampleFile) ['\x00'] = some (String.ofList ['1']) ∧
      getIp sampleDoubles (some sampleFile) ['x'] = none := by
  have hParse : parseFrom sampleDoubles sampleFile =
      some (.object [(String.ofList ['s', 'e', 'r', 'v', 'e', 'r', '_', 'i', 'p'],
        .string (String.ofList ['1']))]) := rfl
  have hIp := getIp_of_file (by decide) (by simp [sampleFile]) hParse rfl
  rw [ofCString, String.toList_ofList] at hIp
  exact ⟨hIp ['\x00'], hIp ['x']⟩

end Memory

end Hengda

import Hengda.Common.RpcClient
import Hengda.Library.Bytes

/-! The frames of the RPC protocol: a magic number and the length of the body, both
in network order, and the body. A reader that has lost the beginning of a frame
never takes the rest of it for another one, as long as the bodies are JSON. -/
namespace Hengda.Rpc

open Bytes

/-- `set_header` -/
def setHeader (msgLen : Nat) : Text :=
  bigEndian 0xbaddad ++ bigEndian msgLen

def frame (body : Text) : Text :=
  setHeader body.length ++ body

/-- A header as the receiver sees it. -/
def readHeader (t : Text) : Header where
  magic := signed (value (t.take 4))
  len := signed (value (t.drop 4))

/-- The text of a JSON value: bytes other than zero, the first one of them ASCII, and not so
many that the length is not an `int`. -/
structure IsBody (body : Text) : Prop where
  bytes : IsBytes body
  nonzero : ∀ ch ∈ body, ch.toNat ≠ 0
  ascii : ∃ ch rest, body = ch :: rest ∧ ch.toNat < 128
  short : body.length < 2147483648

@[simp]
theorem setHeader_length (n : Nat) : (setHeader n).length = 8 := rfl

theorem frame_length (body : Text) : (frame body).length = body.length + 8 := by
  rw [frame, List.length_append, setHeader_length, Nat.add_comm]

theorem readHeader_setHeader {n : Nat} (hShort : n < 2147483648) :
    readHeader (setHeader n) = { magic := 0xbaddad, len := n } := by
  have hMagic : value ((setHeader n).take 4) = 0xbaddad := value_bigEndian (by decide)
  have hLength : value ((setHeader n).drop 4) = n := value_bigEndian (by omega)
  rw [readHeader, hMagic, hLength, signed_of_small hShort]
  rfl

/-- The first eight bytes of a frame are its header. -/
theorem frame_take (body : Text) : (frame body).take 8 = setHeader body.length :=
  List.take_left' rfl

theorem frame_drop (body : Text) : (frame body).drop 8 = body :=
  List.drop_left' rfl

/-- Only a zero byte can begin a magic number. -/
theorem magic_bytes {a b c d e f g h : Char} (hBytes : IsBytes [a, b, c, d, e, f, g, h])
    (hMagic : (readHeader [a, b, c, d, e, f, g, h]).magic = 0xbaddad) :
    a.toNat = 0 ∧ b.toNat = 0xba ∧ c.toNat = 0xdd ∧ d.toNat = 0xad := by
  have hValue : value [a, b, c, d] = 0xbaddad := by
    have hSigned : signed (value [a, b, c, d]) = 0xbaddad := hMagic
    have hA := hBytes a (by simp)
    have hB := hBytes b (by simp)
    have hC := hBytes c (by simp)
    have hD := hBytes d (by simp)
    rw [signed] at hSigned
    simp only [value, List.foldl_cons, List.foldl_nil] at hSigned ⊢
    split_ifs at hSigned <;> omega
  exact value_injective (hBytes b (by simp)) (hBytes c (by simp)) (hBytes d (by simp))
    (by decide) (by decide) (by decide) hValue

theorem IsBody.frame_bytes {body : Text} (isBody : IsBody body) : IsBytes (frame body) := by
  intro ch hMem
  simp only [frame, setHeader, List.mem_append] at hMem
  rcases hMem with (hMem | hMem) | hMem
  · exact isBytes_bigEndian _ ch hMem
  · exact isBytes_bigEndian _ ch hMem
  · exact isBody.bytes ch hMem

theorem list_of_length_eight {t : Text} (hFull : t.length = 8) :
    ∃ a b c d e f g h, t = [a, b, c, d, e, f, g, h] := by
  match t, hFull with
  | [a, b, c, d, e, f, g, h], _ => exact ⟨a, b, c, d, e, f, g, h, rfl⟩

/-- A length whose first byte is a character of a JSON text is too large for a message. -/
theorem too_long {a b c d e f g h : Char} (hBytes : IsBytes [a, b, c, d, e, f, g, h])
    (hNonzero : e.toNat ≠ 0) (hAscii : e.toNat < 128) :
    maxMsgSize < (readHeader [a, b, c, d, e, f, g, h]).len := by
  change (8388608 : Int) < signed (value [e, f, g, h])
  have hF := hBytes f (by simp)
  have hG := hBytes g (by simp)
  have hH := hBytes h (by simp)
  simp only [value, List.foldl_cons, List.foldl_nil]
  rw [signed_of_small (by omega)]
  omega

/-- A window of a frame that is not its beginning is refused as a header. -/
theorem misread {body window : Text} (isBody : IsBody body) {k : Nat} (hLost : 0 < k)
    (hWindow : window = ((frame body).drop k).take 8) (hFull : window.length = 8) :
    (readHeader window).magic ≠ 0xbaddad ∨ maxMsgSize < (readHeader window).len := by
  rw [or_iff_not_imp_left, not_not]
  intro hMagic
  have hBytes : IsBytes window := by
    intro ch hMem
    rw [hWindow] at hMem
    exact isBody.frame_bytes ch (List.mem_of_mem_drop (List.mem_of_mem_take hMem))
  obtain ⟨a, b, c, d, e, f, g, h, rfl⟩ := list_of_length_eight hFull
  obtain ⟨hA, hB, hC, hD⟩ := magic_bytes hBytes hMagic
  obtain ⟨ch, rest, hBody, hAscii⟩ := isBody.ascii
  have hNonzero : ch.toNat ≠ 0 := isBody.nonzero ch (by simp [hBody])
  have hFrame : frame body = byte (0xbaddad / 16777216) :: byte (0xbaddad / 65536) ::
      byte (0xbaddad / 256) :: byte 0xbaddad :: byte (body.length / 16777216) ::
      byte (body.length / 65536) :: byte (body.length / 256) :: byte body.length ::
      ch :: rest := by
    conv_lhs => rw [frame, hBody]
    rw [hBody]
    rfl
  -- One byte of the magic number lies where no frame can have it.
  by_cases hInside : 8 ≤ k
  · have hMem : a ∈ body := by
      have hTaken : a ∈ ((frame body).drop k).take 8 := by
        rw [← hWindow]
        simp
      have hFirst := List.mem_of_mem_take hTaken
      obtain ⟨j, rfl⟩ := Nat.exists_eq_add_of_le hInside
      rw [← List.drop_drop, frame_drop] at hFirst
      exact List.mem_of_mem_drop hFirst
    exact absurd hA (isBody.nonzero a hMem)
  · rw [hFrame] at hWindow
    obtain rfl | rfl | rfl | rfl | rfl | rfl | rfl : k = 1 ∨ k = 2 ∨ k = 3 ∨ k = 4 ∨ k = 5 ∨
        k = 6 ∨ k = 7 := by omega
    all_goals
      simp only [List.drop_succ_cons, List.drop_zero, List.take_succ_cons, List.cons.injEq]
        at hWindow
    · rw [hWindow.1, byte_toNat] at hA
      omega
    · rw [hWindow.1, byte_toNat] at hA
      omega
    · rw [hWindow.1, byte_toNat] at hA
      omega
    · rw [← hWindow.2.2.2.2.1] at hNonzero hAscii
      exact too_long hBytes hNonzero hAscii
    · rw [hWindow.2.2.2.1] at hD
      omega
    · rw [hWindow.2.2.1] at hC
      omega
    · rw [hWindow.2.1] at hB
      omega

end Hengda.Rpc

import Mathlib.Data.List.Basic

/-! Bytes as characters with small numbers, and numbers of 32 bits written with the
most significant byte first. -/
namespace Bytes

def byte (n : Nat) : Char :=
  Char.ofNat (n % 256)

def IsBytes (t : List Char) : Prop :=
  ∀ ch ∈ t, ch.toNat < 256

def bigEndian (n : Nat) : List Char :=
  [byte (n / 16777216), byte (n / 65536), byte (n / 256), byte n]

/-- The number that the bytes stand for. -/
def value (t : List Char) : Nat :=
  t.foldl (fun v ch => v * 256 + ch.toNat) 0

/-- The same bits as a signed number. -/
def signed (n : Nat) : Int :=
  if n < 2147483648 then n else (n : Int) - 4294967296

@[simp]
theorem byte_toNat (n : Nat) : (byte n).toNat = n % 256 := by
  have hSmall : n % 256 < 0xd800 := by omega
  rw [byte, Char.ofNat, dif_pos (Or.inl hSmall)]
  rfl

theorem isBytes_bigEndian (n : Nat) : IsBytes (bigEndian n) := by
  intro ch hMem
  simp only [bigEndian, List.mem_cons, List.not_mem_nil, or_false] at hMem
  rcases hMem with rfl | rfl | rfl | rfl <;> rw [byte_toNat] <;> omega

theorem value_bigEndian {n : Nat} (hRange : n < 4294967296) : value (bigEndian n) = n := by
  simp only [value, bigEndian, List.foldl_cons, List.foldl_nil, byte_toNat]
  omega

theorem signed_of_small {n : Nat} (hSmall : n < 2147483648) : signed n = n :=
  if_pos hSmall

/-- Four bytes are determined by the number that they stand for. -/
theorem value_injective {a b c d : Nat} {u v w x : Char} (hV : v.toNat < 256)
    (hW : w.toNat < 256) (hX : x.toNat < 256) (hB : b < 256) (hC : c < 256) (hD : d < 256)
    (hValue : value [u, v, w, x] = ((a * 256 + b) * 256 + c) * 256 + d) :
    u.toNat = a ∧ v.toNat = b ∧ w.toNat = c ∧ x.toNat = d := by
  simp only [value, List.foldl_cons, List.foldl_nil] at hValue
  omega

end Bytes

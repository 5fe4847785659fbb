import Mathlib.Data.List.Basic

/-! The encoder that turns an image into the text of an alarm. -/
namespace Hengda

def entab : List Char :=
  "ABCDEFGHIJKLMNOPQRSTUVWXYZabcdefghijklmnopqrstuvwxyz0123456789+/".toList

def entabAt (n : Nat) : Char :=
  entab.getD n '='

/-- Three bytes give four characters; a rest of one or two bytes is padded. -/
def base64Encode : List UInt8 → List Char
  | a :: b :: c :: rest =>
      entabAt (a >>> 2).toNat ::
        entabAt (((a <<< 4) ||| (b >>> 4)) &&& 0x3f).toNat ::
        entabAt (((b <<< 2) ||| (c >>> 6)) &&& 0x3f).toNat ::
        entabAt (c &&& 0x3f).toNat :: base64Encode rest
  | [a, b] =>
      [entabAt (a >>> 2).toNat, entabAt (((a &&& 0x03) <<< 4) ||| (b >>> 4)).toNat,
        entabAt ((b &&& 0x0f) <<< 2).toNat, '=']
  | [c] => [entabAt (c >>> 2).toNat, entabAt ((c &&& 0x03) <<< 4).toNat, '=', '=']
  | [] => []

@[simp]
theorem base64Encode_eq_nil (bytes : List UInt8) : base64Encode bytes = [] ↔ bytes = [] := by
  match bytes with
  | [] => simp [base64Encode]
  | [_] => simp [base64Encode]
  | [_, _] => simp [base64Encode]
  | _ :: _ :: _ :: _ => simp [base64Encode]

end Hengda

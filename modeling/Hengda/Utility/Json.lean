import Hengda.Utility.Types
import Mathlib.Data.List.Forall2

/-! The two JSON values of the server: requests and answers are values of the
RPC library, what the border files hold is read by json11. Both libraries
print and read text; that code is a parameter, the accessors are not. -/
namespace Hengda

abbrev Text := List Char

/-- What a function for C strings sees of a text. -/
def cString (t : Text) : Text :=
  t.takeWhile fun ch => ch ≠ '\x00'

/-- A `std::string` or `fastring` that is made from a C string. -/
def ofCString (s : String) : String :=
  String.ofList (cString s.toList)

/-- The value of the first member with the key. -/
def lookup {Value : Type*} (missing : Value) (key : String) (members : List (String × Value)) :
    Value :=
  ((members.find? fun m => m.1 = key).map Prod.snd).getD missing

/-- `json::Value` -/
inductive Json
  | null
  | bool (b : Bool)
  | int (n : Int)
  | double (q : ℚ)
  | string (s : String)
  | array (items : List Json)
  | object (members : List (String × Json))

/-- `operator[]` with a key. It stops the program for a value that is neither
null nor an object; the null member that it adds for a missing key cannot be
told from a missing member. -/
def Json.member (key : String) : Json → Option Json
  | .null => some .null
  | .object members => some (lookup .null key members)
  | _ => none

/-- A value that one member can be read from lets every other one be read. -/
theorem Json.member_total {key : String} {v found : Json} (hMember : v.member key = some found)
    (other : String) : ∃ w, v.member other = some w := by
  cases v with
  | null => exact ⟨_, rfl⟩
  | object members => exact ⟨_, rfl⟩
  | _ => cases hMember

/-- `get_string`, which stops the program for a value of another type. It gives a C string,
and a string that is made from it ends in front of the first zero. -/
def Json.getString : Json → Option String
  | .string s => some (ofCString s)
  | _ => none

/-- `json11::Json`. A number that is written with more than nine characters is
read as a double. -/
inductive Json11
  | null
  | bool (b : Bool)
  | int (n : Int)
  | double (q : ℚ)
  | string (s : String)
  | array (items : List Json11)
  | object (members : List (String × Json11))

namespace Json11

/-- Outside the range of `int` the conversion of a double has no defined
result; the least value stands for it here. -/
def intValue : Json11 → Int
  | .int n => n
  | .double q => if IsInt32 (truncate q) then truncate q else -2147483648
  | _ => 0

def arrayItems : Json11 → List Json11
  | .array items => items
  | _ => []

def member (key : String) : Json11 → Json11
  | .object members => lookup .null key members
  | _ => .null

def item (i : Nat) : Json11 → Json11
  | .array items => items[i]?.getD .null
  | _ => .null

end Json11

/-- The two values are the same as far as the accessors can tell. -/
inductive Same : Json → Json11 → Prop
  | null : Same .null .null
  | bool (b : Bool) : Same (.bool b) (.bool b)
  | int (n : Int) : Same (.int n) (.int n)
  | wide (n : Int) : Same (.int n) (.double n)
  | double (q : ℚ) : Same (.double q) (.double q)
  | string (s : String) : Same (.string s) (.string s)
  | array {xs : List Json} {ys : List Json11} (items : List.Forall₂ Same xs ys) :
      Same (.array xs) (.array ys)
  | object {xs : List (String × Json)} {ys : List (String × Json11)}
      (members : ∀ key, Same (lookup .null key xs) (lookup .null key ys)) :
      Same (.object xs) (.object ys)

theorem Same.intValue {n : Int} {j : Json11} (same : Same (.int n) j) (hRange : IsInt32 n) :
    j.intValue = n := by
  cases same with
  | int => rfl
  | wide =>
      have hTruncate : truncate (n : ℚ) = n := by simp [truncate]
      change (if IsInt32 (truncate (n : ℚ)) then truncate (n : ℚ) else -2147483648) = n
      rw [hTruncate, if_pos hRange]

theorem Same.arrayItems {items : List Json} {j : Json11} (same : Same (.array items) j) :
    List.Forall₂ Same items j.arrayItems := by
  cases same with
  | array hItems => exact hItems

theorem Same.member {members : List (String × Json)} {j : Json11}
    (same : Same (.object members) j) (key : String) :
    Same (lookup .null key members) (j.member key) := by
  cases same with
  | object hMembers => exact hMembers key

/-- `str` of the RPC library, and `parse` and `dump` of json11. -/
structure JsonText where
  str : Json → Text
  parse : Text → Except Text Json11
  dump : Json11 → Text

end Hengda

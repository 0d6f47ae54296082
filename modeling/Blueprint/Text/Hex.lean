/-!
Hexadecimal digits: numbers in them, and bytes, two digits for each.
-/

set_option autoImplicit false

namespace Blueprint.Text

/-- The value of a digit, of either case. -/
def hexValue? (c : Char) : Option Nat :=
  if c.isDigit then some (c.toNat - '0'.toNat)
  else if 'a' ≤ c ∧ c ≤ 'f' then some (c.toNat - 'a'.toNat + 10)
  else if 'A' ≤ c ∧ c ≤ 'F' then some (c.toNat - 'A'.toNat + 10)
  else none

def isHexDigit (c : Char) : Bool := (hexValue? c).isSome

/-- The number that digits write in a base; what is no digit counts as zero. -/
def numberOf (base : Nat) (digits : List Char) : Nat :=
  digits.foldl (fun n c ↦ base * n + (hexValue? c).getD 0) 0

def hex (bytes : List UInt8) : String :=
  String.ofList (bytes.flatMap fun b ↦
    [Nat.digitChar (b.toNat / 16), Nat.digitChar (b.toNat % 16)])

def unhexChars : List Char → List UInt8
  | a :: b :: rest => UInt8.ofNat (numberOf 16 [a, b]) :: unhexChars rest
  | _ => []

/-- The bytes that digits write. -/
def unhex (text : String) : List UInt8 := unhexChars text.toList

end Blueprint.Text

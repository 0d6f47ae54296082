/-!
Names: runs by 128-bit numbers, and the scopes of a run by numbers of their own, from 0 on.
-/

set_option autoImplicit false

namespace Blueprint

/-- The scope of a run's entry branch. -/
def rootScope : Nat := 0

/-- A run's name, a 128-bit number. -/
abbrev RunId := Nat

/-- The name of no run. -/
def nilRun : RunId := 0

/-- A number in hexadecimal, to a number of digits. -/
def hexDigits (width n : Nat) : List Char :=
  (List.range width).map fun i ↦ Nat.digitChar (n / Nat.pow 16 (width - 1 - i) % 16)

/-- A run's name as text: thirty-two digits in five groups. -/
def runName (run : RunId) : String :=
  let digits := hexDigits 32 run
  String.ofList (digits.take 8 ++ '-' :: (digits.drop 8).take 4 ++ '-' :: (digits.drop 12).take 4 ++
    '-' :: (digits.drop 16).take 4 ++ '-' :: digits.drop 20)

end Blueprint

/-!
The shortest decimal that names a binary floating-point number. A finite positive number is a
fraction of two naturals together with the interval of fractions that round to it; the shortest
decimal is taken from the coarsest decimal grid that has a point in the interval, and of two such
points it is the nearer one. Which one it is when the value lies halfway between them is left to the
written form.
-/

set_option autoImplicit false

namespace Blueprint.Decimal

/-- The number `digits * 10 ^ exponent`. -/
structure Scaled where
  digits : Nat
  exponent : Int
deriving Repr, DecidableEq

/-- Where a value halfway between two decimals goes. -/
inductive Tie where
  /-- To the one whose last digit is even. -/
  | toEven
  /-- To the one above. -/
  | upward
deriving DecidableEq

/-- Whether a value halfway above a number of grid steps goes down to it. -/
def Tie.fallsTo (tie : Tie) (steps : Nat) : Bool :=
  match tie with
  | .toEven => steps % 2 == 0
  | .upward => false

/-- How many decimal digits a number has, one for zero. -/
def width (n : Nat) : Nat := (Nat.toDigits 10 n).length

/-- A positive floating-point number and its neighbourhood: the value is `middle / unit`, and
exactly the fractions between `low / unit` and `high / unit` round to it, with the two ends when
`closed`. -/
structure Neighbourhood where
  low : Nat
  middle : Nat
  high : Nat
  unit : Nat
  closed : Bool

/-- The neighbourhood of a finite number other than zero, from its bit pattern without the sign. -/
def Neighbourhood.ofBits (bits : Nat) : Neighbourhood :=
  let exponent := bits / Nat.pow 2 52 % Nat.pow 2 11
  let stored := bits % Nat.pow 2 52
  let mantissa := if exponent == 0 then stored else stored + Nat.pow 2 52
  -- The value is `mantissa * 2 ^ power / 2 ^ 1074`; quarters make both half gaps whole.
  let power := if exponent == 0 then 0 else exponent - 1
  let below := if stored == 0 && exponent > 1 then 1 else 2
  { low := (4 * mantissa - below) * Nat.pow 2 power
    middle := 4 * mantissa * Nat.pow 2 power
    high := (4 * mantissa + 2) * Nat.pow 2 power
    unit := 4 * Nat.pow 2 1074
    closed := mantissa % 2 == 0 }

/-- Whether a fraction rounds to the number. -/
def Neighbourhood.holds (n : Neighbourhood) (numerator denominator : Nat) : Bool :=
  let value := numerator * n.unit
  let low := n.low * denominator
  let high := n.high * denominator
  if n.closed then low ≤ value && value ≤ high else low < value && value < high

/-- The power of ten of the value's first digit. -/
def Neighbourhood.magnitude (n : Neighbourhood) : Int :=
  if n.unit ≤ n.middle then (width (n.middle / n.unit) : Int) - 1
  else
    let places := width (n.unit / n.middle)
    if n.middle * Nat.pow 10 (places - 1) == n.unit then -((places : Int) - 1) else -(places : Int)

/-- The point of the grid of multiples of `10 ^ exponent` that names the number, if one of the
value's two neighbours there does. -/
def Neighbourhood.onGrid (n : Neighbourhood) (tie : Tie) (exponent : Int) : Option Nat :=
  let up := Nat.pow 10 exponent.toNat
  let down := Nat.pow 10 (-exponent).toNat
  let floor := n.middle * down / (n.unit * up)
  let belowHolds := n.holds (floor * up) down
  let aboveHolds := n.holds ((floor + 1) * up) down
  let twice := 2 * (n.middle * down)
  let halfway := (2 * floor + 1) * (n.unit * up)
  let nearerBelow := twice < halfway || (twice == halfway && tie.fallsTo floor)
  if belowHolds && (!aboveHolds || nearerBelow) then some floor
  else if aboveHolds then some (floor + 1)
  else none

/-- Tries ever finer grids, seventeen digits being enough for any number. -/
def Neighbourhood.search (n : Neighbourhood) (tie : Tie) (exponent : Int) : Nat → Scaled
  | 0 => ⟨n.middle / n.unit, 0⟩
  | tries + 1 =>
    match n.onGrid tie exponent with
    | some digits => ⟨digits, exponent⟩
    | none => n.search tie (exponent - 1) tries

/-- The number without its trailing zeros. -/
def Scaled.trim (s : Scaled) : Scaled :=
  let all := Nat.toDigits 10 s.digits
  let kept := (all.reverse.dropWhile (· == '0')).reverse
  if kept.isEmpty then ⟨0, 0⟩
  else
    let dropped := all.length - kept.length
    ⟨s.digits / Nat.pow 10 dropped, s.exponent + dropped⟩

/-- The shortest decimal of a finite floating-point number, without its sign. -/
def shortest (tie : Tie) (x : Float) : Scaled :=
  let bits := x.toBits.toNat % Nat.pow 2 63
  if bits == 0 then ⟨0, 0⟩
  else
    let n := Neighbourhood.ofBits bits
    (n.search tie n.magnitude 18).trim

/-- Whether the sign bit is set. -/
def isNegative (x : Float) : Bool := Nat.pow 2 63 ≤ x.toBits.toNat

end Blueprint.Decimal

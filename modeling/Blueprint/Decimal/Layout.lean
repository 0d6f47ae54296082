import Blueprint.Decimal.Shortest

/-!
How a floating-point number is laid out as text: which magnitudes are written with a decimal point
in place and which with an exponent, and whether whole numbers keep a fraction.
-/

set_option autoImplicit false

namespace Blueprint.Decimal

/-- The choices of one written form. -/
structure Layout where
  /-- Numbers whose first digit is worth less than this power of ten get an exponent, if any do. -/
  smallest : Option Int
  /-- Numbers whose first digit is worth this power of ten or more get an exponent, if any do. -/
  largest : Option Int
  /-- Whole numbers are followed by `.0`. -/
  keepsFraction : Bool
  /-- Of two shortest decimals that are equally near, the one that is written. -/
  tie : Tie

/-- The digits with the point in its place. -/
def positional (s : Scaled) (keepsFraction : Bool) : List Char :=
  let digits := Nat.toDigits 10 s.digits
  if 0 ≤ s.exponent then
    digits ++ List.replicate s.exponent.toNat '0' ++ (if keepsFraction then ['.', '0'] else [])
  else
    let places := (-s.exponent).toNat
    if places < digits.length then
      digits.take (digits.length - places) ++ '.' :: digits.drop (digits.length - places)
    else '0' :: '.' :: (List.replicate (places - digits.length) '0' ++ digits)

/-- One digit, the others after a point, and a signed exponent. -/
def scientific (s : Scaled) : List Char :=
  let digits := Nat.toDigits 10 s.digits
  let power := s.exponent + (digits.length - 1 : Nat)
  let fraction := if digits.length ≤ 1 then [] else '.' :: digits.drop 1
  let sign := if power < 0 then '-' else '+'
  digits.take 1 ++ fraction ++ 'e' :: sign :: Nat.toDigits 10 power.natAbs

/-- The text of a finite number. -/
def Layout.write (l : Layout) (x : Float) : String :=
  let s := shortest l.tie x
  let power := s.exponent + (width s.digits - 1 : Nat)
  let outside := s.digits != 0 &&
    ((l.smallest.any fun p ↦ power < p) || (l.largest.any fun p ↦ p ≤ power))
  let sign := if isNegative x then ['-'] else []
  String.ofList (sign ++ if outside then scientific s else positional s l.keepsFraction)

end Blueprint.Decimal

import Blueprint.Image.Basic

/-!
Portable pixmaps: bitmaps, greymaps and pixmaps, in decimal numbers or, for the latter two, in bytes.
Samples up to another maximum than 255 are scaled.
-/

set_option autoImplicit false

namespace Blueprint.Pixmap

open Picture

/-- Parts numbers. -/
def isBlank (b : UInt8) : Bool := b == 32 || (9 ≤ b && b ≤ 13)

/-- The number that decimal digits write, a plus sign before them allowed. -/
def number? (digits : Bytes) : Option Nat :=
  let digits := match digits with
    | 43 :: rest => rest
    | digits => digits
  if !digits.isEmpty && digits.all (fun b ↦ 48 ≤ b && b ≤ 57) then
    some (digits.foldl (fun n b ↦ 10 * n + (b.toNat - 48)) 0)
  else none

/-- A word of a header and what follows the blank behind it. A number sign starts a comment up to
the end of its line. -/
def word : (comment : Bool) → (read : Bytes) → Bytes → Bytes × Bytes
  | _, read, [] => (read.reverse, [])
  | true, read, b :: rest => word (!(b == 10 || b == 13)) read rest
  | false, read, b :: rest =>
    if b == 35 then word true read rest
    else if isBlank b then
      if read.isEmpty then word false read rest else (read.reverse, rest)
    else word false (b :: read) rest

def headerNumber? (bytes : Bytes) : Option (Nat × Bytes) :=
  let (digits, rest) := word false [] bytes
  (number? digits).bind fun n ↦ if n < UInt32.size then some (n, rest) else none

/-- Samples in decimal numbers, as many as wanted. -/
def decimals? : Nat → Bytes → Option (List Nat)
  | 0, _ => some []
  | count + 1, bytes => do
    let start := bytes.dropWhile isBlank
    let n ← number? (start.takeWhile fun b ↦ !isBlank b)
    return n :: (← decimals? count ((start.dropWhile fun b ↦ !isBlank b).drop 1))

/-- Samples of a bitmap; one is black. -/
def bits? : Nat → Bytes → Option Bytes
  | 0, _ => some []
  | _, [] => none
  | count + 1, b :: rest =>
    if isBlank b then bits? (count + 1) rest
    else if b == 48 then (bits? count rest).map (0xff :: ·)
    else if b == 49 then (bits? count rest).map (0 :: ·)
    else none

/-- Pairs of bytes as samples. -/
def wide : Bytes → List Nat
  | a :: b :: rest => (256 * a.toNat + b.toNat) :: wide rest
  | _ => []

/-- A sample on the scale up to 255, rounded to the nearest. -/
def scale (most sample : Nat) : UInt8 :=
  if most = 255 then UInt8.ofNat sample
  else if most < 256 then UInt8.ofNat (min 255 ((2 * 255 * sample + most) / (2 * most)))
  else narrow (min 65535 ((2 * 65535 * sample + most) / (2 * most)))

/-- Samples up to a maximum, in decimal numbers or in bytes. -/
def samples? (plain : Bool) (count most : Nat) (bytes : Bytes) : Option Bytes := do
  let limit := if most < 256 then 255 else 65535
  let samples ←
    if plain then decimals? count bytes
    else if most < 256 then (takeExactly? count bytes).map fun (raster, _) ↦ raster.map UInt8.toNat
    else (takeExactly? (2 * count) bytes).map fun (raster, _) ↦ wide raster
  if samples.all (· ≤ limit) then some (samples.map (scale most)) else none

/-- A picture with a maximum in its header. -/
def graded? (plain : Bool) (channels : Nat) (bytes : Bytes) : Option Picture := do
  let (width, rest) ← headerNumber? bytes
  let (height, rest) ← headerNumber? rest
  let (most, rest) ← headerNumber? rest
  if most = 0 ∨ 65535 < most then none
  else
    let samples ← samples? plain (width * height * channels) most rest
    return { width, height, pixels := ← ofChannels? channels samples }

/-- A picture of black and white. -/
def bitmap? (bytes : Bytes) : Option Picture := do
  let (width, rest) ← headerNumber? bytes
  let (height, rest) ← headerNumber? rest
  return { width, height, pixels := ← ofChannels? 1 (← bits? (width * height) rest) }

def decode? : Bytes → Option Picture
  | 0x50 :: 0x31 :: rest => bitmap? rest
  | 0x50 :: 0x32 :: rest => graded? true 1 rest
  | 0x50 :: 0x33 :: rest => graded? true 3 rest
  | 0x50 :: 0x35 :: rest => graded? false 1 rest
  | 0x50 :: 0x36 :: rest => graded? false 3 rest
  | _ => none

end Blueprint.Pixmap

import Blueprint.Asset

/-!
Pictures of eight-bit red, green, blue and alpha samples, row by row from the top, and the reading
of numbers from bytes.
-/

set_option autoImplicit false

namespace Blueprint

/-- A picture. -/
structure Picture where
  width : Nat
  height : Nat
  /-- Four bytes for each pixel. -/
  pixels : Bytes
deriving DecidableEq

namespace Picture

/-- The number of bytes, the most significant first. -/
def bigEndian (bytes : Bytes) : Nat := bytes.foldl (fun n b ↦ 256 * n + b.toNat) 0

/-- The number of bytes, the least significant first. -/
def littleEndian (bytes : Bytes) : Nat := bigEndian bytes.reverse

/-- The first bytes of some, and the rest, if there are as many. -/
def takeExactly? (count : Nat) (bytes : Bytes) : Option (Bytes × Bytes) :=
  let first := bytes.take count
  if first.length = count then some (first, bytes.drop count) else none

/-- A sixteen-bit sample as the nearest eight-bit one. -/
def narrow (sample : Nat) : UInt8 := UInt8.ofNat ((sample + 128) / 257)

/-- Pixels of one sample for grey, two with alpha, three for colours, or four. -/
def ofChannels? : Nat → Bytes → Option Bytes
  | 1, bytes => some (bytes.flatMap fun v ↦ [v, v, v, 0xff])
  | 2, bytes => pairs bytes
  | 3, bytes => triples bytes
  | 4, bytes => some bytes
  | _, _ => none
where
  pairs : Bytes → Option Bytes
    | [] => some []
    | v :: a :: rest => (pairs rest).map fun done ↦ v :: v :: v :: a :: done
    | _ => none
  triples : Bytes → Option Bytes
    | [] => some []
    | r :: g :: b :: rest => (triples rest).map fun done ↦ r :: g :: b :: 0xff :: done
    | _ => none

/-- Cuts bytes into rows of a length, as many as wanted. -/
def rows? (length : Nat) : Nat → Bytes → Option (List Bytes)
  | 0, _ => some []
  | count + 1, bytes => do
    let (row, rest) ← takeExactly? length bytes
    return row :: (← rows? length count rest)

end Picture

end Blueprint

import Blueprint.Image.Basic

/-!
Windows bitmaps of 24 bits, without compression.
-/

set_option autoImplicit false

namespace Blueprint.Bitmap

open Picture

/-- A number of some bytes at an offset, the least significant first. -/
def field? (offset count : Nat) (bytes : Bytes) : Option Nat :=
  (takeExactly? count (bytes.drop offset)).map fun (field, _) ↦ littleEndian field

/-- A row of blue, green and red samples as pixels; what fills the row up is left out. -/
def row : Nat → Bytes → Bytes
  | count + 1, b :: g :: r :: rest => r :: g :: b :: 0xff :: row count rest
  | _, _ => []

/-- Rows stand from the bottom, or from the top when the height is negative, and fill four-byte
words. -/
def decode? (bytes : Bytes) : Option Picture := do
  let offset ← field? 10 4 bytes
  let headerSize ← field? 14 4 bytes
  let width ← field? 18 4 bytes
  let height ← field? 22 4 bytes
  let planes ← field? 26 2 bytes
  let depth ← field? 28 2 bytes
  let compression ← field? 30 4 bytes
  let fromTop := Nat.pow 2 31 ≤ height
  let height := if fromTop then UInt32.size - height else height
  if headerSize ≠ 40 ∨ planes ≠ 1 ∨ depth ≠ 24 ∨ compression ≠ 0 then none
  else if width = 0 ∨ Nat.pow 2 31 ≤ width ∨ height = 0 ∨ 65535 < width ∨ 65535 < height then none
  else
    let rows ← rows? ((3 * width + 3) / 4 * 4) height (bytes.drop offset)
    let rows := rows.map (row width)
    return { width, height, pixels := (if fromTop then rows else rows.reverse).flatten }

end Blueprint.Bitmap

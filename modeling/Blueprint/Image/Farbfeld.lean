import Blueprint.Image.Basic

/-!
Farbfeld files: sixteen-bit samples of red, green, blue and alpha behind a size.
-/

set_option autoImplicit false

namespace Blueprint.Farbfeld

open Picture

def signature : Bytes := "farbfeld".toUTF8.toList

/-- Sixteen-bit samples as eight-bit ones. -/
def samples : Bytes → Bytes
  | a :: b :: rest => narrow (256 * a.toNat + b.toNat) :: samples rest
  | _ => []

def decode? (bytes : Bytes) : Option Picture := do
  let (_, rest) ← takeExactly? 8 bytes
  let (width, rest) ← takeExactly? 4 rest
  let (height, rest) ← takeExactly? 4 rest
  let width := bigEndian width
  let height := bigEndian height
  let (raster, _) ← takeExactly? (8 * width * height) rest
  return { width, height, pixels := samples raster }

end Blueprint.Farbfeld

import Blueprint.Image.Bitmap
import Blueprint.Image.Farbfeld
import Blueprint.Image.Pixmap
import Blueprint.Image.Png

/-!
The format of a picture file, told by how the file starts.
-/

set_option autoImplicit false

namespace Blueprint.Picture

/-- The picture that a file holds, if its format is known and it is whole. -/
def decode? (bytes : Bytes) : Option Picture :=
  if Png.signature.isPrefixOf bytes then Png.decode? bytes
  else if Farbfeld.signature.isPrefixOf bytes then Farbfeld.decode? bytes
  else
    match bytes with
    | 0x42 :: 0x4d :: _ => Bitmap.decode? bytes
    | _ => Pixmap.decode? bytes

end Blueprint.Picture

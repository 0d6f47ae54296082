import Blueprint.Text.Quoted

/-!
Decoded assets: textures of eight-bit red, green, blue and alpha samples, and meshes picked from a
mesh archive, whose bytes stay as they are. A handle tells two assets of equal content apart.
-/

set_option autoImplicit false

namespace Blueprint

/-- Raw content. -/
abbrev Bytes := List UInt8

/-- A decoded image. -/
structure Texture where
  width : Nat
  height : Nat
  /-- Whether samplers treat the pixels as sRGB. -/
  srgb : Bool
  pixels : Bytes
deriving DecidableEq

/-- An archive and the mesh selected in it. -/
structure MeshImport where
  index : Nat
  name : Option String
  count : Nat
  bytes : Bytes
deriving DecidableEq

/-- A shared reference; two references are the same when their keys are. -/
structure Handle (α : Type) where
  key : Nat
  content : α

/-- A text that may be absent, as diagnostics show it. -/
def shownOption (text : Option String) : String :=
  match text with
  | some text => s!"Some({Text.quoted text})"
  | none => "None"

/-- A record as diagnostics show it. -/
def shownRecord (name : String) (fields : List (String × String)) : String :=
  name ++ " \x7b " ++ String.intercalate ", " (fields.map fun (field, value) ↦ field ++ ": " ++ value)
    ++ " \x7d"

def Texture.shown (t : Texture) : String :=
  shownRecord "Texture" [("width", toString t.width), ("height", toString t.height),
    ("srgb", toString t.srgb), ("bytes", toString t.pixels.length)]

def MeshImport.shown (m : MeshImport) : String :=
  shownRecord "MeshImport" [("mesh_index", toString m.index), ("mesh_name", shownOption m.name),
    ("mesh_count", toString m.count), ("bytes", toString m.bytes.length)]

end Blueprint

import Blueprint.Fetch.World
import Blueprint.Image.Format
import Blueprint.Mesh.Archive
import Blueprint.Text.Utf8

/-!
Decoders: what is made of the bytes of a resource. Only `blueprint` graphs change the world, by the
graph that is loaded.
-/

set_option autoImplicit false

namespace Blueprint

/-- Makes an asset from a descriptor's bytes. -/
abbrev Decoder (α : Type) := Descriptor → Bytes → World → Except ResolveError α × World

namespace Decoder

/-- A decoder that leaves the world alone. -/
def pure {α : Type} (decode : Descriptor → Bytes → Except ResolveError α) : Decoder α :=
  fun d bytes world ↦ (decode d bytes, world)

/-- The bytes as they are. -/
def raw : Decoder Bytes := pure fun _ bytes ↦ .ok bytes

/-- Why a picture or an archive is refused is left to their formats. -/
def imageFault : String := "not an image"

def archiveFault : String := "not a mesh archive"

def texture : Descriptor → Bytes → Except ResolveError Texture := fun d bytes ↦
  match Picture.decode? bytes with
  | some picture =>
    .ok { width := picture.width, height := picture.height, srgb := d.settings.srgb
          pixels := picture.pixels }
  | none => .error (.decode d.id.text "texture" imageFault)

def mesh : Descriptor → Bytes → Except ResolveError MeshImport := fun d bytes ↦
  match MeshArchive.ofBytes? bytes with
  | none => .error (.decode d.id.text "mesh" archiveFault)
  | some names =>
    match MeshArchive.select? names d.settings.meshSelector with
    | some index =>
      .ok { index, name := (names[index]?).join, count := names.length, bytes }
    | none =>
      let wanted := d.settings.meshSelector.getD "<first>"
      .error (.decode d.id.text "mesh" s!"no mesh {wanted} among {names.length}")

/-- A value read from JSON text. -/
def json {α : Type} (read : Nat → Source → Reading α) :
    Descriptor → Bytes → Except ResolveError α := fun d bytes ↦
  match (SourceText.ofBytes bytes).decode read with
  | .ok value => .ok value
  | .error fault => .error (.decode d.id.text "json" fault.message)

/-- Any JSON value. -/
def anyJson : Descriptor → Bytes → Except ResolveError Json :=
  json fun depth source ↦ source.toJson depth

/-- A shared reference to what a decoder makes. -/
def shared {α : Type} (decode : Descriptor → Bytes → Except ResolveError α) :
    Decoder (Handle α) := fun d bytes world ↦
  match decode d bytes with
  | .ok content =>
    (.ok ⟨world.references, content⟩, { world with references := world.references + 1 })
  | .error e => (.error e, world)

end Decoder

end Blueprint

import Blueprint.Value.Tagged

/-!
Descriptors as JSON objects, for tools.
-/

set_option autoImplicit false

namespace Blueprint

def ImportSettings.variant : ImportSettings → String
  | .none => "none"
  | .texture _ => "texture"
  | .mesh _ => "mesh"
  | .blueprint _ => "blueprint"
  | .raw _ => "raw"

/-- The settings as metadata, and as each kind of asset reads them. -/
def ImportSettings.summary (s : ImportSettings) : Json :=
  .ofMembers [("variant", .string s.variant), ("metadata", .string s.toMetadata.compact),
    ("srgb", .bool s.srgb), ("mesh", Value.textOrNull s.meshSelector),
    ("version", Value.textOrNull s.documentVersion)]

def ResourceKind.isOther : ResourceKind → Bool
  | .other _ => true
  | _ => false

def ResourceKind.summary (kind : ResourceKind) : Json :=
  .ofMembers [("tag", .string kind.tag), ("other", .bool kind.isOther)]

def Descriptor.summary (d : Descriptor) : Json :=
  .ofMembers [("id", .string d.id.text), ("uri", .string d.uri), ("hash", Value.textOrNull d.hash),
    ("type", d.kind.summary), ("settings", d.settings.summary),
    ("schema_version", Value.textOrNull (d.schemaVersion.map Version.render))]

end Blueprint

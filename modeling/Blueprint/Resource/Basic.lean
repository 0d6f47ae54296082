import Blueprint.Version

/-!
Resources: the id that names one, its kind, the settings it is imported with, and the descriptor
that says all of it and where the bytes are.
-/

set_option autoImplicit false

namespace Blueprint

/-- A resource's name, which is never empty. -/
structure ResourceId where
  text : String
  nonempty : text ≠ ""
deriving DecidableEq

namespace ResourceId

def ofString? (text : String) : Option ResourceId :=
  if h : text ≠ "" then some ⟨text, h⟩ else none

/-- What is said of an empty id. -/
def emptyMessage : String := "resource id must not be empty"

/-- Reads an id written as a JSON string. -/
def read (source : Source) : Reading ResourceId := do
  let text ← source.readString
  match ofString? text with
  | some id => .ok id
  | none => .error (.shape emptyMessage)

end ResourceId

/-- What kind of asset a resource is. -/
inductive ResourceKind where
  | texture
  | mesh
  | blueprint
  | json
  | other (tag : String)
deriving DecidableEq, Repr

namespace ResourceKind

/-- The tag as written in catalogs. -/
def tag : ResourceKind → String
  | .texture => "texture"
  | .mesh => "mesh"
  | .blueprint => "blueprint"
  | .json => "json"
  | .other tag => tag

/-- The kind of a tag, in letters of either case; a graph is a blueprint. -/
def ofTag (tag : String) : ResourceKind :=
  match String.ofList (tag.toList.map Char.toLower) with
  | "texture" => .texture
  | "mesh" => .mesh
  | "blueprint" => .blueprint
  | "graph" => .blueprint
  | "json" => .json
  | _ => .other tag

end ResourceKind

/-- How a resource is imported, by kind. -/
inductive ImportSettings where
  | none
  /-- Whether samplers treat the pixels as sRGB. -/
  | texture (srgb : Bool)
  /-- The name or index of the mesh to take. -/
  | mesh (selector : Option String)
  /-- The version of a document that declares none. -/
  | blueprint (version : Option String)
  /-- Settings of a kind that is not interpreted here. -/
  | raw (metadata : Json)

namespace ImportSettings

def srgbFields : List (Source.Field Bool) :=
  [⟨"srgb", fun _ source _ ↦ source.readBool, false⟩]

def textFields (name : String) : List (Source.Field (Option String)) :=
  [⟨name, fun _ source _ ↦ Source.readOptional Source.readString source, false⟩]

/-- The outcome of a reading, or a default where it fails. -/
def orDefault {α : Type} (reading : Reading α) (default : α) : α :=
  match reading with
  | .ok value => value
  | .error _ => default

/-- Settings written as a catalog's metadata. What is malformed counts as the kind's default. -/
def ofMetadata (kind : ResourceKind) (metadata : Json) : ImportSettings :=
  let source := Source.ofJson metadata
  let settings {α : Type} (fields : List (Source.Field α)) (default : α) : α :=
    if metadata.isNull then default
    else orDefault (source.readRecord "" fields default Source.depthLimit) default
  match kind with
  | .texture => .texture (settings srgbFields true)
  | .mesh => .mesh (settings (textFields "mesh") Option.none)
  | .blueprint => .blueprint (settings (textFields "version") Option.none)
  | .json | .other _ => if metadata.isNull then .none else .raw metadata

def ofText : Option String → Json
  | some text => .string text
  | Option.none => .null

/-- The metadata that writes the settings. -/
def toMetadata : ImportSettings → Json
  | .none => .null
  | .texture srgb => .object [("srgb", .bool srgb)]
  | .mesh selector => .object [("mesh", ofText selector)]
  | .blueprint version => .object [("version", ofText version)]
  | .raw metadata => metadata

/-- The sRGB flag, by default set. -/
def srgb : ImportSettings → Bool
  | .texture srgb => srgb
  | _ => true

def meshSelector : ImportSettings → Option String
  | .mesh selector => selector
  | _ => Option.none

def documentVersion : ImportSettings → Option String
  | .blueprint version => version
  | _ => Option.none

def same : ImportSettings → ImportSettings → Bool
  | .none, .none => true
  | .texture a, .texture b => a == b
  | .mesh a, .mesh b => a == b
  | .blueprint a, .blueprint b => a == b
  | .raw a, .raw b => a == b
  | _, _ => false

instance : BEq ImportSettings := ⟨same⟩

end ImportSettings

/-- Everything there is to say of one resource. A descriptor without a hash is never cached. -/
structure Descriptor where
  id : ResourceId
  uri : String
  hash : Option String := none
  kind : ResourceKind
  settings : ImportSettings := .none
  schemaVersion : Option Version := none

namespace Descriptor

/-- Sets the hash; an empty one is none. -/
def withHash (d : Descriptor) (hash : String) : Descriptor :=
  { d with hash := if hash = "" then none else some hash }

def same (a b : Descriptor) : Bool :=
  a.id == b.id && a.uri == b.uri && a.hash == b.hash && a.kind == b.kind &&
    a.settings == b.settings && a.schemaVersion == b.schemaVersion

instance : BEq Descriptor := ⟨same⟩

end Descriptor

end Blueprint

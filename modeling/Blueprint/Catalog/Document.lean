import Blueprint.Catalog.Basic
import Blueprint.Files.Basic
import Blueprint.Json.Printer

/-!
Catalogs as JSON documents: reading one, entry by entry, and writing one back.
-/

set_option autoImplicit false

namespace Blueprint

/-- A resource as a catalog document writes it. -/
structure CatalogEntry where
  id : String := ""
  uri : String := ""
  kind : String := ""
  hash : Option String := none
  metadata : Json := .null

/-- A catalog document. -/
structure CatalogDocument where
  version : String := ""
  resources : List CatalogEntry := []

/-- Why a catalog cannot be had. -/
inductive CatalogError where
  | json (fault : JsonFault)
  | version (text : String)
  | unreadable (path reason : String)

def CatalogError.name : CatalogError → String
  | .json _ => "Catalog.Json"
  | .version _ => "Catalog.Version"
  | .unreadable .. => "Catalog.Io"

def CatalogError.message : CatalogError → String
  | .json fault => s!"catalog is not valid JSON: {fault.message}"
  | .version text => s!"catalog version {Text.quoted text} is not a valid version"
  | .unreadable path reason => s!"failed to read catalog {path}: {reason}"

/-- What a catalog's failure reports: its message, and the words of what was wrong. -/
def CatalogError.causes (e : CatalogError) : List String :=
  match e with
  | .json fault => [e.message, fault.message]
  | .version _ => [e.message]
  | .unreadable _ reason => [e.message, reason]

namespace CatalogEntry

def fields : List (Source.Field CatalogEntry) := [
  ⟨"id", fun _ s entry ↦ do return { entry with id := ← s.readString }, true⟩,
  ⟨"uri", fun _ s entry ↦ do return { entry with uri := ← s.readString }, true⟩,
  ⟨"type", fun _ s entry ↦ do return { entry with kind := ← s.readString }, true⟩,
  ⟨"hash", fun _ s entry ↦ do
    return { entry with hash := ← Source.readOptional Source.readString s }, false⟩,
  ⟨"metadata", fun depth s entry ↦ do return { entry with metadata := ← s.toJson depth }, false⟩]

def read (depth : Nat) (source : Source) : Reading CatalogEntry :=
  source.readRecord "CatalogEntry" fields {} depth

/-- The descriptor an entry stands for, unless its id is empty. -/
def descriptor? (entry : CatalogEntry) (version : Version) : Option Descriptor := do
  let id ← ResourceId.ofString? entry.id
  let kind := ResourceKind.ofTag entry.kind
  let d : Descriptor :=
    { id, uri := entry.uri, kind
      settings := ImportSettings.ofMetadata kind entry.metadata
      schemaVersion := some version }
  match entry.hash with
  | some hash => some (d.withHash hash)
  | none => some d

/-- The entry that writes a descriptor. -/
def ofDescriptor (d : Descriptor) : CatalogEntry :=
  { id := d.id.text, uri := d.uri, kind := d.kind.tag, hash := d.hash
    metadata := d.settings.toMetadata }

/-- A member on a line of its own. -/
def line (depth : Nat) (name : String) (value : Json) : String :=
  Json.renderString name ++ ": " ++ value.indentedAt depth

/-- The entry's text at a depth; every field is written. -/
def render (depth : Nat) (entry : CatalogEntry) : String :=
  Json.bracketed "\x7b" "\x7d" depth [
    line (depth + 1) "id" (.string entry.id),
    line (depth + 1) "uri" (.string entry.uri),
    line (depth + 1) "type" (.string entry.kind),
    line (depth + 1) "hash" (ImportSettings.ofText entry.hash),
    line (depth + 1) "metadata" entry.metadata]

end CatalogEntry

namespace CatalogDocument

def fields : List (Source.Field CatalogDocument) := [
  ⟨"version", fun _ s doc ↦ do return { doc with version := ← s.readString }, true⟩,
  ⟨"resources", fun depth s doc ↦ do
    return { doc with resources := ← s.readList CatalogEntry.read depth }, false⟩]

def read (depth : Nat) (source : Source) : Reading CatalogDocument :=
  source.readRecord "CatalogDocument" fields {} depth

/-- The document's indented text. -/
def render (doc : CatalogDocument) : String :=
  Json.bracketed "\x7b" "\x7d" 0 [
    CatalogEntry.line 1 "version" (.string doc.version),
    Json.renderString "resources" ++ ": " ++
      Json.bracketed "[" "]" 1 (doc.resources.map (CatalogEntry.render 2))]

end CatalogDocument

namespace Catalog

/-- The catalog of a document. Entries with an empty id are left out. -/
def ofDocument (doc : CatalogDocument) : Except CatalogError Catalog :=
  match Version.ofString? doc.version with
  | none => .error (.version doc.version)
  | some version =>
    .ok ((ofVersion version).registerAll (doc.resources.filterMap (·.descriptor? version))).2

def toDocument (c : Catalog) : CatalogDocument :=
  { version := c.version.render, resources := c.entries.map .ofDescriptor }

/-- Reads a catalog's text. -/
def ofText (text : String) : Except CatalogError Catalog :=
  match (SourceText.ofString text).decode CatalogDocument.read with
  | .ok doc => ofDocument doc
  | .error fault => .error (.json fault)

/-- Reads a catalog's file. -/
def ofFile (files : Files) (path : Path) : Except CatalogError Catalog :=
  match files.readText path with
  | .ok text => ofText text
  | .error e => .error (.unreadable path.render e.message)

/-- Writes a catalog's text. -/
def toText (c : Catalog) : String := c.toDocument.render

end Catalog

end Blueprint

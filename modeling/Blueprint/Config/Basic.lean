import Blueprint.Catalog.Document
import Blueprint.Failure
import Blueprint.Json.Basic

/-!
The configuration of a provider: which catalogs it starts with, where it keeps fetched bytes, how it
downloads, which versions it accepts and how long it waits. `Config.toJson` writes one.
-/

set_option autoImplicit false

namespace Blueprint

/-- Where fetched bytes are kept. -/
inductive CacheKind where
  | none
  | memory
  | disk
  | redis
deriving DecidableEq

namespace CacheKind

def all : List CacheKind := [.none, .memory, .disk, .redis]

def name : CacheKind → String
  | .none => "none"
  | .memory => "memory"
  | .disk => "disk"
  | .redis => "redis"

def ofName? (text : String) : Option CacheKind := all.find? fun kind ↦ kind.name == text

theorem ofName?_name (kind : CacheKind) : ofName? kind.name = some kind := by
  cases kind <;> rfl

end CacheKind

structure CacheSettings where
  kind : CacheKind := .memory
  /-- The root of a cache on disk, if not the usual one. -/
  path : Option Path := none
  /-- The address of a shared store, if not the usual one. -/
  url : Option String := none
  /-- What the keys in a shared store start with. -/
  keyStart : String := "skein:blob"
deriving DecidableEq

structure DownloadSettings where
  timeoutSeconds : Option Nat := none
  userAgent : Option String := none
  /-- Where relative paths of files start. -/
  fileRoot : Option Path := none
deriving DecidableEq

structure Config where
  /-- The files of catalogs, in the order of their registration. -/
  catalogs : List Path := []
  cache : CacheSettings := {}
  download : DownloadSettings := {}
  versions : VersionRange := .standard
  resolveSeconds : Option Nat := none
  executionSeconds : Option Nat := none
deriving DecidableEq

/-- Why a configuration cannot be had or used. -/
inductive ConfigError where
  | unreadable (path : Path) (error : FileError)
  | malformed (path : Path)
  | userAgent
  | storeUrl
  | catalog (path : Path) (error : CatalogError)

namespace ConfigError

def message : ConfigError → String
  | .unreadable path _ => s!"Failed to read config file from {path.render}"
  | .malformed path => s!"Failed to deserialize config from {path.render}"
  | .userAgent => "Failed to build HTTP client"
  | .storeUrl => "Invalid Redis URL"
  | .catalog path _ => s!"Failed to load catalog {path.render}"

def causes : ConfigError → List String
  | .unreadable _ e => [e.message]
  | .malformed _ => ["the document describes no configuration"]
  | .userAgent => ["builder error", "failed to parse header value"]
  | .storeUrl => ["Redis URL did not parse- InvalidClientConfig"]
  | .catalog _ e => e.causes

def failure (e : ConfigError) : Failure := { message := e.message, causes := e.causes }

end ConfigError

namespace Config

def milliseconds (seconds : Option Nat) : Option Nat := seconds.map (1000 * ·)

def resolveDeadline (c : Config) : Option Nat := milliseconds c.resolveSeconds

def executionDeadline (c : Config) : Option Nat := milliseconds c.executionSeconds

def downloadDeadline (c : Config) : Option Nat := milliseconds c.download.timeoutSeconds

/-- The configuration as JSON, every setting written out. -/
def toJson (c : Config) : Json :=
  let text (s : Option String) : Json := (s.map Json.string).getD .null
  let path (p : Option Path) : Json := text (p.map Path.render)
  let number (n : Option Nat) : Json := (n.map fun n ↦ .ofInt n).getD .null
  .ofMembers [
    ("catalogs", .array (c.catalogs.map fun p ↦ .string p.render)),
    ("cache", .ofMembers [
      ("kind", .string c.cache.kind.name),
      ("path", path c.cache.path),
      ("url", text c.cache.url),
      ("prefix", .string c.cache.keyStart)]),
    ("download", .ofMembers [
      ("timeout_secs", number c.download.timeoutSeconds),
      ("user_agent", text c.download.userAgent),
      ("file_root", path c.download.fileRoot)]),
    ("versions", .ofMembers [
      ("min", .string c.versions.min.render),
      ("max", .string c.versions.max.render)]),
    ("resolve_timeout_secs", number c.resolveSeconds),
    ("execution_timeout_secs", number c.executionSeconds)]

end Config

end Blueprint

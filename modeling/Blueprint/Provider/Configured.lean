import Blueprint.Cache.Address
import Blueprint.Cache.Disk
import Blueprint.Config.Basic
import Blueprint.Provider.Basic

/-!
Providers that a configuration describes. `Provider.ofConfig` fails by the first setting that cannot
be used: the user agent, then the address of the store, then the catalogs in their order.
-/

set_option autoImplicit false

namespace Blueprint

/-- Whether a text may stand in a header: without control characters other than tabs. -/
def isHeaderText (text : String) : Bool :=
  text.toList.all fun c ↦ (32 ≤ c.toNat && c.toNat ≠ 127) || c == '\t'

/-- What the machine has that settings fall back on. -/
structure Surroundings where
  net : Web := .unreachable
  /-- The usual root of a cache on disk. -/
  cacheRoot : Path
  /-- The usual address of a shared store. -/
  storeUrl : String := "redis://127.0.0.1:6379/0"

namespace CacheSettings

/-- The cache that settings describe. -/
def open_ (s : CacheSettings) (around : Surroundings) : Except ConfigError (Option Cache) :=
  match s.kind with
  | .none => .ok none
  | .memory => .ok (some .memory)
  | .disk => .ok (some (.disk (s.path.getD around.cacheRoot)))
  | .redis =>
    if Cache.isStoreUrl (s.url.getD around.storeUrl) then .ok (some (.shared s.keyStart))
    else .error .storeUrl

end CacheSettings

namespace Provider

/-- Registers the catalogs of files, in their order. -/
def registerFiles (p : Provider) (files : Files) : List Path → Except ConfigError Provider
  | [] => .ok p
  | path :: rest =>
    match Catalog.ofFile files path with
    | .error e => .error (.catalog path e)
    | .ok catalog => (p.registerCatalog catalog).2.registerFiles files rest

/-- The provider that a configuration describes. -/
def ofConfig (config : Config) (registry : Registry) (around : Surroundings) (files : Files) :
    Except ConfigError Provider := do
  if !config.download.userAgent.all isHeaderText then throw .userAgent
  let cache ← config.cache.open_ around
  let p : Provider :=
    { fallback := .general config.download.fileRoot around.net
      cache
      registry
      supported := config.versions
      deadline := config.resolveDeadline }
  p.registerFiles files config.catalogs

end Provider

end Blueprint

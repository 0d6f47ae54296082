import Blueprint.Catalog.Basic
import Blueprint.Decode.Blueprint
import Blueprint.Fetch.Loader
import Blueprint.Node.Builtin

/-!
Providers: the catalog of all resources, the downloaders in the order of their registration, and
the cache. A provider turns ids into assets.
-/

set_option autoImplicit false

namespace Blueprint

structure Provider where
  catalog : Catalog := default
  downloaders : List Downloader := []
  /-- Takes what no registered downloader accepts. -/
  fallback : Downloader
  cache : Option Cache := none
  /-- The node kinds that blueprints may use. -/
  registry : Registry := .standard
  /-- The versions of blueprints that are loaded. -/
  supported : VersionRange := .standard
  /-- Milliseconds after which a fetch is given up. -/
  deadline : Option Nat := none

namespace Provider

/-- Adds the descriptors of a catalog, and counts those that are new. -/
def registerCatalog (p : Provider) (catalog : Catalog) : Nat × Provider :=
  let (added, merged) := p.catalog.merge catalog
  (added, { p with catalog := merged })

def registerDownloader (p : Provider) (downloader : Downloader) : Provider :=
  { p with downloaders := p.downloaders ++ [downloader] }

def descriptor? (p : Provider) (id : String) : Option Descriptor := p.catalog.get? id

def ids (p : Provider) : List String := p.catalog.ids

/-- The first registered downloader that accepts a descriptor, else the fallback. -/
def select (p : Provider) (d : Descriptor) : Downloader :=
  (p.downloaders.find? fun downloader ↦ downloader.accepts d).getD p.fallback

def loaderFor (p : Provider) (d : Descriptor) : Loader :=
  { downloader := p.select d, cache := p.cache, deadline := p.deadline }

/-- The descriptor that an id names. -/
def lookup (p : Provider) (id : String) : Except ResolveError Descriptor :=
  if id = "" then .error .emptyId
  else
    match p.descriptor? id with
    | some d => .ok d
    | none => .error (.unknownId id)

/-- Resolves an id with a decoder. -/
def resolve {α : Type} (p : Provider) (decoder : Decoder α) (id : String) (world : World) :
    Except ResolveError α × World :=
  match p.lookup id with
  | .error e => (.error e, world)
  | .ok d => (p.loaderFor d).resolve decoder d world

/-- The decoder of blueprints. -/
def blueprints (p : Provider) : Decoder GraphInstance := Decoder.blueprint p.registry p.supported

/-- Has the bytes of a resource in the cache. -/
def preload (p : Provider) (id : String) (world : World) : Except ResolveError Unit × World :=
  match p.lookup id with
  | .error e => (.error e, world)
  | .ok d => (p.loaderFor d).preload d world

/-- Preloads resources in order; answers those that failed. -/
def preloadEach (p : Provider) : List String → World → List (String × ResolveError) × World
  | [], world => ([], world)
  | id :: rest, world =>
    let (outcome, world) := p.preload id world
    let (failures, world) := p.preloadEach rest world
    match outcome with
    | .ok () => (failures, world)
    | .error e => ((id, e) :: failures, world)

/-- Preloads all resources of the catalog. -/
def preloadAll (p : Provider) (world : World) : List (String × ResolveError) × World :=
  p.preloadEach p.ids world

/-- The value that an asset of a form is decoded to. -/
def assetDecoder : AssetForm → Decoder Value
  | .texture => valued (.shared Decoder.texture) .texture
  | .mesh => valued (.shared Decoder.mesh) .mesh
  | .json => valued (.pure Decoder.anyJson) .ofJson
where
  valued {α : Type} (decoder : Decoder α) (value : α → Value) : Decoder Value :=
    fun d bytes world ↦
      let (outcome, world) := decoder d bytes world
      (outcome.map value, world)

end Provider

end Blueprint

import Blueprint.Cache.Basic
import Blueprint.Decode.Basic
import Blueprint.Fetch.Download

/-!
The way from a descriptor to an asset: cache, download, cache again, decode. A fetch begins at one
moment and lands at another; between the two only the download is under way.

Delivered bytes are kept before they are decoded, so a resource that cannot be decoded is not
downloaded again. What a cache refuses never fails a fetch.
-/

set_option autoImplicit false

namespace Blueprint

structure Loader where
  downloader : Downloader
  cache : Option Cache := none
  /-- Milliseconds after which a fetch is given up. -/
  deadline : Option Nat := none

/-- A fetch that has begun. -/
structure Fetch where
  descriptor : Descriptor
  delivery : Delivery
  /-- The bytes come from the cache. -/
  hit : Bool := false

namespace Loader

/-- The cache and the hash under which a descriptor's bytes are kept, if they are. -/
def keeping (l : Loader) (d : Descriptor) : Option (Cache × String) :=
  match l.cache, d.hash with
  | some cache, some hash => some (cache, hash)
  | _, _ => none

/-- Looks into the cache. -/
def look (l : Loader) (d : Descriptor) (world : World) : Option Bytes × World :=
  match l.keeping d with
  | none => (none, world)
  | some (cache, hash) =>
    match cache.get hash world with
    | (.ok found, world) => (found, world)
    | (.error _, world) => (none, world)

/-- Asks the downloader. -/
def ask (l : Loader) (d : Descriptor) (world : World) : Delivery × World :=
  (l.downloader.download world d,
    { world with asked := world.asked ++ [(l.downloader.name, d.uri)] })

/-- Begins a fetch: bytes that are cached are there at once, others have to be downloaded. -/
def start (l : Loader) (d : Descriptor) (world : World) : Fetch × World :=
  match l.look d world with
  | (some bytes, world) => ({ descriptor := d, delivery := { outcome := .ok bytes }, hit := true }, world)
  | (none, world) =>
    let (delivery, world) := l.ask d world
    ({ descriptor := d, delivery }, world)

/-- Whether a delivery takes until the deadline or longer. What is there at once is never late. -/
def isLate (l : Loader) (after : Nat) : Bool :=
  match l.deadline with
  | none => false
  | some limit => after ≠ 0 && limit ≤ after

/-- Milliseconds from the start of a fetch until it lands. -/
def wait (l : Loader) (f : Fetch) : Nat :=
  if l.isLate f.delivery.after then l.deadline.getD 0 else f.delivery.after

/-- Puts delivered bytes into the cache. -/
def keep (l : Loader) (d : Descriptor) (bytes : Bytes) (world : World) : World :=
  match l.keeping d with
  | none => world
  | some (cache, hash) => (cache.put hash bytes world).2

/-- Lands a fetch: a late one is given up, and delivered bytes are kept. -/
def land (l : Loader) (f : Fetch) (world : World) : Except ResolveError Bytes × World :=
  if l.isLate f.delivery.after then
    (.error (.deadlineExceeded f.descriptor.id.text (l.deadline.getD 0)), world)
  else
    match f.delivery.outcome with
    | .error e => (.error e, world)
    | .ok bytes => (.ok bytes, if f.hit then world else l.keep f.descriptor bytes world)

/-- Lands a fetch and decodes its bytes. -/
def finish {α : Type} (l : Loader) (decoder : Decoder α) (f : Fetch) (world : World) :
    Except ResolveError α × World :=
  match l.land f world with
  | (.ok bytes, world) => decoder f.descriptor bytes world
  | (.error e, world) => (.error e, world)

/-- Fetches and decodes. -/
def resolve {α : Type} (l : Loader) (decoder : Decoder α) (d : Descriptor) (world : World) :
    Except ResolveError α × World :=
  let (f, world) := l.start d world
  l.finish decoder f world

/-- Fetches, to have the bytes in the cache. -/
def preload (l : Loader) (d : Descriptor) (world : World) : Except ResolveError Unit × World :=
  let (f, world) := l.start d world
  let (outcome, world) := l.land f world
  (outcome.map fun _ ↦ (), world)

end Loader

end Blueprint

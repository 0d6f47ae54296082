import Blueprint.Fetch.World

/-!
Caches: stores of bytes by hash. A cache is what it does with the world, where its content is.

* `Cache.memory` keeps a table and never fails.
* `Cache.shared` keeps its content in a store outside the process, under keys with a common start.
* `Cache.faulty` is another cache some of whose reads and writes fail.
-/

set_option autoImplicit false

namespace Blueprint

/-- Why a cache operation fails. -/
inductive CacheError where
  | invalidHash (hash : String)
  | read (path : Path)
  | makeDirectory (path : Path)
  | write (path : Path)
  | commit (path : Path)
  | remove (path : Path)
  /-- The shared store does not answer. -/
  | unreachable
  | getFailed
  | putFailed
deriving DecidableEq

def CacheError.message : CacheError → String
  | .invalidHash hash => "refusing to cache under invalid hash " ++ Text.quoted hash
  | .read path => s!"Failed to read cache entry {path.render}"
  | .makeDirectory path => s!"Failed to create cache dir {path.render}"
  | .write path => s!"Failed to write cache entry {path.render}"
  | .commit path => s!"Failed to commit cache entry {path.render}"
  | .remove path => s!"Failed to remove cache entry {path.render}"
  | .unreachable => "the shared store cannot be reached"
  | .getFailed => "cache get failed"
  | .putFailed => "cache put failed"

/-- The answer of a cache operation. -/
abbrev CacheReply (α : Type) := Except CacheError α

structure Cache where
  get : String → World → CacheReply (Option Bytes) × World
  put : String → Bytes → World → CacheReply Unit × World
  remove : String → World → CacheReply Unit × World
  /-- Whether there is an entry, by default whether one can be read. -/
  contains : String → World → CacheReply Bool × World := fun hash world ↦
    let (reply, world) := get hash world
    (reply.map Option.isSome, world)

namespace Cache

/-- The cache in memory. -/
def memory : Cache where
  get hash world := (.ok (world.cached.get? hash), world)
  put hash content world := (.ok (), { world with cached := world.cached.insert hash content })
  remove hash world := (.ok (), { world with cached := world.cached.erase hash })
  contains hash world := (.ok (world.cached.contains hash), world)

/-- Asks the shared store. -/
def ask {α : Type} (world : World) (answer : α × World) : CacheReply α × World :=
  if world.sharedReachable then (.ok answer.1, answer.2) else (.error .unreachable, world)

/-- The cache in the shared store. -/
def shared (start : String) : Cache where
  get hash world := ask world (world.shared.get? s!"{start}:{hash}", world)
  put hash content world :=
    ask world ((), { world with shared := world.shared.insert s!"{start}:{hash}" content })
  remove hash world := ask world ((), { world with shared := world.shared.erase s!"{start}:{hash}" })
  contains hash world := ask world (world.shared.contains s!"{start}:{hash}", world)

/-- What befalls one operation of a cache. -/
structure Fault where
  getFails : Bool := false
  putFails : Bool := false
  /-- A write that fails has stored the bytes all the same. -/
  stores : Bool := false
deriving DecidableEq

/-- Counts one operation. -/
def count (world : World) : World := { world with cacheOperations := world.cacheOperations + 1 }

/-- A cache of which reads and writes fail; each operation has a fault of its own. -/
def faulty (faults : Nat → Fault) (cache : Cache) : Cache where
  get hash world :=
    if (faults world.cacheOperations).getFails then (.error .getFailed, count world)
    else cache.get hash (count world)
  put hash content world :=
    let fault := faults world.cacheOperations
    if fault.putFails then
      (.error .putFailed,
        if fault.stores then (cache.put hash content (count world)).2 else count world)
    else cache.put hash content (count world)
  remove hash world := cache.remove hash (count world)

end Cache

end Blueprint

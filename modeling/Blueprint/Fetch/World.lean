import Blueprint.Cache.Locks
import Blueprint.Files.Basic
import Blueprint.Interpreter.Basic

/-!
What fetching and decoding can reach and change: files, content published under URIs, what caches
hold, and the graphs in the interpreter.
-/

set_option autoImplicit false

namespace Blueprint

structure World where
  files : Files := {}
  /-- Content that downloaders in memory serve, by URI. -/
  published : Table String Bytes := {}
  /-- What the cache in memory holds, by hash. -/
  cached : Table String Bytes := {}
  /-- What the store shared between processes holds, by key. -/
  shared : Table String Bytes := {}
  /-- The shared store answers. -/
  sharedReachable : Bool := false
  /-- The locks of the cache on disk. -/
  locks : Locks := {}
  /-- How many temporary files have been named. -/
  temporaries : Nat := 0
  /-- How many operations a faulty cache has served. -/
  cacheOperations : Nat := 0
  /-- The downloaders that have been asked and for which URIs, in order. -/
  asked : List (String × String) := []
  interpreter : Interpreter := {}
  /-- How many documents the interpreter has been given to load. -/
  loads : Nat := 0
  /-- How many shared references have been made. -/
  references : Nat := 0

instance : Inhabited World := ⟨{}⟩

end Blueprint

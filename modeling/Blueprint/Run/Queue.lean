import Blueprint.Node.Behaviour

/-!
The queue of sync node calls of one run. Whoever queues a call while nobody drains the queue becomes
its drainer, and takes calls one at a time until the queue is empty.
-/

set_option autoImplicit false

namespace Blueprint

structure SyncQueue where
  calls : List NodeCall := []
  /-- Somebody is draining the queue. -/
  draining : Bool := false

namespace SyncQueue

instance : Inhabited SyncQueue := ⟨{}⟩

/-- Queues a call; says whether the caller has to drain. -/
def push (q : SyncQueue) (call : NodeCall) : Bool × SyncQueue :=
  (!q.draining, { calls := q.calls ++ [call], draining := true })

/-- The next call. When there is none the drainer is released. -/
def pop (q : SyncQueue) : Option NodeCall × SyncQueue :=
  match q.calls with
  | call :: rest => (some call, { q with calls := rest })
  | [] => (none, { q with draining := false })

end SyncQueue

end Blueprint

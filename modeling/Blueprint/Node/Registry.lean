import Blueprint.Node.Behaviour

/-!
The node kinds a runtime knows.
-/

set_option autoImplicit false

namespace Blueprint

/-- When an invocation runs: on a task of its own, or at once where it was asked for, one after
another. -/
inductive ExecutionMode where
  | async
  | sync
deriving DecidableEq

def ExecutionMode.name : ExecutionMode → String
  | .async => "Async"
  | .sync => "Sync"

/-- One kind of node. -/
structure NodeKind where
  name : String
  mode : ExecutionMode := .async
  /-- Checks authored params when a graph is loaded. -/
  validate : Json → Except String Unit := fun _ ↦ .ok ()
  behaviour : NodeCall → Behaviour

/-- Node kinds by name. -/
abbrev Registry := Table String NodeKind

namespace Registry

/-- Adds a kind in place of an earlier one of the same name. -/
def register (r : Registry) (kind : NodeKind) : Registry := r.insert kind.name kind

def ofKinds (kinds : List NodeKind) : Registry := kinds.foldl register {}

/-- The names in ascending order. -/
def kinds (r : Registry) : List String := r.keys.mergeSort (· ≤ ·)

end Registry

end Blueprint

import Blueprint.Failure
import Blueprint.Resource.ResolveError
import Blueprint.Value

/-!
What one invocation of a node does. A behaviour is a tree of requests to the run it belongs to: the
next request may depend on the answer to the last. It ends by success, by failure or by a panic;
either of the latter fails only the node's own branch.
-/

set_option autoImplicit false

namespace Blueprint

/-- A request to run one node on a scope. -/
structure NodeCall where
  scope : Nat
  node : String
  kind : String
  params : Json

/-- How urgent a log line is. -/
inductive LogLevel where
  | debug
  | info
  | warn
deriving DecidableEq

def LogLevel.name : LogLevel → String
  | .debug => "debug"
  | .info => "info"
  | .warn => "warn"

/-- The assets a node may ask for. -/
inductive AssetForm where
  | texture
  | mesh
  | json
deriving DecidableEq

/-- The outcome of one run of a graph. -/
structure RunResult where
  success : Bool
  /-- The run's name; the nil name when no run was started. -/
  run : RunId
  /-- The declared outputs that were set. -/
  outputs : Inputs
  /-- Invocations that failed, their branches having ended all the same. -/
  failedBranches : Nat
  error : Option String

/-- A run that came to nothing. -/
def RunResult.failed (run : RunId) (error : String) : RunResult :=
  { success := false, run, outputs := {}, failedBranches := 0, error := some error }

/-- The outputs that have a JSON form. -/
def RunResult.outputsJson (result : RunResult) : Json := Value.allToJson result.outputs

/-- A graph loaded ahead of a run, with the inputs it is run with. -/
structure LoadedGraph where
  graph : GraphInstance
  inputs : Inputs

inductive Behaviour where
  | succeed
  | fail (failure : Failure)
  | panic (message : String)
  /-- Looks at a pin of any node. -/
  | read (node pin : String) (next : Option Value → Behaviour)
  /-- Writes a pin of its own node. -/
  | write (pin : String) (value : Value) (next : Behaviour)
  /-- Sets a blueprint output. -/
  | publish (name : String) (value : Value) (next : Behaviour)
  | log (level : LogLevel) (message : String) (next : Behaviour)
  /-- Starts the branch behind an exec pin of its own node. -/
  | trigger (pin : String) (next : Except EngineError Nat → Behaviour)
  /-- Waits until the scopes have cleared. -/
  | join (scopes : List Nat) (next : Behaviour)
  /-- Resolves an asset through the provider. -/
  | load (form : AssetForm) (id : String) (next : Except ResolveError Value → Behaviour)
  /-- Looks up a graph: among those loaded ahead, else through the provider. -/
  | find (id : String) (next : Except ResolveError LoadedGraph → Behaviour)
  /-- Runs a graph to its end on a run of its own. -/
  | nest (graph : GraphInstance) (inputs : Inputs) (next : RunResult → Behaviour)
  | sleep (milliseconds : Nat) (next : Behaviour)
  /-- Lets other tasks go first. -/
  | yield (next : Behaviour)
  /-- Never goes on. -/
  | stall

namespace Behaviour

/-- Goes on when a branch was started; a missing pin fails the node. -/
def andTrigger (pin : String) (next : Nat → Behaviour) : Behaviour :=
  .trigger pin fun
    | .ok scope => next scope
    | .error e => .fail ⟨e.message, []⟩

/-- Ends by starting the branch behind a pin. -/
def thenTrigger (pin : String) : Behaviour := andTrigger pin fun _ ↦ .succeed

/-- Starts the branches of several pins in order. -/
def andTriggerAll : List String → (List Nat → Behaviour) → Behaviour
  | [], next => next []
  | pin :: pins, next =>
    andTrigger pin fun scope ↦ andTriggerAll pins fun scopes ↦ next (scope :: scopes)

end Behaviour

end Blueprint

import Blueprint.Run.Queue
import Blueprint.Scope.Tracker

/-!
The state of one run: its pending scopes, the values on the pins of its nodes, and the outputs that
have been set. A nested blueprint has a context of its own.
-/

set_option autoImplicit false

namespace Blueprint

/-- What a run is given besides its inputs. -/
structure RunConfig where
  /-- The object of the host that results belong to. -/
  rootParent : Nat := 0
  /-- Graphs loaded ahead, by the ids they were asked for. -/
  loaded : Table String LoadedGraph := {}

instance : Inhabited RunConfig := ⟨{}⟩

structure Context where
  graph : GraphInstance
  config : RunConfig := {}
  /-- Async nodes can be given tasks. -/
  hasTasks : Bool := true
  tracker : Tracker := {}
  /-- The inputs of the first start. -/
  inputs : Option Inputs := none
  bindings : Bindings := {}
  outputs : Inputs := {}
  failedBranches : Nat := 0
  queue : SyncQueue := {}

namespace Context

def input? (c : Context) (name : String) : Option Value := c.inputs.bind fun inputs ↦ inputs.get? name

def bind (c : Context) (node pin : String) (value : Value) : Context :=
  { c with bindings := c.bindings.insert (node, pin) value }

def read? (c : Context) (node pin : String) : Option Value := c.bindings.get? (node, pin)

/-- Sets a blueprint output, declared or not. -/
def publish (c : Context) (name : String) (value : Value) : Context :=
  { c with outputs := c.outputs.insert name value }

/-- The declared outputs that have been set. -/
def declaredOutputs (c : Context) : Inputs :=
  .ofList (c.graph.outputs.filterMap fun decl ↦
    (c.outputs.get? decl.name).map fun value ↦ (decl.name, value))

/-- The result once the root scope has cleared. -/
def result (c : Context) (run : RunId) : RunResult :=
  { success := true, run, outputs := c.declaredOutputs, failedBranches := c.failedBranches
    error := none }

end Context

end Blueprint

import Blueprint.Foreign.Exchange
import Blueprint.Node.Registry

/-!
Engines in foreign libraries. The library keeps the graphs and scopes; the engine keeps which host
serves which run, so that the library can call back. `ForeignEngine.execute` registers the host
before it calls the library, and forgets it when the library refuses.
-/

set_option autoImplicit false

namespace Blueprint

/-- A call on a function of a library. -/
inductive LibraryCall where
  | load (kinds graph : String)
  | execute (graph : Nat) (run : RunId) (inputs : String)
  | trigger (run : RunId) (scope : Nat) (node pin : String)
  | finish (run : RunId) (scope : Nat)
  | endRun (run : RunId)
  | release (graph : Nat)
  | version (graph : Nat)
deriving DecidableEq

structure ForeignEngine where
  /-- The library wants to hear when a run ends. -/
  hearsEnd : Bool := true
  /-- The hosts that serve the active runs, by number. -/
  hosts : Table RunId Nat := {}

namespace ForeignEngine

/-- The functions that a library has to export. -/
def required : List String :=
  ["bp_load", "bp_execute", "bp_trigger", "bp_finish", "bp_release", "bp_iterate_inputs",
    "bp_iterate_outputs", "bp_get_version"]

/-- The engine of a library with some exports. -/
def ofExports (exported : List String) : Except EngineError ForeignEngine :=
  match required.find? fun name ↦ !exported.contains name with
  | some name => .error (.library s!"undefined symbol: {name}")
  | none => .ok { hearsEnd := exported.contains "bp_end_run" }

/-- The handle that the library's answer to a graph means; zero is a refusal. -/
def loaded (answer : Nat) : Except EngineError Nat :=
  if answer = 0 then .error (.load "native engine rejected the graph") else .ok answer

/-- Hands a graph to the library, with the kinds of nodes that it may use. -/
def load (registry : Registry) (text : String) (answer : Nat) :
    List LibraryCall × Except EngineError Nat :=
  let kinds := (Json.array (registry.kinds.map .string)).compact
  match passText "bp_load" kinds *> passText "bp_load" text with
  | .error e => ([], .error e)
  | .ok () => ([.load kinds text], loaded answer)

/-- Has a host serve a run from now on, in place of an earlier one. -/
def attach (e : ForeignEngine) (run : RunId) (host : Nat) : ForeignEngine :=
  { e with hosts := e.hosts.insert run host }

def detach (e : ForeignEngine) (run : RunId) : ForeignEngine :=
  { e with hosts := e.hosts.erase run }

/-- Takes in the library's answer to a run: its root scope, or a refusal. -/
def executed (e : ForeignEngine) (run : RunId) (answer : Int) :
    Except EngineError Nat × ForeignEngine :=
  if answer < 0 then (.error (.foreign "bp_execute" s!"returned {answer}"), e.detach run)
  else (.ok answer.toNat, e)

/-- Starts a run that a host serves. -/
def execute (e : ForeignEngine) (run : RunId) (host : Nat) (answer : Int) :
    Except EngineError Nat × ForeignEngine :=
  (e.attach run host).executed run answer

/-- The scope that the library's answer to a trigger means. -/
def triggered (node pin : String) (answer : Int) : Except EngineError Nat :=
  if answer = -1 then .error (.unknownPin node pin)
  else if answer < 0 then .error (.foreign "bp_trigger" s!"returned {answer}")
  else .ok answer.toNat

def trigger (run : RunId) (scope : Nat) (node pin : String) (answer : Int) :
    List LibraryCall × Except EngineError Nat :=
  match passText "bp_trigger" node *> passText "bp_trigger" pin with
  | .error e => ([], .error e)
  | .ok () => ([.trigger run scope node pin], triggered node pin answer)

/-- What the library's answer to a finished node means; zero is success. -/
def finished (scope : Nat) (answer : Int) : Except EngineError Unit :=
  if answer = 0 then .ok ()
  else .error (.foreign "bp_finish" s!"returned {answer} for scope {scope}")

/-- The calls by which the library hears that a run ends. -/
def endCalls (e : ForeignEngine) (run : RunId) : List LibraryCall :=
  if e.hearsEnd then [.endRun run] else []

end ForeignEngine

end Blueprint

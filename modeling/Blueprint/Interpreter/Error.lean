import Blueprint.Scope.Basic

/-!
Failures of a graph engine.
-/

set_option autoImplicit false

namespace Blueprint

/-- Why a graph engine refuses a call. -/
inductive EngineError where
  | load (reason : String)
  | unknownGraph (handle : Nat)
  | unknownRun (run : RunId)
  | unknownPin (node pin : String)
  | unknownNode (node : String)
  | unknownScope (run : RunId) (scope : Nat)
  /-- A call into a foreign library failed. -/
  | foreign (call reason : String)
  /-- A foreign library cannot be opened. -/
  | library (reason : String)
deriving DecidableEq

def EngineError.name : EngineError → String
  | .load _ => "Engine.Load"
  | .unknownGraph _ => "Engine.UnknownGraph"
  | .unknownRun _ => "Engine.UnknownRun"
  | .unknownPin .. => "Engine.UnknownPin"
  | .unknownNode _ => "Engine.UnknownNode"
  | .unknownScope .. => "Engine.UnknownScope"
  | .foreign .. => "Engine.Native"
  | .library _ => "Engine.Library"

def EngineError.message : EngineError → String
  | .load reason => s!"graph failed to load: {reason}"
  | .unknownGraph handle => s!"unknown graph handle {handle}"
  | .unknownRun run => s!"no active run for instance {runName run}"
  | .unknownPin node pin => s!"node {node} has no output pin named {pin}"
  | .unknownNode node => s!"unknown node {node}"
  | .unknownScope run scope => s!"scope {scope} is not running in instance {runName run}"
  | .foreign call reason => s!"native engine call {call} failed: {reason}"
  | .library reason => s!"failed to open native engine library: {reason}"

end Blueprint

import Blueprint.Run.Execution
import Blueprint.Value.Tagged

/-!
What is told of runs: log lines by node, invocations that failed, completion handlers that ran, and
results.
-/

set_option autoImplicit false

namespace Blueprint

namespace Machine

/-- The events since an earlier moment, in order. -/
def eventsSince (m earlier : Machine) : List Event :=
  (m.events.take (m.events.length - earlier.events.length)).reverse

/-- The versions of loaded graphs. -/
def version (m : Machine) : Nat → Option String := m.world.interpreter.version

end Machine

namespace Event

/-- Log lines by node, each with its level. -/
def logs (events : List Event) : Json :=
  let lines := events.foldl (fun (t : Table String (List Json)) event ↦
    match event with
    | .logged _ node level message =>
      t.insert node ((t.get? node).getD [] ++ [.array [.string level.name, .string message]])
    | _ => t) {}
  .ofMembers (lines.entries.map fun (node, lines) ↦ (node, .array lines))

/-- The nodes of invocations that failed, with the reasons. -/
def failures (events : List Event) : List (String × String) :=
  events.filterMap fun event ↦
    match event with
    | .ended _ call ending _ => if ending.isDone then none else some (call.node, ending.report)
    | _ => none

/-- Completion handlers that ran, with the outputs they saw. -/
def firings (events : List Event) : List (Firing × Inputs) :=
  events.filterMap fun event ↦
    match event with
    | .fired _ firing outputs => some (firing, outputs)
    | _ => none

end Event

/-- A result in tagged forms. -/
def RunResult.summary (version : Nat → Option String) (result : RunResult) : List (String × Json) :=
  [("success", .bool result.success),
    ("instance", .string (if result.run = nilRun then "nil" else "set")),
    ("outputs", Value.inputsTagged version result.outputs),
    ("outputs_json", .string result.outputsJson.compact),
    ("failed_branches", .ofInt result.failedBranches),
    ("error", Value.textOrNull result.error)]

end Blueprint

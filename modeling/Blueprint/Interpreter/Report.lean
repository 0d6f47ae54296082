import Blueprint.Interpreter.Session
import Blueprint.Value.Tagged

/-!
What recording hosts were told, as JSON. Bindings of one node come in no order of their own, so
neighbouring ones are told in the order of their texts.
-/

set_option autoImplicit false

namespace Blueprint

namespace Callback

def isBind : Callback → Bool
  | .bind .. => true
  | _ => false

/-- The callback as a row: its kind, and what it tells. -/
def toJson : Callback → Json
  | .dispatched scope => .array [.string "dispatched", .ofInt scope]
  | .completed scope => .array [.string "completed", .ofInt scope]
  | .bind node pin value =>
    .array [.string "bound", .string node, .string pin, value.plainTagged]
  | .invoke call =>
    .array [.string "invoked", .ofInt call.scope, .string call.node, .string call.kind,
      .string call.params.compact]

/-- Rows of callbacks; `bound` are the bindings right before them. -/
def rows (bound : List Json) : List Callback → List Json
  | [] => sorted bound
  | c :: rest =>
    if c.isBind then rows (bound ++ [c.toJson]) rest
    else sorted bound ++ c.toJson :: rows [] rest
where
  sorted (bound : List Json) : List Json := bound.mergeSort fun a b ↦ a.compact ≤ b.compact

end Callback

namespace HostRecord

/-- What hosts were told since an earlier time, by run; runs that heard nothing are left out. -/
def toldSince (earlier hosts : Table RunId HostRecord) : Json :=
  .ofMembers (hosts.entries.filterMap fun (run, host) ↦
    let fresh := host.callbacks.drop ((earlier.get? run).getD {}).callbacks.length
    if fresh.isEmpty then none else some (toString run, .array (Callback.rows [] fresh)))

end HostRecord

end Blueprint

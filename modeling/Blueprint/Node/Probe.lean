import Blueprint.Node.Builtin
import Blueprint.Value.Tagged

/-!
Node kinds for trying a runtime out: they panic, wait, sleep, stall, join a branch, or show what is
on pins. Each goes on through `then` unless it says otherwise.
-/

set_option autoImplicit false

namespace Blueprint

/-- The tagged form of what a typed look at a pin answers. -/
def Value.readTagged (bound : Option Value) (node pin wanted : String) : Json :=
  match Value.tryRead bound node pin (.ofName wanted) with
  | .ok value => value.plainTagged
  | .error e => .ofMembers [("error", .string e.name), ("message", .string e.message)]

namespace Probe

def goOn : Behaviour := .thenTrigger "then"

def copyPins (node : String) : List String → Behaviour
  | [] => goOn
  | pin :: rest =>
    .read node pin fun bound ↦
      match bound with
      | some value => .write ("out_" ++ pin) value (copyPins node rest)
      | none => copyPins node rest

def showPins (node : String) (last : Behaviour) : List (String × Json) → Behaviour
  | [] => last
  | (pin, wanted) :: rest =>
    .read node pin fun bound ↦
      .publish pin (.json (Value.readTagged bound node pin (wanted.asString?.getD "")))
        (showPins node last rest)

/-- The members of params under a name, or of all params. -/
def membersOf : Option Json → List (String × Json)
  | some (.object members) => members
  | _ => []

def kinds : List NodeKind := [
  { name := "t_panic", mode := .sync, behaviour := fun _ ↦ .panic "node exploded" },
  { name := "t_apanic"
    behaviour := fun call ↦ .panic s!"node {call.node} of kind {call.kind} exploded" },
  { name := "t_suspend", mode := .sync, behaviour := fun _ ↦ .yield goOn },
  { name := "t_stall", behaviour := fun _ ↦ .stall },
  { name := "t_sleep"
    behaviour := fun call ↦ .sleep (((call.params.get? "ms").bind Json.asNat?).getD 0) goOn },
  { name := "t_join"
    behaviour := fun _ ↦ .andTrigger "body" fun scope ↦
      .join [scope] (.publish "joined" (.bool true) goOn) },
  { name := "t_double"
    behaviour := fun call ↦ .read call.node "amount" fun bound ↦
      .publish "doubled" (.int ((bound.bind Value.asInt?).getD 10 * 2)) goOn },
  { name := "t_copy", mode := .sync, behaviour := fun call ↦ copyPins call.node ["a", "b", "c"] },
  { name := "t_set", mode := .sync
    behaviour := fun call ↦ NodeKind.writeAll
      ((membersOf (some call.params)).map fun (pin, value) ↦ (pin, .ofJson value)) goOn },
  { name := "t_read", mode := .sync
    behaviour := fun call ↦
      let last := call.inputOrParam "id" fun id ↦
        match id with
        | some id => .publish "id" (.string id) goOn
        | none => goOn
      showPins ((call.paramString? "node").getD call.node) last
        (membersOf (call.params.get? "reads")) }]

end Probe

/-- The registry of the kinds every runtime has, and of those for trying one out. -/
def Registry.probing : Registry := Probe.kinds.foldl Registry.register .standard

end Blueprint

import Blueprint.Node.Registry
import Blueprint.Json.Printer

/-!
The node kinds every runtime has. A node goes on through its exec pin `then` unless said otherwise.

* `log` writes its `message` input, else param, at the level of its `level` param.
* `set_output` publishes its `value` input, else param, under the name of its `name` param.
* `sequence` fires the branches of its `pins`, or `then_0`, `then_1`, … by `count`; with `join` it
  waits for all of them and goes on through `completed`.
* `load_texture`, `load_mesh` and `load_json` resolve the resource of their `id` input, else param,
  write it to a pin and publish it under the name of the `output` param, if any.
* `execute_blueprint` runs another blueprint to its end, feeds it from input pins of the names of
  its declared inputs, and writes its outputs to pins.
-/

set_option autoImplicit false

namespace Blueprint

namespace NodeCall

/-- A param that is a string. -/
def paramString? (call : NodeCall) (name : String) : Option String :=
  (call.params.get? name).bind Json.asString?

/-- The text on an input pin, else in the param of the same name. -/
def inputOrParam (call : NodeCall) (name : String) (next : Option String → Behaviour) :
    Behaviour :=
  .read call.node name fun bound ↦ next ((bound.bind Value.asString?).or (call.paramString? name))

/-- The resource id a node is to resolve. -/
def resourceId (call : NodeCall) (what : String) (next : String → Behaviour) : Behaviour :=
  call.inputOrParam "id" fun id? ↦
    match id? with
    | some id =>
      if id = "" then .fail ⟨s!"Node '{call.node}' has no {what} id", []⟩ else next id
    | none => .fail ⟨s!"Node '{call.node}' has no {what} id", []⟩

end NodeCall

namespace NodeKind

/-! ### Log -/

def logLevel? : String → Option LogLevel
  | "debug" => some .debug
  | "info" => some .info
  | "warn" => some .warn
  | _ => none

def validateLevel (params : Json) : Except String Unit :=
  match (params.get? "level").bind Json.asString? with
  | none => .ok ()
  | some level =>
    match logLevel? level with
    | some _ => .ok ()
    | none => .error s!"Unknown log level '{level}'"

/-- A value as a log line: text as it is, JSON where there is a form, else the kind. -/
def lineOf : Value → String
  | .string s => s
  | value =>
    match value.toJson? with
    | some json => json.compact
    | none => s!"<{value.kind}>"

def log : NodeKind where
  name := "log"
  mode := .sync
  validate := validateLevel
  behaviour call :=
    .read call.node "message" fun bound ↦
      let message := match bound with
        | some value => lineOf value
        | none => (call.paramString? "message").getD ""
      let level := ((call.paramString? "level").bind logLevel?).getD .info
      .log level message (.thenTrigger "then")

/-! ### Outputs -/

def missingName : String := "Missing output name"

def validateName (params : Json) : Except String Unit :=
  match (params.get? "name").bind Json.asString? with
  | some name => if name = "" then .error missingName else .ok ()
  | none => .error missingName

def setOutput : NodeKind where
  name := "set_output"
  mode := .sync
  validate := validateName
  behaviour call :=
    match call.paramString? "name" with
    | none => .fail ⟨missingName, []⟩
    | some name =>
      .read call.node "value" fun bound ↦
        match bound.or ((call.params.get? "value").map Value.ofJson) with
        | some value => .publish name value (.thenTrigger "then")
        | none => .fail ⟨s!"Nothing to publish as '{name}'", []⟩

/-! ### Sequences -/

/-- The branches of a sequence. -/
inductive Branches where
  | named (pins : List String)
  | counted (count : Nat)

/-- The exec pins in order. -/
def Branches.pins : Branches → List String
  | .named pins => pins
  | .counted count => (List.range count).map fun i ↦ s!"then_{i}"

/-- The name of a branch's pin. -/
def pinName : Json → Except String String
  | .string s => .ok s
  | _ => .error "Pin names must be strings"

/-- Reads the branches off the params; names come before a count. -/
def branches (params : Json) : Except String Branches :=
  match (params.get? "pins").bind Json.asArray? with
  | some pins =>
    (pins.mapM pinName).map .named
  | none =>
    match (params.get? "count").bind Json.asNat? with
    | some count => .ok (.counted count)
    | none => .error "Sequence needs 'pins' or 'count'"

def sequence : NodeKind where
  name := "sequence"
  validate params := (branches params).map fun _ ↦ ()
  behaviour call :=
    match branches call.params with
    | .error reason => .fail ⟨reason, []⟩
    | .ok found =>
      let joins := ((call.params.get? "join").bind Json.asBool?).getD false
      .andTriggerAll found.pins fun scopes ↦
        if joins then .join scopes (.thenTrigger "completed") else .succeed

/-! ### Assets -/

def validateOutput (params : Json) : Except String Unit :=
  match params.get? "output" with
  | none => .ok ()
  | some (.string s) =>
    if s = "" then .error "'output' must be a non-empty string" else .ok ()
  | some _ => .error "'output' must be a non-empty string"

/-- A node that loads one asset; `what` names it in failures. -/
def loading (name what pin : String) (form : AssetForm) : NodeKind where
  name := name
  validate := validateOutput
  behaviour call :=
    call.resourceId "resource" fun id ↦
      .load form id fun
        | .error e => .fail ⟨s!"Failed to load {what} '{id}'", [e.message]⟩
        | .ok value =>
          let goOn : Behaviour := .write pin value (.thenTrigger "then")
          match call.paramString? "output" with
          | some output => .publish output value goOn
          | none => goOn

def loadTexture : NodeKind := loading "load_texture" "texture" "texture" .texture

def loadMesh : NodeKind := loading "load_mesh" "mesh" "mesh" .mesh

def loadJson : NodeKind := loading "load_json" "JSON" "value" .json

/-! ### Nested blueprints -/

/-- Reads the input pins named like declared inputs over the inputs at hand. -/
def feed (node : String) : List PinDecl → Inputs → (Inputs → Behaviour) → Behaviour
  | [], inputs, next => next inputs
  | decl :: decls, inputs, next =>
    .read node decl.name fun bound ↦
      match bound with
      | some value => feed node decls (inputs.insert decl.name value) next
      | none => feed node decls inputs next

/-- Writes values to the pins of their names. -/
def writeAll : List (String × Value) → Behaviour → Behaviour
  | [], next => next
  | (pin, value) :: rest, next => .write pin value (writeAll rest next)

def executeBlueprint : NodeKind where
  name := "execute_blueprint"
  behaviour call :=
    call.resourceId "blueprint" fun id ↦
      .find id fun
        | .error e => .fail ⟨s!"Failed to load blueprint '{id}'", [e.message]⟩
        | .ok loaded =>
          feed call.node loaded.graph.inputs loaded.inputs fun inputs ↦
            .nest loaded.graph inputs fun result ↦
              if result.success then writeAll result.outputs.entries (.thenTrigger "then")
              else
                let reason := result.error.getD ""
                .fail ⟨s!"Blueprint '{id}' did not complete: {reason}", []⟩

/-- All kinds above. -/
def builtins : List NodeKind :=
  [log, setOutput, sequence, loadTexture, loadMesh, loadJson, executeBlueprint]

end NodeKind

/-- The registry of the kinds every runtime has. -/
def Registry.standard : Registry := .ofKinds NodeKind.builtins

end Blueprint

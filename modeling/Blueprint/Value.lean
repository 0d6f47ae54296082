import Blueprint.Graph.Pin
import Blueprint.Json.Printer
import Blueprint.Table

/-!
Values on node pins and blueprint outputs. Scalars are native, JSON arrays and objects stay JSON,
assets and opaque objects are held by handle and have no JSON form.
-/

set_option autoImplicit false

namespace Blueprint

inductive Value where
  | null
  | bool (b : Bool)
  | int (n : Int64)
  | float (x : Float)
  | string (s : String)
  | json (j : Json)
  | texture (t : Handle Texture)
  | mesh (m : Handle MeshImport)
  | blueprint (g : GraphInstance)
  /-- An object of the host, of which only a label is known. -/
  | object (o : Handle String)

instance : Inhabited Value := ⟨.null⟩

namespace Value

def kind : Value → String
  | .null => "null"
  | .bool _ => "bool"
  | .int _ => "int"
  | .float _ => "float"
  | .string _ => "string"
  | .json _ => "json"
  | .texture _ => "texture"
  | .mesh _ => "mesh"
  | .blueprint _ => "blueprint"
  | .object _ => "object"

def isNull : Value → Bool
  | .null => true
  | _ => false

/-- The nearest floating-point number of a whole number. -/
def floatOfInt (n : Int) : Float :=
  if 0 ≤ n then (UInt64.ofNat n.toNat).toFloat else -(UInt64.ofNat n.natAbs).toFloat

/-- Scalars become native values; whole numbers that are no signed word become floating-point
numbers. -/
def ofJson : Json → Value
  | .null => .null
  | .bool b => .bool b
  | .number (.whole n) =>
    if Int64.minValue.toInt ≤ n ∧ n ≤ Int64.maxValue.toInt then .int (Int64.ofInt n) else .float (floatOfInt n)
  | .number (.real x) => .float x.val
  | .string s => .string s
  | j => .json j

/-- The JSON form, where there is one. -/
def toJson? : Value → Option Json
  | .null => some .null
  | .bool b => some (.bool b)
  | .int n => some (.ofInt n.toInt)
  | .float x => Json.ofFloat? x
  | .string s => some (.string s)
  | .json j => some j
  | .texture _ | .mesh _ | .blueprint _ | .object _ => none

/-- Floating-point numbers in diagnostics: in place, whole ones without a point. -/
def shownFloat (x : Float) : String :=
  let layout : Decimal.Layout := ⟨none, none, false, .upward⟩
  if x.isNaN then "NaN"
  else if x.isInf then (if Decimal.isNegative x then "-inf" else "inf")
  else layout.write x

/-- The value as diagnostics show it. -/
def shown : Value → String
  | .null => "Null"
  | .bool b => s!"Bool({b})"
  | .int n => s!"Int({n.toInt})"
  | .float x => s!"Float({shownFloat x})"
  | .string s => s!"String({Text.quoted s})"
  | .json j => s!"Json({j.compact})"
  | .texture t => s!"Texture({t.content.width}x{t.content.height})"
  | .mesh m => s!"Mesh({shownOption m.content.name})"
  | .blueprint g => s!"Blueprint({g.id.text})"
  | .object _ => "Object(..)"

/-- Equality by content, of handles by key. -/
def same : Value → Value → Bool
  | .null, .null => true
  | .bool a, .bool b => a == b
  | .int a, .int b => a == b
  | .float a, .float b => a == b
  | .string a, .string b => a == b
  | .json a, .json b => a == b
  | .texture a, .texture b => a.key == b.key
  | .mesh a, .mesh b => a.key == b.key
  | .blueprint a, .blueprint b => a.handle == b.handle
  | .object a, .object b => a.key == b.key
  | _, _ => false

instance : BEq Value := ⟨same⟩

/-! ### Typed reads -/

def asBool? : Value → Option Bool
  | .bool b => some b
  | _ => none

def asInt? : Value → Option Int64
  | .int n => some n
  | _ => none

/-- Whole numbers count as floating-point numbers too. -/
def asFloat? : Value → Option Float
  | .float x => some x
  | .int n => some (floatOfInt n.toInt)
  | _ => none

def asString? : Value → Option String
  | .string s => some s
  | _ => none

def asTexture? : Value → Option (Handle Texture)
  | .texture t => some t
  | _ => none

def asMesh? : Value → Option (Handle MeshImport)
  | .mesh m => some m
  | _ => none

def asBlueprint? : Value → Option GraphInstance
  | .blueprint g => some g
  | _ => none

def asObject? : Value → Option (Handle String)
  | .object o => some o
  | _ => none

/-- The kinds of value a reader may ask for. -/
inductive Wanted where
  | any
  | bool
  | int
  | float
  | string
  | json
  | texture
  | mesh
  | blueprint
deriving DecidableEq

def Wanted.name : Wanted → String
  | .any => "any"
  | .bool => "bool"
  | .int => "int"
  | .float => "float"
  | .string => "string"
  | .json => "json"
  | .texture => "texture"
  | .mesh => "mesh"
  | .blueprint => "blueprint"

/-- The kind of a name; any for others. -/
def Wanted.ofName : String → Wanted
  | "bool" => .bool
  | "int" => .int
  | "float" => .float
  | "string" => .string
  | "json" => .json
  | "texture" => .texture
  | "mesh" => .mesh
  | "blueprint" => .blueprint
  | _ => .any

/-- The value as the kind wanted, if it is or converts to one. -/
def cast? (value : Value) : Wanted → Option Value
  | .any => some value
  | .bool => value.asBool?.map .bool
  | .int => value.asInt?.map .int
  | .float => value.asFloat?.map .float
  | .string => value.asString?.map .string
  | .json => value.toJson?.map .json
  | .texture => value.asTexture?.map .texture
  | .mesh => value.asMesh?.map .mesh
  | .blueprint => value.asBlueprint?.map .blueprint

end Value

/-- Values by name. -/
abbrev Inputs := Table String Value

/-- Values by name as JSON; those without a JSON form are left out. -/
def Value.allToJson (inputs : Inputs) : Json :=
  .ofMembers (inputs.entries.filterMap fun (name, value) ↦
    value.toJson?.map fun json ↦ (name, json))

/-- Values of a run's pins, by node and pin. -/
abbrev Bindings := Table (String × String) Value

/-- Why a pin cannot be read as wanted. -/
inductive PinError where
  | unbound (node pin : String)
  | wrongType (node pin expected found : String)
deriving DecidableEq

def PinError.name : PinError → String
  | .unbound .. => "Pin.Unbound"
  | .wrongType .. => "Pin.WrongType"

def PinError.message : PinError → String
  | .unbound node pin => s!"pin {node}.{pin} is not bound"
  | .wrongType node pin expected found => s!"pin {node}.{pin} holds {found}, expected {expected}"

/-- A typed look at a pin that may be bound. -/
def Value.tryRead (bound : Option Value) (node pin : String) (wanted : Value.Wanted) :
    Except PinError Value :=
  match bound with
  | none => .error (.unbound node pin)
  | some value =>
    match value.cast? wanted with
    | some value => .ok value
    | none => .error (.wrongType node pin wanted.name value.kind)

end Blueprint

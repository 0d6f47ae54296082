import Blueprint.Text.Hex
import Blueprint.Scope.Basic
import Blueprint.Value

/-!
Values as JSON objects that say their kind, for tools: every kind of value has such a form, those
without a JSON form of their own too. An object that is read has one member, named for the kind.
-/

set_option autoImplicit false

namespace Blueprint.Value

/-- A text that may be missing. -/
def textOrNull : Option String → Json
  | some text => .string text
  | none => .null

/-- A text of digits, point and exponent, or of a number that has none. -/
def floatOfText (text : String) : Float :=
  match text with
  | "NaN" => 0.0 / 0.0
  | "inf" => 1.0 / 0.0
  | "-inf" => -1.0 / 0.0
  | _ =>
    match Source.readLiteral text.toUTF8.toList with
    | none => 0.0
    | some (l, _) =>
      let number (digits : List Nat) : Nat := digits.foldl (fun n d ↦ 10 * n + d) 0
      let fraction := l.fraction.getD []
      let written : Int := match l.exponent with
        | some (true, digits) => number digits
        | some (false, digits) => -(number digits : Int)
        | none => 0
      let exponent := written - fraction.length
      let x := Float.ofScientific (number (l.whole ++ fraction)) (exponent < 0) exponent.natAbs
      if l.negative then -x else x

/-- The JSON value of a text; null for a text that is none. -/
def jsonOfText (text : String) : Json := (Json.ofString? text).getD .null

/-- A whole number, or one written in a text. -/
def wholeOf : Json → Int
  | .number (.whole n) => n
  | .string s => s.toInt?.getD 0
  | _ => 0

/-- A natural number under a name. -/
def naturalAt (json : Json) (name : String) : Nat := ((json.get? name).map wholeOf).getD 0 |>.toNat

/-- A text under a name, if there is one. -/
def textAt? (json : Json) (name : String) : Option String := (json.get? name).bind Json.asString?

/-- Reads a tagged form. A shared reference gets a key. -/
def ofTagged (key : Nat) (json : Json) : Value :=
  match json with
  | .object ((kind, content) :: _) =>
    let text := content.asString?.getD ""
    match kind with
    | "json" => ofJson (jsonOfText text)
    | "raw" => .json (jsonOfText text)
    | "bool" => .bool (content.asBool?.getD false)
    | "int" | "i32" => .int (Int64.ofInt (wholeOf content))
    | "float" => .float (floatOfText text)
    | "string" => .string text
    | "object" => .object ⟨key, text⟩
    | "texture" =>
      .texture ⟨key, { width := naturalAt content "width", height := naturalAt content "height"
                       srgb := ((content.get? "srgb").bind Json.asBool?).getD false
                       pixels := Text.unhex ((textAt? content "pixels").getD "") }⟩
    | "mesh" =>
      .mesh ⟨key, { index := naturalAt content "index", name := textAt? content "name"
                    count := naturalAt content "count"
                    bytes := List.replicate (naturalAt content "bytes") 0 }⟩
    | _ => .null
  | _ => .null

/-- Reads inputs in tagged forms. -/
def inputsOfTagged : Json → Inputs
  | .object members =>
    .ofList (members.mapIdx fun key (name, value) ↦ (name, ofTagged key value))
  | _ => {}

/-- Pins with their kinds. -/
def pinsTagged (pins : List PinDecl) : Json :=
  .array (pins.map fun pin ↦ .array [.string pin.name, .string pin.kind])

/-- The tagged form; `version` tells the versions of loaded graphs. -/
def tagged (version : Nat → Option String) (value : Value) : Json :=
  let tag : String × Json := ("kind", .string value.kind)
  match value with
  | .object o => .ofMembers [tag, ("text", .string o.content)]
  | .texture t =>
    .ofMembers [tag, ("width", .ofInt t.content.width), ("height", .ofInt t.content.height),
      ("srgb", .bool t.content.srgb), ("pixels", .string (Text.hex t.content.pixels))]
  | .mesh m =>
    .ofMembers [tag, ("index", .ofInt m.content.index), ("name", textOrNull m.content.name),
      ("count", .ofInt m.content.count), ("bytes", .ofInt m.content.bytes.length)]
  | .blueprint g =>
    .ofMembers [tag, ("id", .string g.id.text), ("inputs", pinsTagged g.inputs),
      ("outputs", pinsTagged g.outputs), ("version", textOrNull (version g.handle))]
  | other => .ofMembers [tag, ("text", textOrNull (other.toJson?.map Json.compact))]

/-- The tagged form of a value that is no graph. -/
def plainTagged : Value → Json := tagged fun _ ↦ none

/-- Values by name in tagged forms. -/
def inputsTagged (version : Nat → Option String) (inputs : Inputs) : Json :=
  .ofMembers (inputs.entries.map fun (name, value) ↦ (name, value.tagged version))

/-- What each typed read of a value gives; a number's bits are written in hexadecimal digits. -/
def readings (value : Value) : Json :=
  let bits (x : Float) : String := String.ofList (hexDigits 16 x.toBits.toNat)
  .ofMembers [
    ("any", .string value.kind),
    ("bool", textOrNull (value.asBool?.map toString)),
    ("int", textOrNull (value.asInt?.map fun n ↦ toString n.toInt)),
    ("float", textOrNull (value.asFloat?.map bits)),
    ("string", textOrNull value.asString?),
    ("json", textOrNull (value.toJson?.map Json.compact)),
    ("texture", textOrNull (value.asTexture?.map fun t ↦ t.content.shown)),
    ("mesh", textOrNull (value.asMesh?.map fun m ↦ m.content.shown)),
    ("blueprint", textOrNull (value.asBlueprint?.map fun g ↦ g.id.text)),
    ("object_string", textOrNull (value.asObject?.map fun o ↦ o.content))]

end Blueprint.Value

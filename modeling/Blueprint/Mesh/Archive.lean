import Blueprint.Image.Basic
import Blueprint.Json.Reading

/-!
Mesh archives: documents of buffers, views on them, accessors, and meshes whose primitives use the
accessors. An archive is the text of such a document, or a container with the text in its first
chunk. What is checked is that the parts have their shapes and that one part refers to another only
if it is there.
-/

set_option autoImplicit false

namespace Blueprint.MeshArchive

open Picture

/-- The items under a name; a name that is absent has none. -/
def items? (doc : Json) (name : String) : Option (List Json) :=
  match doc.get? name with
  | none => some []
  | some (.array items) => some items
  | some _ => none

def natural? (part : Json) (name : String) : Option Nat := (part.get? name).bind Json.asNat?

/-- Whether a number under a name, if there is one, is below a bound. -/
def refersBelow (bound : Nat) (part : Json) (name : String) : Bool :=
  match part.get? name with
  | none | some .null => true
  | some position => position.asNat?.any (· < bound)

/-- A name may be absent. -/
def name? (part : Json) : Option (Option String) :=
  match part.get? "name" with
  | none | some .null => some none
  | some (.string name) => some (some name)
  | some _ => none

def isBuffer (part : Json) : Bool := (natural? part "byteLength").isSome

def isView (buffers : Nat) (part : Json) : Bool :=
  (natural? part "byteLength").isSome && (natural? part "buffer").any (· < buffers)

def componentTypes : List Nat := [5120, 5121, 5122, 5123, 5125, 5126]

def accessorTypes : List String := ["SCALAR", "VEC2", "VEC3", "VEC4", "MAT2", "MAT3", "MAT4"]

def isAccessor (views : Nat) (part : Json) : Bool :=
  (natural? part "count").isSome && (natural? part "componentType").any (· ∈ componentTypes) &&
    ((part.get? "type").bind Json.asString?).any (· ∈ accessorTypes) &&
    refersBelow views part "bufferView" &&
    ((natural? part "bufferView").isSome || (part.get? "sparse").isSome)

/-- What an attribute may be called. -/
def isSemantic (name : String) : Bool :=
  name ∈ ["POSITION", "NORMAL", "TANGENT"] ||
    ["COLOR_", "TEXCOORD_", "JOINTS_", "WEIGHTS_"].any fun start ↦
      name.startsWith start &&
        (let number := name.toList.drop start.length
         !number.isEmpty && number.all Char.isDigit)

/-- An attribute refers to an accessor; that of positions has bounds. -/
def isAttribute (accessors : List Json) (entry : String × Json) : Bool :=
  isSemantic entry.1 &&
    match entry.2.asNat?.bind (accessors[·]?) with
    | none => false
    | some accessor =>
      entry.1 ≠ "POSITION" || ((accessor.get? "min").isSome && (accessor.get? "max").isSome)

def isPrimitive (accessors : List Json) (part : Json) : Bool :=
  refersBelow accessors.length part "indices" &&
    match part.get? "attributes" with
    | some (.object attributes) => attributes.all (isAttribute accessors)
    | _ => false

/-- The name of a mesh, if the mesh is sound. -/
def meshName? (accessors : List Json) (part : Json) : Option (Option String) :=
  match part.get? "primitives" with
  | some (.array primitives) =>
    if primitives.all (isPrimitive accessors) then name? part else none
  | _ => none

/-- The names of a document's meshes in order, if the document is sound. -/
def meshNames? (doc : Json) : Option (List (Option String)) := do
  let asset ← doc.get? "asset"
  let _ ← (asset.get? "version").bind Json.asString?
  let buffers ← items? doc "buffers"
  let views ← items? doc "bufferViews"
  let accessors ← items? doc "accessors"
  let meshes ← items? doc "meshes"
  if buffers.all isBuffer && views.all (isView buffers.length) &&
      accessors.all (isAccessor views.length) then
    meshes.mapM (meshName? accessors)
  else none

/-! ### Containers -/

def signature : Bytes := "glTF".toUTF8.toList

/-- A chunk of some kind at the start of bytes, and the bytes behind it: its length and its kind
stand before its content. -/
def chunk? (kind : Bytes) (bytes : Bytes) : Option (Bytes × Bytes) := do
  let (length, rest) ← takeExactly? 4 bytes
  let (found, rest) ← takeExactly? 4 rest
  if found = kind then takeExactly? (littleEndian length) rest else none

/-- The text in a container: a header of signature, version and length, then a chunk of text, and
perhaps one of data. -/
def contained? (bytes : Bytes) : Option Bytes := do
  let (_, rest) ← takeExactly? 4 bytes
  let (version, rest) ← takeExactly? 4 rest
  let (total, rest) ← takeExactly? 4 rest
  let (text, rest) ← chunk? "JSON".toUTF8.toList rest
  if !rest.isEmpty then let _ ← chunk? "BIN\x00".toUTF8.toList rest
  if littleEndian version = 2 ∧ 12 ≤ littleEndian total ∧ littleEndian total ≤ bytes.length then
    some text
  else none

/-- The names of an archive's meshes. -/
def ofBytes? (bytes : Bytes) : Option (List (Option String)) := do
  let text ← if signature.isPrefixOf bytes then contained? bytes else some bytes
  match (SourceText.ofBytes text).decode fun depth source ↦ source.toJson depth with
  | .ok doc => meshNames? doc
  | .error _ => none

/-! ### Selection -/

/-- A position written in decimal digits, a plus sign before them allowed. -/
def position? (text : String) : Option Nat :=
  let digits := match text.toList with
    | '+' :: rest => rest
    | digits => digits
  if !digits.isEmpty && digits.all Char.isDigit then
    let n := digits.foldl (fun n c ↦ 10 * n + (c.toNat - '0'.toNat)) 0
    if n < UInt64.size then some n else none
  else none

/-- The position of the mesh that a selector picks: the first of its name, else the one at its
position; without a selector the first. -/
def select? (names : List (Option String)) : Option String → Option Nat
  | none => if names.isEmpty then none else some 0
  | some selector =>
    match names.findIdx? (· == some selector) with
    | some position => some position
    | none => (position? selector).filter (· < names.length)

end Blueprint.MeshArchive

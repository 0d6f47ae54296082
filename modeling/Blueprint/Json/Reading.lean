import Blueprint.Json.Source
import Blueprint.Text.Quoted

/-!
Typed reading of JSON. A reading fails at the first fault in the order of the text: `syntaxFault`
where the text stops being JSON, `shape` where a value is not of the form wanted. Arrays and
objects nest at most 127 deep where they are read; what is skipped may nest without bound.

A record is written as an object, or as an array of its fields in the order of their declaration.
-/

set_option autoImplicit false

namespace Blueprint

/-- Why a text is not the value wanted. -/
inductive JsonFault where
  | syntaxFault
  | shape (message : String)
deriving DecidableEq

/-- The wording of a fault. -/
def JsonFault.message : JsonFault → String
  | .syntaxFault => "<json syntax>"
  | .shape message => message

/-- The outcome of a typed reading. -/
abbrev Reading (α : Type) := Except JsonFault α

namespace Source

/-- How many brackets may be open at once, one more than is allowed. -/
def depthLimit : Nat := 128

/-- One bracket deeper. -/
def deeper (depth : Nat) : Reading Nat :=
  if depth ≤ 1 then .error .syntaxFault else .ok (depth - 1)

/-- The fault of meeting this value where another kind was wanted. -/
def mismatch (source : Source) (wanted : String) : JsonFault :=
  let wrong (got : String) : JsonFault := .shape s!"invalid type: {got}, expected {wanted}"
  match source with
  | .null => wrong "null"
  | .bool true => wrong "boolean \x60true\x60"
  | .bool false => wrong "boolean \x60false\x60"
  | .number (some (.whole n)) => wrong s!"integer \x60{n}\x60"
  | .number (some (.real x)) => wrong s!"floating point \x60{JsonNumber.layout.write x.val}\x60"
  | .string (some s) => wrong s!"string {Text.quoted s}"
  | .array _ _ => wrong "sequence"
  | .object _ _ => wrong "map"
  | .number none | .string none | .broken => .syntaxFault

mutual

/-- Reads any value. -/
def toJson (depth : Nat) : Source → Reading Json
  | .null => .ok .null
  | .bool b => .ok (.bool b)
  | .number (some n) => .ok (.number n)
  | .string (some s) => .ok (.string s)
  | .number none | .string none | .broken => .error .syntaxFault
  | .array items closed => do
    let depth ← deeper depth
    let items ← itemsToJson depth items
    if closed then .ok (.array items) else .error .syntaxFault
  | .object members closed => do
    let depth ← deeper depth
    let members ← membersToJson depth members
    if closed then .ok (.ofMembers members) else .error .syntaxFault

def itemsToJson (depth : Nat) : List Source → Reading (List Json)
  | [] => .ok []
  | item :: rest => do
    let item ← toJson depth item
    let rest ← itemsToJson depth rest
    .ok (item :: rest)

def membersToJson (depth : Nat) : List (Option String × Source) → Reading (List (String × Json))
  | [] => .ok []
  | (none, _) :: _ => .error .syntaxFault
  | (some key, value) :: rest => do
    let value ← toJson depth value
    let rest ← membersToJson depth rest
    .ok ((key, value) :: rest)

end

mutual

/-- Whether a value can be skipped: its tokens are well formed. -/
def isSkippable : Source → Bool
  | .broken => false
  | .array items closed => areSkippable items && closed
  | .object members closed => memberSkippable members && closed
  | _ => true

def areSkippable : List Source → Bool
  | [] => true
  | item :: rest => isSkippable item && areSkippable rest

def memberSkippable : List (Option String × Source) → Bool
  | [] => true
  | (_, value) :: rest => isSkippable value && memberSkippable rest

end

/-- Skips a value. -/
def skip (source : Source) : Reading Unit :=
  if source.isSkippable then .ok () else .error .syntaxFault

def readString (source : Source) : Reading String :=
  match source with
  | .string (some s) => .ok s
  | _ => .error (source.mismatch "a string")

def readBool (source : Source) : Reading Bool :=
  match source with
  | .bool b => .ok b
  | _ => .error (source.mismatch "a boolean")

/-- Reads a value that may be absent, written as null. -/
def readOptional {α : Type} (read : Source → Reading α) (source : Source) : Reading (Option α) :=
  match source with
  | .null => .ok none
  | _ => (read source).map some

/-- Reads an array item by item. -/
def readList {α : Type} (read : Nat → Source → Reading α) (depth : Nat) (source : Source) :
    Reading (List α) :=
  match source with
  | .array items closed => do
    let depth ← deeper depth
    let items ← items.mapM (read depth)
    if closed then .ok items else .error .syntaxFault
  | _ => .error (source.mismatch "a sequence")

/-- Reads the members of an object one by one; of two with one key the later counts. -/
def readTable {α : Type} (read : Nat → Source → Reading α) (depth : Nat) (source : Source) :
    Reading (List (String × α)) :=
  match source with
  | .object members closed => do
    let depth ← deeper depth
    let members ← members.foldlM (fun done (key, value) ↦ do
      let some key := key | .error .syntaxFault
      let value ← read depth value
      .ok (done.filter (fun entry ↦ entry.1 != key) ++ [(key, value)])) []
    if closed then .ok members else .error .syntaxFault
  | _ => .error (source.mismatch "a map")

/-- A field of a record under construction. -/
structure Field (σ : Type) where
  name : String
  /-- Stores the field's value. -/
  store : Nat → Source → σ → Reading σ
  /-- A record without the field is refused. -/
  required : Bool

/-- Reads the members of a record's object, `seen` holding the names met so far. -/
def readMembersOf {σ : Type} (fields : List (Field σ)) (depth : Nat) :
    List (Option String × Source) → List String → σ → Reading (List String × σ)
  | [], seen, record => .ok (seen, record)
  | (none, _) :: _, _, _ => .error .syntaxFault
  | (some key, value) :: rest, seen, record =>
    match fields.find? (·.name == key) with
    | none => do
      skip value
      readMembersOf fields depth rest seen record
    | some field => do
      if seen.contains key then
        .error (.shape s!"duplicate field \x60{key}\x60")
      let record ← field.store depth value record
      readMembersOf fields depth rest (key :: seen) record

/-- Reads the items of a record's array, `position` of which have been read. -/
def readItemsOf {σ : Type} (name : String) (count depth position : Nat) (closed : Bool) :
    List (Field σ) → List Source → σ → Reading σ
  | [], [], record => if closed then .ok record else .error .syntaxFault
  | [], _ :: _, _ => .error .syntaxFault
  | field :: fields, item :: items, record => do
    let record ← field.store depth item record
    readItemsOf name count depth (position + 1) closed fields items record
  | field :: fields, [], record =>
    if !closed then .error .syntaxFault
    else if field.required then
      .error (.shape s!"invalid length {position}, expected struct {name} with {elements count}")
    else readItemsOf name count depth (position + 1) closed fields [] record
where
  elements (count : Nat) : String := if count == 1 then "1 element" else s!"{count} elements"

/-- Reads a record, whose fields are absent at the start. -/
def readRecord {σ : Type} (name : String) (fields : List (Field σ)) (start : σ) (depth : Nat)
    (source : Source) : Reading σ :=
  match source with
  | .object members closed => do
    let depth ← deeper depth
    let (seen, record) ← readMembersOf fields depth members [] start
    if !closed then .error .syntaxFault
    match fields.find? fun field ↦ field.required && !seen.contains field.name with
    | some field => .error (.shape s!"missing field \x60{field.name}\x60")
    | none => .ok record
  | .array items closed => do
    let depth ← deeper depth
    readItemsOf name fields.length depth 0 closed fields items start
  | _ => .error (source.mismatch s!"struct {name}")

end Source

/-- Reads a whole text as one value. -/
def SourceText.decode {α : Type} (text : SourceText) (read : Nat → Source → Reading α) :
    Reading α := do
  let value ← read Source.depthLimit text.root
  if text.ends then .ok value else .error .syntaxFault

/-- Reads a text as JSON. -/
def Json.ofString? (text : String) : Option Json :=
  match (SourceText.ofString text).decode Source.toJson with
  | .ok json => some json
  | .error _ => none

end Blueprint

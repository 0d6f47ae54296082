import Blueprint.Graph.Pin

/-!
Graph documents: nodes, the sources of their data inputs, and the exec links between them. A data
input is a link to another node's output, an input of the graph, or, when it is written as neither,
a literal.
-/

set_option autoImplicit false

namespace Blueprint

/-- Where the value of a data input comes from. -/
inductive InputSource where
  | link (node pin : String)
  | graphInput (name : String)
  | literal (value : Json)

namespace InputSource

/-- A pair of texts. -/
def pair? : Source → Option (String × String)
  | .array [.string (some a), .string (some b)] _ => some (a, b)
  | _ => none

/-- A text. -/
def text? : Source → Option String
  | .string (some s) => some s
  | _ => none

/-- The value of a record of one field, written as an object of that field alone or as an array of
one item. -/
def only? (name : String) : Source → Option Source
  | .object [(some key, value)] _ => if key = name then some value else none
  | .array [value] _ => some value
  | _ => none

/-- Tries the forms in turn. -/
def ofSource (source : Source) (value : Json) : InputSource :=
  match (only? "link" source).bind pair? with
  | some (node, pin) => .link node pin
  | none =>
    match (only? "graph_input" source).bind text? with
    | some name => .graphInput name
    | none => .literal value

def read (depth : Nat) (source : Source) : Reading InputSource := do
  let value ← source.toJson depth
  .ok (ofSource source value)

end InputSource

/-- A node as written. -/
structure NodeDocument where
  id : String := ""
  kind : String := ""
  params : Json := .null
  /-- The data inputs by pin, each pin once. -/
  inputs : List (String × InputSource) := []
  /-- The exec outputs by pin, each pin once; one without a target is declared but not wired. -/
  links : List (String × Option String) := []

instance : Inhabited NodeDocument := ⟨{}⟩

namespace NodeDocument

def fields : List (Source.Field NodeDocument) := [
  ⟨"id", fun _ s node ↦ do return { node with id := ← s.readString }, true⟩,
  ⟨"kind", fun _ s node ↦ do return { node with kind := ← s.readString }, true⟩,
  ⟨"params", fun depth s node ↦ do return { node with params := ← s.toJson depth }, false⟩,
  ⟨"inputs", fun depth s node ↦ do
    return { node with inputs := ← s.readTable InputSource.read depth }, false⟩,
  ⟨"links", fun depth s node ↦ do
    let links ← s.readTable (fun _ target ↦ Source.readOptional Source.readString target) depth
    return { node with links }, false⟩]

def read (depth : Nat) (source : Source) : Reading NodeDocument :=
  source.readRecord "NodeDocument" fields {} depth

end NodeDocument

/-- A graph as written. -/
structure GraphDocument where
  version : Option String := none
  entry : Option String := none
  inputs : List PinDecl := []
  outputs : List PinDecl := []
  nodes : List NodeDocument := []

namespace GraphDocument

def fields : List (Source.Field GraphDocument) := [
  ⟨"version", fun _ s doc ↦ do
    return { doc with version := ← Source.readOptional Source.readString s }, false⟩,
  ⟨"entry", fun _ s doc ↦ do
    return { doc with entry := ← Source.readOptional Source.readString s }, false⟩,
  ⟨"inputs", fun depth s doc ↦ do
    return { doc with inputs := ← s.readList PinDecl.read depth }, false⟩,
  ⟨"outputs", fun depth s doc ↦ do
    return { doc with outputs := ← s.readList PinDecl.read depth }, false⟩,
  ⟨"nodes", fun depth s doc ↦ do
    return { doc with nodes := ← s.readList NodeDocument.read depth }, false⟩]

def read (depth : Nat) (source : Source) : Reading GraphDocument :=
  source.readRecord "GraphDocument" fields {} depth

def ofText (text : String) : Reading GraphDocument := (SourceText.ofString text).decode read

end GraphDocument

/-- The version a document declares, when only its header is read. -/
def declaredVersion (text : String) : Reading (Option String) :=
  let fields : List (Source.Field (Option String)) :=
    [⟨"version", fun _ s _ ↦ Source.readOptional Source.readString s, false⟩]
  (SourceText.ofString text).decode fun depth source ↦
    source.readRecord "VersionHeader" fields none depth

end Blueprint

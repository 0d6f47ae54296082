import Blueprint.Graph.Document
import Blueprint.Node.Registry

/-!
Loaded graphs. A document is loaded when it is well formed: its node ids differ, every node's kind
is known and accepts the node's params, and every link, every graph input and the entry name
something that exists. The first fault in the order of the document is reported, duplicate ids
before all others and the entry last.
-/

set_option autoImplicit false

namespace Blueprint

/-- What is wrong with a graph document. -/
inductive GraphFault where
  | duplicateNode (id : String)
  | unknownKind (id kind : String)
  | params (id reason : String)
  | unknownTarget (id pin target : String)
  | unknownOrigin (id pin origin : String)
  | undeclaredInput (id pin input : String)
  | unknownEntry (id : String)
deriving DecidableEq

def GraphFault.message : GraphFault → String
  | .duplicateNode id => s!"duplicate node id '{id}'"
  | .unknownKind id kind => s!"node '{id}' has unknown kind '{kind}'"
  | .params id reason => s!"node '{id}': {reason}"
  | .unknownTarget id pin target => s!"node '{id}' pin '{pin}' links to unknown node '{target}'"
  | .unknownOrigin id pin origin => s!"input '{pin}' of node '{id}' reads unknown node '{origin}'"
  | .undeclaredInput id pin input =>
    s!"input '{pin}' of node '{id}' reads undeclared graph input '{input}'"
  | .unknownEntry id => s!"entry node '{id}' does not exist"

/-- A graph that can be run. -/
structure Graph where
  version : Option String
  /-- The position of the node a run starts with. -/
  entry : Option Nat
  inputs : List PinDecl
  outputs : List PinDecl
  nodes : List NodeDocument
  /-- Positions of nodes by id. -/
  index : Table String Nat

namespace Graph

def node? (g : Graph) (id : String) : Option NodeDocument :=
  (g.index.get? id).bind fun position ↦ g.nodes[position]?

/-- The node a run starts with. -/
def entryNode? (g : Graph) : Option NodeDocument :=
  g.entry.bind fun position ↦ g.nodes[position]?

/-- Positions by id, from one position on. -/
def indexFrom (position : Nat) (index : Table String Nat) :
    List NodeDocument → Except GraphFault (Table String Nat)
  | [] => .ok index
  | node :: rest =>
    if index.contains node.id then .error (.duplicateNode node.id)
    else indexFrom (position + 1) (index.insert node.id position) rest

/-- An exec link leads to a node or nowhere. -/
def checkLink (index : Table String Nat) (node : NodeDocument) (link : String × Option String) :
    Except GraphFault Unit :=
  match link.2 with
  | none => .ok ()
  | some target =>
    if index.contains target then .ok () else .error (.unknownTarget node.id link.1 target)

/-- A data input reads a node, a declared input, or a literal. -/
def checkInput (index : Table String Nat) (declared : List PinDecl) (node : NodeDocument)
    (input : String × InputSource) : Except GraphFault Unit :=
  match input.2 with
  | .link origin _ =>
    if index.contains origin then .ok () else .error (.unknownOrigin node.id input.1 origin)
  | .graphInput name =>
    if declared.any (·.name == name) then .ok ()
    else .error (.undeclaredInput node.id input.1 name)
  | .literal _ => .ok ()

/-- Checks all of a list in order. -/
def checkAll {α : Type} (check : α → Except GraphFault Unit) : List α → Except GraphFault Unit
  | [] => .ok ()
  | item :: rest =>
    match check item with
    | .ok () => checkAll check rest
    | .error fault => .error fault

def checkKind (registry : Registry) (node : NodeDocument) : Except GraphFault Unit :=
  match registry.get? node.kind with
  | none => .error (.unknownKind node.id node.kind)
  | some kind =>
    match kind.validate node.params with
    | .ok () => .ok ()
    | .error reason => .error (.params node.id reason)

def checkNode (registry : Registry) (index : Table String Nat) (declared : List PinDecl)
    (node : NodeDocument) : Except GraphFault Unit := do
  checkKind registry node
  checkAll (checkLink index node) node.links
  checkAll (checkInput index declared node) node.inputs

def checkEntry (index : Table String Nat) : Option String → Except GraphFault Unit
  | none => .ok ()
  | some id => if index.contains id then .ok () else .error (.unknownEntry id)

/-- Checks a document and answers the index of its nodes. -/
def check (registry : Registry) (doc : GraphDocument) :
    Except GraphFault (Table String Nat) := do
  let index ← indexFrom 0 {} doc.nodes
  checkAll (checkNode registry index doc.inputs) doc.nodes
  checkEntry index doc.entry
  return index

/-- A run starts with the entry, else with the first node. -/
def entryOf (doc : GraphDocument) (index : Table String Nat) : Option Nat :=
  match doc.entry with
  | some id => index.get? id
  | none => if doc.nodes.isEmpty then none else some 0

/-- The graph of a document. -/
def ofDocument (registry : Registry) (doc : GraphDocument) : Except GraphFault Graph := do
  let index ← check registry doc
  return {
    version := doc.version
    entry := entryOf doc index
    inputs := doc.inputs
    outputs := doc.outputs
    nodes := doc.nodes
    index }

end Graph

end Blueprint

import Blueprint.Graph.Basic

/-!
The interpreter of loaded graphs. A run is a tree of scopes: executing a graph opens scope 0,
triggering an exec pin opens the next one below the scope it was triggered from, and a scope closes
once its node has finished and every scope below it has closed.

A call changes the tables and answers with the callbacks it makes on the run's host, in order. The
request to run a node, `invoke`, is always the last of them, so that a host may call back into the
interpreter while it serves it.
-/

set_option autoImplicit false

namespace Blueprint

/-- What the interpreter tells the host of a run. -/
inductive Callback where
  | dispatched (scope : Nat)
  | completed (scope : Nat)
  | bind (node pin : String) (value : Value)
  | invoke (call : NodeCall)

/-- A scope that has not closed. -/
structure OpenScope where
  /-- The scope it was triggered from, if that was open. -/
  parent : Option Nat := none
  nodeFinished : Bool := false
  openChildren : Nat := 0
deriving DecidableEq

/-- The scopes of one run. -/
structure ScopeTable where
  /-- The id of the next scope. -/
  next : Nat
  entries : Table Nat OpenScope

/-- A run of a graph. -/
structure ActiveRun where
  graph : Graph
  inputs : Inputs
  scopes : ScopeTable

/-- Loaded graphs and the runs under way. -/
structure Interpreter where
  /-- The last handle given out. -/
  lastHandle : Nat := 0
  graphs : Table Nat Graph := {}
  runs : Table RunId ActiveRun := {}

instance : Inhabited Interpreter := ⟨{}⟩

namespace ScopeTable

/-- The scopes of a run at its start. -/
def initial : ScopeTable :=
  { next := rootScope + 1, entries := Table.empty.insert rootScope {} }

/-- Opens the next scope below another one, which counts it if it is open. An exec pin that is not
wired takes up an id and opens nothing. -/
def openNext (t : ScopeTable) (wired : Bool) (parent : Nat) : ScopeTable :=
  if !wired then { t with next := t.next + 1 }
  else
    match t.entries.get? parent with
    | some p =>
      let counted := t.entries.insert parent { p with openChildren := p.openChildren + 1 }
      { next := t.next + 1, entries := counted.insert t.next { parent := some parent } }
    | none => { next := t.next + 1, entries := t.entries.insert t.next {} }

/-- A scope that was below another one is gone. -/
def uncount (entries : Table Nat OpenScope) : Option Nat → Table Nat OpenScope
  | none => entries
  | some parent => entries.modify parent fun p ↦ { p with openChildren := p.openChildren - 1 }

/-- Closes a scope if nothing holds it open, then the scope above it, and so on; answers the closed
ones in order. Every round but the last removes an entry. -/
def closeUp : Nat → Table Nat OpenScope → Option Nat → List Nat × Table Nat OpenScope
  | 0, entries, _ => ([], entries)
  | _, entries, none => ([], entries)
  | rounds + 1, entries, some id =>
    match entries.get? id with
    | some scope =>
      if scope.nodeFinished && scope.openChildren == 0 then
        let (closed, entries) :=
          closeUp rounds (uncount (entries.erase id) scope.parent) scope.parent
        (id :: closed, entries)
      else ([], entries)
    | none => ([], entries)

/-- The node on a scope has finished. Absent when the scope is not open or its node had finished
before. -/
def finish (t : ScopeTable) (id : Nat) : Option (List Nat × ScopeTable) :=
  match t.entries.get? id with
  | some scope =>
    if scope.nodeFinished then none
    else
      let entries := t.entries.insert id { scope with nodeFinished := true }
      let (closed, entries) := closeUp entries.size entries (some id)
      some (closed, { t with entries })
  | none => none

end ScopeTable

namespace Interpreter

/-- How an engine answers one call. -/
structure Reply (α : Type) where
  outcome : Except EngineError α
  state : Interpreter
  callbacks : List Callback := []

/-- The value of a data input: a literal, an input of the run, or what the linked pin holds. -/
def inputValue (inputs : Inputs) (view : Bindings) : InputSource → Option Value
  | .literal json => some (.ofJson json)
  | .link node pin => view.get? (node, pin)
  | .graphInput name => inputs.get? name

/-- Binds the data inputs of a node one after another, as far as they have values. `view` is what
the host's pins hold. -/
def bindInputs (node : String) (inputs : Inputs) :
    Bindings → List (String × InputSource) → List Callback
  | _, [] => []
  | view, (pin, source) :: rest =>
    match inputValue inputs view source with
    | some value =>
      .bind node pin value :: bindInputs node inputs (view.insert (node, pin) value) rest
    | none => bindInputs node inputs view rest

/-- Hands a node to the host. -/
def startNode (inputs : Inputs) (view : Bindings) (node : NodeDocument) (scope : Nat) :
    List Callback :=
  bindInputs node.id inputs view node.inputs ++
    [.invoke { scope, node := node.id, kind := node.kind, params := node.params }]

/-- Loads a graph document under a fresh handle. -/
def load (e : Interpreter) (registry : Registry) (text : String) :
    Except EngineError Nat × Interpreter :=
  match GraphDocument.ofText text with
  | .error fault => (.error (.load fault.message), e)
  | .ok doc =>
    match Graph.ofDocument registry doc with
    | .error fault => (.error (.load fault.message), e)
    | .ok graph =>
      let handle := e.lastHandle + 1
      (.ok handle, { e with lastHandle := handle, graphs := e.graphs.insert handle graph })

/-- The node on a scope has returned. -/
def finish (e : Interpreter) (run : RunId) (scope : Nat) : Reply Unit :=
  match e.runs.get? run with
  | none => { outcome := .error (.unknownRun run), state := e }
  | some active =>
    match active.scopes.finish scope with
    | none => { outcome := .error (.unknownScope run scope), state := e }
    | some (closed, scopes) =>
      { outcome := .ok ()
        state := { e with runs := e.runs.insert run { active with scopes } }
        callbacks := closed.map .completed }

/-- Starts a run of a loaded graph; a run already under way by that name is replaced. A graph
without nodes is over at once. -/
def execute (e : Interpreter) (handle : Nat) (run : RunId) (inputs : Inputs) (view : Bindings) :
    Reply Nat :=
  match e.graphs.get? handle with
  | none => { outcome := .error (.unknownGraph handle), state := e }
  | some graph =>
    let active := { graph, inputs, scopes := .initial }
    let e := { e with runs := e.runs.insert run active }
    match graph.entryNode? with
    | some entry =>
      { outcome := .ok rootScope
        state := e
        callbacks := .dispatched rootScope :: startNode inputs view entry rootScope }
    | none =>
      let reply := e.finish run rootScope
      { outcome := reply.outcome.map fun _ ↦ rootScope
        state := reply.state
        callbacks := .dispatched rootScope :: reply.callbacks }

/-- Starts the branch behind an exec pin of a node, below a scope. -/
def trigger (e : Interpreter) (run : RunId) (scope : Nat) (node pin : String) (view : Bindings) :
    Reply Nat :=
  match e.runs.get? run with
  | none => { outcome := .error (.unknownRun run), state := e }
  | some active =>
    match active.graph.node? node with
    | none => { outcome := .error (.unknownNode node), state := e }
    | some origin =>
      match Table.find pin origin.links with
      | none => { outcome := .error (.unknownPin node pin), state := e }
      | some target =>
        let child := active.scopes.next
        let scopes := active.scopes.openNext target.isSome scope
        { outcome := .ok child
          state := { e with runs := e.runs.insert run { active with scopes } }
          callbacks := .dispatched child ::
            match target.bind active.graph.node? with
            | some next => startNode active.inputs view next child
            | none => [.completed child] }

/-- Forgets a run. -/
def endRun (e : Interpreter) (run : RunId) : Interpreter := { e with runs := e.runs.erase run }

/-- Forgets a graph; runs of it go on. -/
def release (e : Interpreter) (handle : Nat) : Interpreter :=
  { e with graphs := e.graphs.erase handle }

def inputs (e : Interpreter) (handle : Nat) : List PinDecl :=
  ((e.graphs.get? handle).map (·.inputs)).getD []

def outputs (e : Interpreter) (handle : Nat) : List PinDecl :=
  ((e.graphs.get? handle).map (·.outputs)).getD []

def version (e : Interpreter) (handle : Nat) : Option String :=
  (e.graphs.get? handle).bind (·.version)

end Interpreter

end Blueprint

import Blueprint.Proofs.Graph.Wiring

/-!
The inputs of a run that are read. A graph reads inputs of its run under the names that its nodes
give as sources (`Graph.readInputs`), and in a graph that is accepted these are declared
(`Graph.Accepted.declared_of_read`). No call of the interpreter looks at any others: it answers the
same, and calls back the same, when they are taken away (`Interpreter.pared`).
-/

set_option autoImplicit false

namespace Blueprint

/-- The input of the run that is read. -/
def InputSource.graphInput? : InputSource → Option String
  | .graphInput name => some name
  | .literal _ | .link _ _ => none

namespace Graph

/-- The names under which the nodes of a graph read inputs of the run. -/
def readInputs (g : Graph) : List String :=
  g.nodes.flatMap fun node ↦ node.inputs.filterMap fun input ↦ input.2.graphInput?

variable {g : Graph}

theorem mem_readInputs {node : NodeDocument} (hnode : node ∈ g.nodes) {pin name : String}
    (hinput : (pin, .graphInput name) ∈ node.inputs) : name ∈ g.readInputs :=
  List.mem_flatMap.mpr ⟨node, hnode, List.mem_filterMap.mpr ⟨_, hinput, rfl⟩⟩

theorem checkAll_inputs_of_checkNode {registry : Registry} {index : Table String Nat}
    {declared : List PinDecl} {node : NodeDocument}
    (h : checkNode registry index declared node = .ok ()) :
    checkAll (checkInput index declared node) node.inputs = .ok () := by
  unfold checkNode at h
  cases hkind : checkKind registry node with
  | error fault => simp [hkind, bind, Except.bind] at h
  | ok _ =>
    cases hlinks : checkAll (checkLink index node) node.links with
    | error fault => simp [hkind, hlinks, bind, Except.bind] at h
    | ok _ => simpa [hkind, hlinks, bind, Except.bind] using h

/-- A graph that is accepted reads declared inputs only. -/
theorem Accepted.declared_of_read (h : g.Accepted) {name : String} (hname : name ∈ g.readInputs) :
    ∃ decl ∈ g.inputs, decl.name = name := by
  obtain ⟨registry, doc, hdoc⟩ := h
  obtain ⟨index, -, hnodes, -, rfl⟩ := ofDocument_eq_ok hdoc
  obtain ⟨node, hnode, hinput⟩ := List.mem_flatMap.mp hname
  obtain ⟨⟨pin, source⟩, hmem, hsource⟩ := List.mem_filterMap.mp hinput
  cases source with
  | graphInput found =>
    obtain rfl := Option.some.inj hsource
    have hcheck := check_of_mem (checkAll_inputs_of_checkNode (check_of_mem hnodes hnode)) hmem
    have hany : doc.inputs.any (·.name == found) = true := by
      by_contra hnone
      simp [checkInput, hnone] at hcheck
    obtain ⟨decl, hdecl, heq⟩ := List.any_eq_true.mp hany
    exact ⟨decl, hdecl, eq_of_beq heq⟩
  | literal json => cases hsource
  | link node pin => cases hsource

theorem mem_of_node? {id : String} {node : NodeDocument} (h : g.node? id = some node) :
    node ∈ g.nodes := by
  obtain ⟨position, -, hat⟩ := Option.bind_eq_some_iff.mp h
  exact List.mem_of_getElem? hat

theorem mem_of_entryNode? {node : NodeDocument} (h : g.entryNode? = some node) :
    node ∈ g.nodes := by
  obtain ⟨position, -, hat⟩ := Option.bind_eq_some_iff.mp h
  exact List.mem_of_getElem? hat

end Graph

namespace Inputs

/-- The inputs under some names. -/
def only (inputs : Inputs) (names : List String) : Inputs :=
  ⟨names.filterMap fun name ↦ (inputs.get? name).map fun value ↦ (name, value)⟩

theorem get?_only {names : List String} {name : String} (h : name ∈ names) (inputs : Inputs) :
    (inputs.only names).get? name = inputs.get? name := by
  suffices hfind : Table.find name (inputs.only names).entries =
      if name ∈ names then inputs.get? name else none from hfind.trans (if_pos h)
  clear h
  rw [only]
  induction names with
  | nil => rfl
  | cons first rest ih =>
    dsimp only at ih ⊢
    by_cases hfirst : first = name
    · subst hfirst
      rw [if_pos List.mem_cons_self]
      cases hget : inputs.get? first with
      | none =>
        rw [List.filterMap_cons_none (by rw [hget]; rfl), ih, hget, ite_self]
      | some value =>
        rw [List.filterMap_cons_some (by rw [hget]; rfl), Table.find, if_pos rfl]
    · have hmem : name ∈ first :: rest ↔ name ∈ rest := by simp [Ne.symm hfirst]
      rw [if_congr hmem rfl rfl, ← ih]
      cases hget : inputs.get? first with
      | none => rw [List.filterMap_cons_none (by rw [hget]; rfl)]
      | some value =>
        rw [List.filterMap_cons_some (by rw [hget]; rfl), Table.find, if_neg hfirst]

theorem only_congr {names : List String} {inputs others : Inputs}
    (h : ∀ name ∈ names, inputs.get? name = others.get? name) :
    inputs.only names = others.only names := by
  refine congrArg Table.mk (List.filterMap_congr fun name hname ↦ ?_)
  rw [h name hname]

end Inputs

/-- A run with the inputs that its graph reads. -/
def ActiveRun.pared (active : ActiveRun) : ActiveRun :=
  { active with inputs := active.inputs.only active.graph.readInputs }

namespace Interpreter

/-- The interpreter, one run of which has only the inputs that its graph reads. -/
def pared (e : Interpreter) (run : RunId) : Interpreter :=
  { e with runs := e.runs.mapAt run ActiveRun.pared }

def Reply.pared {α : Type} (reply : Reply α) (run : RunId) : Reply α :=
  { reply with state := reply.state.pared run }

variable {e : Interpreter} {run other : RunId}

/-- Binding the data inputs of a node looks at inputs of the run that are read. -/
theorem bindInputs_only (node : String) (inputs : Inputs) {names : List String} (view : Bindings)
    {sources : List (String × InputSource)}
    (h : ∀ pin name, (pin, .graphInput name) ∈ sources → name ∈ names) :
    bindInputs node (inputs.only names) view sources = bindInputs node inputs view sources := by
  induction sources generalizing view with
  | nil => rfl
  | cons source rest ih =>
    obtain ⟨pin, origin⟩ := source
    have hrest (view : Bindings) := ih view fun pin name hmem ↦ h pin name (List.mem_cons_of_mem _ hmem)
    have hvalue : inputValue (inputs.only names) view origin = inputValue inputs view origin := by
      cases origin with
      | literal json => rfl
      | link node pin => rfl
      | graphInput name => exact Inputs.get?_only (h pin name List.mem_cons_self) inputs
    rw [bindInputs, bindInputs, hvalue]
    cases inputValue inputs view origin with
    | none => exact hrest view
    | some value => exact congrArg _ (hrest _)

theorem startNode_only {graph : Graph} {node : NodeDocument} (hnode : node ∈ graph.nodes)
    (inputs : Inputs) (view : Bindings) (scope : Nat) :
    startNode (inputs.only graph.readInputs) view node scope = startNode inputs view node scope := by
  rw [startNode, startNode,
    bindInputs_only node.id inputs view fun pin name hmem ↦ Graph.mem_readInputs hnode hmem]

theorem get?_runs_pared (e : Interpreter) (run other : RunId) :
    (e.pared run).runs.get? other =
      (e.runs.get? other).map fun active ↦ if other = run then active.pared else active :=
  Table.get?_mapAt e.runs run other ActiveRun.pared

/-- Scopes are all that a call changes of a run. -/
theorem insert_runs_pared (e : Interpreter) (run other : RunId) (active : ActiveRun)
    (scopes : ScopeTable) :
    (e.pared run).runs.insert other
        { (if other = run then active.pared else active) with scopes } =
      (e.runs.insert other { active with scopes }).mapAt run ActiveRun.pared := by
  refine Eq.trans ?_ (e.runs.insert_mapAt run other ActiveRun.pared { active with scopes })
  refine congrArg _ ?_
  split <;> rfl

theorem finish_pared (e : Interpreter) (run other : RunId) (scope : Nat) :
    (e.pared run).finish other scope = (e.finish other scope).pared run := by
  have hscopes (active : ActiveRun) :
      (if other = run then active.pared else active).scopes = active.scopes := by
    split <;> rfl
  rw [finish, finish, get?_runs_pared]
  cases e.runs.get? other with
  | none => rfl
  | some active =>
    dsimp only [Option.map_some]
    rw [hscopes]
    cases active.scopes.finish scope with
    | none => rfl
    | some finished =>
      dsimp only
      rw [insert_runs_pared]
      rfl

/-- A node that is started finds the same inputs. -/
theorem startNode_pared {active : ActiveRun} {node : NodeDocument}
    (hnode : node ∈ active.graph.nodes) (run other : RunId) (view : Bindings) (scope : Nat) :
    startNode (if other = run then active.pared else active).inputs view node scope =
      startNode active.inputs view node scope := by
  split
  · exact startNode_only hnode active.inputs view scope
  · rfl

theorem trigger_pared (e : Interpreter) (run other : RunId) (scope : Nat) (node pin : String)
    (view : Bindings) :
    (e.pared run).trigger other scope node pin view =
      (e.trigger other scope node pin view).pared run := by
  have hnodes (active : ActiveRun) :
      (if other = run then active.pared else active).graph.node? = active.graph.node? := by
    split <;> rfl
  have hscopes (active : ActiveRun) :
      (if other = run then active.pared else active).scopes = active.scopes := by
    split <;> rfl
  rw [trigger, trigger, get?_runs_pared]
  cases e.runs.get? other with
  | none => rfl
  | some active =>
    dsimp only [Option.map_some]
    rw [hnodes, hscopes]
    cases active.graph.node? node with
    | none => rfl
    | some origin =>
      dsimp only
      cases Table.find pin origin.links with
      | none => rfl
      | some target =>
        dsimp only
        rw [insert_runs_pared]
        cases hnext : target.bind active.graph.node? with
        | none => rfl
        | some next =>
          obtain ⟨id, -, hnode⟩ := Option.bind_eq_some_iff.mp hnext
          dsimp only
          rw [startNode_pared (Graph.mem_of_node? hnode)]
          rfl

theorem execute_pared (h : other ≠ run) (e : Interpreter) (handle : Nat) (inputs : Inputs)
    (view : Bindings) :
    (e.pared run).execute handle other inputs view =
      (e.execute handle other inputs view).pared run := by
  have hstate (active : ActiveRun) :
      ({ e.pared run with runs := (e.pared run).runs.insert other active } : Interpreter) =
        ({ e with runs := e.runs.insert other active } : Interpreter).pared run :=
    congrArg (fun runs ↦ { e with runs }) (e.runs.insert_mapAt_of_ne h _ _)
  have hget : (e.pared run).graphs.get? handle = e.graphs.get? handle := rfl
  rw [execute, execute, hget]
  cases e.graphs.get? handle with
  | none => rfl
  | some graph =>
    dsimp only
    rw [hstate]
    cases graph.entryNode? with
    | some entry => rfl
    | none =>
      dsimp only
      rw [finish_pared]
      rfl

/-- Executing a graph on a run does not depend on inputs that the graph does not read. -/
theorem execute_congr (run : RunId) {handle : Nat} {inputs others : Inputs}
    (h : ∀ graph, e.graphs.get? handle = some graph →
      ∀ name ∈ graph.readInputs, inputs.get? name = others.get? name) (view : Bindings) :
    (e.execute handle run inputs view).pared run = (e.execute handle run others view).pared run := by
  rw [execute, execute]
  cases hgraph : e.graphs.get? handle with
  | none => rfl
  | some graph =>
    have honly := Inputs.only_congr (h graph hgraph)
    have hactive : ActiveRun.pared { graph, inputs, scopes := .initial } =
        ActiveRun.pared { graph, inputs := others, scopes := .initial } :=
      congrArg (fun inputs ↦ ({ graph, inputs, scopes := .initial } : ActiveRun)) honly
    have hstate : ({ e with runs := e.runs.insert run { graph, inputs, scopes := .initial } } :
          Interpreter).pared run =
        ({ e with runs := e.runs.insert run { graph, inputs := others, scopes := .initial } } :
          Interpreter).pared run := by
      refine congrArg (fun runs ↦ { e with runs }) ?_
      rw [← Table.insert_mapAt, ← Table.insert_mapAt, if_pos rfl, if_pos rfl, hactive]
    dsimp only
    cases hentry : graph.entryNode? with
    | some entry =>
      have hstart : startNode inputs view entry rootScope = startNode others view entry rootScope := by
        rw [← startNode_only (Graph.mem_of_entryNode? hentry), honly,
          startNode_only (Graph.mem_of_entryNode? hentry)]
      dsimp only
      rw [Reply.pared, Reply.pared, hstate, hstart]
    | none =>
      have hfinish := congrArg (fun e ↦ finish e run rootScope) hstate
      dsimp only at hfinish ⊢
      rw [finish_pared, finish_pared] at hfinish
      have houtcome := congrArg Reply.outcome hfinish
      have hlast := congrArg Reply.state hfinish
      have hcallbacks := congrArg Reply.callbacks hfinish
      simp only [Reply.pared] at houtcome hlast hcallbacks ⊢
      rw [houtcome, hlast, hcallbacks]

theorem endRun_pared (e : Interpreter) (run other : RunId) :
    (e.pared run).endRun other = (e.endRun other).pared run := by
  rw [endRun, endRun, pared, Table.erase_mapAt]
  rfl

theorem load_pared (e : Interpreter) (run : RunId) (registry : Registry) (text : String) :
    (e.pared run).load registry text =
      ((e.load registry text).1, (e.load registry text).2.pared run) := by
  rcases load_cases registry text with ⟨error, herror⟩ | ⟨doc, graph, -, -, hload⟩
  · rw [herror, herror]
  · rw [hload, hload]
    rfl

end Interpreter

end Blueprint

import Blueprint.Proofs.Interpreter.Turns

/-!
How a node is started. Its data inputs are visited in turn, and one is bound if its source has a
value when it is visited (`Interpreter.Visits`, `Interpreter.visits_bindInputs`); then the node is
invoked, once. A call that invokes a node does it on the graph of its run, and on the scope that it
has just opened (`Session.starts_of_invoke`).

A pin keeps what a literal gives it, in whatever order the inputs are visited
(`Interpreter.bind_literal_iff`, `Interpreter.get?_held_of_literal`).
-/

set_option autoImplicit false

namespace Blueprint

/-- What the pins of a host hold after some callbacks. -/
def Bindings.held (view : Bindings) (told : List Callback) : Bindings :=
  (({ bindings := view } : HostRecord).receiveAll told).bindings

theorem HostRecord.bindings_receiveAll (h : HostRecord) (told : List Callback) :
    (h.receiveAll told).bindings = h.bindings.held told := by
  have hsame (other : HostRecord) (hother : other.bindings = h.bindings) :
      (h.receiveAll told).bindings = (other.receiveAll told).bindings := by
    induction told generalizing h other with
    | nil => exact hother.symm
    | cons callback rest ih =>
      refine ih (h.receive callback) (other.receive callback) ?_
      cases callback <;> simp only [receive, hother]
  exact hsame { bindings := h.bindings } rfl

namespace Bindings

variable {view : Bindings} {told : List Callback}

theorem held_cons (view : Bindings) (callback : Callback) (told : List Callback) :
    view.held (callback :: told) = (view.held [callback]).held told :=
  HostRecord.bindings_receiveAll (({ bindings := view } : HostRecord).receive callback) told

theorem held_append (view : Bindings) (first second : List Callback) :
    view.held (first ++ second) = (view.held first).held second := by
  induction first generalizing view with
  | nil => rfl
  | cons callback rest ih => rw [List.cons_append, held_cons, ih, ← held_cons]

/-- A pin that is not bound keeps what it held. -/
theorem get?_held_of_not_bound {node pin : String}
    (h : ∀ value, .bind node pin value ∉ told) :
    (view.held told).get? (node, pin) = view.get? (node, pin) := by
  induction told generalizing view with
  | nil => rfl
  | cons callback rest ih =>
    rw [held_cons, ih fun value hmem ↦ h value (List.mem_cons_of_mem _ hmem)]
    cases callback with
    | bind other place value =>
      have hne : (other, place) ≠ (node, pin) := by
        rintro heq
        cases heq
        exact h value List.mem_cons_self
      exact Table.get?_insert_of_ne view hne value
    | dispatched | completed | invoke => rfl

/-- A pin that is bound to one value only holds it. -/
theorem get?_held_of_bound {node pin : String} {value : Value}
    (hmem : .bind node pin value ∈ told)
    (honly : ∀ other, .bind node pin other ∈ told → other = value) :
    (view.held told).get? (node, pin) = some value := by
  induction told generalizing view with
  | nil => simp at hmem
  | cons callback rest ih =>
    rw [held_cons]
    by_cases hrest : .bind node pin value ∈ rest
    · exact ih hrest fun other hother ↦ honly other (List.mem_cons_of_mem _ hother)
    · obtain rfl := (List.mem_cons.mp hmem).resolve_right hrest
      have hlast : ∀ other, .bind node pin other ∉ rest := fun other hother ↦
        hrest (honly other (List.mem_cons_of_mem _ hother) ▸ hother)
      rw [get?_held_of_not_bound hlast]
      exact Table.get?_insert_self view (node, pin) value

end Bindings

namespace Interpreter

variable {node : String} {inputs : Inputs} {view : Bindings} {sources : List (String × InputSource)}

/-! ### The inputs of a node -/

/-- The value that a source has, when the host's pins hold `view`. -/
inductive HasValue (inputs : Inputs) (view : Bindings) : InputSource → Value → Prop
  | literal (json : Json) : HasValue inputs view (.literal json) (.ofJson json)
  | graphInput {name : String} {value : Value} (hinput : inputs.get? name = some value) :
      HasValue inputs view (.graphInput name) value
  | link {node pin : String} {value : Value} (hpin : view.get? (node, pin) = some value) :
      HasValue inputs view (.link node pin) value

theorem hasValue_iff {source : InputSource} {value : Value} :
    HasValue inputs view source value ↔ inputValue inputs view source = some value := by
  constructor
  · rintro (_ | hinput | hpin)
    · rfl
    · exact hinput
    · exact hpin
  · intro h
    cases source with
    | literal json => exact Option.some.inj h ▸ .literal json
    | graphInput name => exact .graphInput h
    | link node pin => exact .link h

/-- Inputs of a node are visited in turn, from what the host's pins hold to what they hold then.
One is bound if its source has a value when it is visited. -/
inductive Visits (node : String) (inputs : Inputs) :
    Bindings → List (String × InputSource) → List Callback → Bindings → Prop
  | done (view : Bindings) : Visits node inputs view [] [] view
  | bound {view later : Bindings} {pin : String} {source : InputSource} {value : Value}
      {rest : List (String × InputSource)} {told : List Callback}
      (hvalue : HasValue inputs view source value)
      (hrest : Visits node inputs (view.insert (node, pin) value) rest told later) :
      Visits node inputs view ((pin, source) :: rest) (.bind node pin value :: told) later
  | passed {view later : Bindings} {pin : String} {source : InputSource}
      {rest : List (String × InputSource)} {told : List Callback}
      (hnone : ∀ value, ¬ HasValue inputs view source value)
      (hrest : Visits node inputs view rest told later) :
      Visits node inputs view ((pin, source) :: rest) told later

theorem visits_bindInputs (node : String) (inputs : Inputs) (view : Bindings)
    (sources : List (String × InputSource)) :
    Visits node inputs view sources (bindInputs node inputs view sources)
      (view.held (bindInputs node inputs view sources)) := by
  induction sources generalizing view with
  | nil => exact .done view
  | cons first rest ih =>
    obtain ⟨pin, source⟩ := first
    cases hvalue : inputValue inputs view source with
    | none =>
      rw [bindInputs, hvalue]
      exact .passed (fun value h ↦ by simp [hasValue_iff, hvalue] at h) (ih view)
    | some value =>
      rw [bindInputs, hvalue, Bindings.held_cons]
      exact .bound (hasValue_iff.mpr hvalue) (ih (view.insert (node, pin) value))

theorem bindInputs_append (node : String) (inputs : Inputs) (view : Bindings)
    (first second : List (String × InputSource)) :
    bindInputs node inputs view (first ++ second) =
      bindInputs node inputs view first ++
        bindInputs node inputs (view.held (bindInputs node inputs view first)) second := by
  induction first generalizing view with
  | nil => rfl
  | cons head rest ih =>
    obtain ⟨pin, source⟩ := head
    rw [List.cons_append, bindInputs, bindInputs]
    cases inputValue inputs view source with
    | none => exact ih view
    | some value =>
      rw [Bindings.held_cons, List.cons_append]
      exact congrArg (Callback.bind node pin value :: ·) (ih (view.insert (node, pin) value))

theorem not_bind_of_not_mem {pin : String} (h : pin ∉ sources.map (·.1)) (value : Value) :
    .bind node pin value ∉ bindInputs node inputs view sources := by
  intro hmem
  obtain ⟨other, source, bound, hsource, heq⟩ := mem_bindInputs hmem
  cases heq
  exact h (List.mem_map.mpr ⟨_, hsource, rfl⟩)

/-- Assumes: inputs by distinct pins, one of them a literal. It is bound to the literal only. -/
theorem bind_literal_iff (hpins : (sources.map (·.1)).Nodup) {pin : String} {json : Json}
    (hliteral : (pin, .literal json) ∈ sources) {value : Value} :
    .bind node pin value ∈ bindInputs node inputs view sources ↔ value = .ofJson json := by
  obtain ⟨before, after, rfl⟩ := List.append_of_mem hliteral
  rw [List.map_append, List.map_cons, List.nodup_middle, List.nodup_cons, List.mem_append,
    not_or] at hpins
  rw [bindInputs_append, List.mem_append, bindInputs, inputValue, List.mem_cons,
    Callback.bind.injEq]
  simp only [not_bind_of_not_mem hpins.1.1, not_bind_of_not_mem hpins.1.2, true_and, false_or,
    or_false]

theorem get?_held_of_literal (hpins : (sources.map (·.1)).Nodup) {pin : String} {json : Json}
    (hliteral : (pin, .literal json) ∈ sources) :
    (view.held (bindInputs node inputs view sources)).get? (node, pin) = some (.ofJson json) :=
  Bindings.get?_held_of_bound ((bind_literal_iff hpins hliteral).mpr rfl)
    fun _ h ↦ (bind_literal_iff hpins hliteral).mp h

/-- Assumes: a link to another node, and a pin there that holds something. Binding the inputs of a node
leaves that pin alone, so the input is bound to what it holds. -/
theorem bind_of_link {origin pin input : String} {value : Value} (hother : origin ≠ node)
    (hlink : (input, .link origin pin) ∈ sources) (hvalue : view.get? (origin, pin) = some value) :
    .bind node input value ∈ bindInputs node inputs view sources := by
  obtain ⟨before, after, rfl⟩ := List.append_of_mem hlink
  have hkept : (view.held (bindInputs node inputs view before)).get? (origin, pin) = some value := by
    rw [Bindings.get?_held_of_not_bound, hvalue]
    intro written hmem
    obtain ⟨_, _, _, -, heq⟩ := mem_bindInputs hmem
    exact hother (Callback.bind.inj heq).1
  rw [bindInputs_append, List.mem_append, bindInputs, inputValue, hkept]
  exact Or.inr List.mem_cons_self

/-- Invoking a node binds nothing more. -/
theorem held_startNode (inputs : Inputs) (view : Bindings) (node : NodeDocument) (scope : Nat) :
    view.held (startNode inputs view node scope) =
      view.held (bindInputs node.id inputs view node.inputs) := by
  rw [startNode, Bindings.held_append]
  rfl

theorem mem_startNode_bind {node : NodeDocument} {scope : Nat} {other pin : String} {value : Value} :
    .bind other pin value ∈ startNode inputs view node scope ↔
      .bind other pin value ∈ bindInputs node.id inputs view node.inputs := by
  simp [startNode]

theorem mem_startNode_invoke {node : NodeDocument} {scope : Nat} {call : NodeCall} :
    .invoke call ∈ startNode inputs view node scope ↔
      call = { scope, node := node.id, kind := node.kind, params := node.params } := by
  rw [startNode, List.mem_append, List.mem_singleton, Callback.invoke.injEq]
  refine ⟨fun h ↦ h.resolve_left fun hmem ↦ ?_, Or.inr⟩
  obtain ⟨_, _, _, -, heq⟩ := mem_bindInputs hmem
  cases heq

end Interpreter

/-! ### Calls that start a node -/

namespace Session

/-- A call starts a node of a run on a scope: it reports the scope, binds the inputs of the node in
turn, and invokes it. -/
structure Starts (s : Session) (call : EngineCall) (run : RunId) (active : ActiveRun)
    (node : NodeDocument) (scope : Nat) : Prop where
  run_eq : call.run? = some run
  active_eq : (s.step call).2.interpreter.runs.get? run = some active
  mem_nodes : node ∈ active.graph.nodes
  callbacks_eq : s.callbacks call = .dispatched scope ::
    Interpreter.startNode active.inputs (s.host run).bindings node scope

/-- Assumes: a session as calls leave it. A call that invokes a node starts it. -/
theorem starts_of_invoke {s : Session} (hkept : s.Kept) {call : EngineCall} {invoked : NodeCall}
    (hinvoke : .invoke invoked ∈ s.callbacks call) : ∃ run active node,
      s.Starts call run active node invoked.scope ∧ invoked.node = node.id := by
  have hstarted {inputs : Inputs} {view : Bindings} {node : NodeDocument} {scope : Nat}
      (h : .invoke invoked ∈ .dispatched scope :: Interpreter.startNode inputs view node scope) :
      invoked = { scope, node := node.id, kind := node.kind, params := node.params } :=
    Interpreter.mem_startNode_invoke.mp (by simpa using h)
  cases call with
  | load registry text | endRun run | release handle => simp [callbacks] at hinvoke
  | finish run scope =>
    rw [callbacks, Interpreter.finish] at hinvoke
    split at hinvoke
    · simp at hinvoke
    · split at hinvoke <;> simp at hinvoke
  | execute handle run inputs =>
    cases hgraph : s.interpreter.graphs.get? handle with
    | none => simp [callbacks, Interpreter.execute, hgraph] at hinvoke
    | some graph =>
      have hexecutes := Interpreter.executes_execute hgraph
        (hkept.graphs_accepted handle graph hgraph).wired run inputs (s.host run).bindings
      generalize hreply : s.interpreter.execute handle run inputs (s.host run).bindings = reply
        at hexecutes
      rw [callbacks, hreply] at hinvoke
      cases hexecutes with
      | nodeless hnodes => simp at hinvoke
      | entered entry hentry =>
        obtain rfl := hstarted hinvoke
        refine ⟨run, { graph, inputs, scopes := .initial }, entry, ⟨rfl, ?_, hentry, ?_⟩, rfl⟩
        · rw [step, accept, hreply]
          exact Table.get?_insert_self _ _ _
        · rw [callbacks, hreply]
  | trigger run scope node pin =>
    cases hrun : s.interpreter.runs.get? run with
    | none => simp [callbacks, Interpreter.trigger_of_no_run hrun] at hinvoke
    | some active =>
      have htriggers := Interpreter.triggers_trigger hrun
        (hkept.runs_accepted run active hrun).wired scope node pin (s.host run).bindings
      generalize hreply : s.interpreter.trigger run scope node pin (s.host run).bindings = reply
        at htriggers
      rw [callbacks, hreply] at hinvoke
      cases htriggers with
      | refused error hpin => simp at hinvoke
      | unwired hpin => simp at hinvoke
      | wired next hpin hnext =>
        obtain rfl := hstarted hinvoke
        refine ⟨run, { active with scopes := active.scopes.openNext true scope }, next,
          ⟨rfl, ?_, hnext, ?_⟩, rfl⟩
        · rw [step, accept, hreply]
          exact Table.get?_insert_self _ _ _
        · rw [callbacks, hreply]

end Session

end Blueprint

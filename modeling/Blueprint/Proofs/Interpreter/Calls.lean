import Blueprint.Proofs.Graph.Wiring
import Blueprint.Proofs.Interpreter.ScopeTree

/-!
What the calls of one run answer and change. Executing a graph enters it, or is over at once
(`Executes`). A trigger is refused, takes up the id of a pin that leads nowhere, or opens a scope and
starts a node on it (`Triggers`). A finish is refused or closes scopes (`finish_refused`,
`finish_accepted`). No call changes the scopes of another run, or the loaded graphs.
-/

set_option autoImplicit false

namespace Blueprint

namespace Callback

/-- The scope that is reported dispatched. -/
def dispatched? : Callback → Option Nat
  | .dispatched scope => some scope
  | _ => none

/-- The scope that is reported completed. -/
def completed? : Callback → Option Nat
  | .completed scope => some scope
  | _ => none

end Callback

namespace Interpreter

/-- What a trigger of a run does. -/
inductive Triggers (e : Interpreter) (run : RunId) (active : ActiveRun) (scope : Nat)
    (node pin : String) (view : Bindings) : Reply Nat → Prop
  /-- The node has no such pin. -/
  | refused (error : EngineError) (hpin : active.graph.target? node pin = none) :
      Triggers e run active scope node pin view { outcome := .error error, state := e }
  /-- The pin leads nowhere. -/
  | unwired (hpin : active.graph.target? node pin = some none) :
      Triggers e run active scope node pin view {
        outcome := .ok active.scopes.next
        state := { e with
          runs := e.runs.insert run { active with scopes := active.scopes.openNext false scope } }
        callbacks := [.dispatched active.scopes.next, .completed active.scopes.next] }
  | wired (next : NodeDocument) (hpin : active.graph.target? node pin = some (some next.id))
      (hnext : next ∈ active.graph.nodes) :
      Triggers e run active scope node pin view {
        outcome := .ok active.scopes.next
        state := { e with
          runs := e.runs.insert run { active with scopes := active.scopes.openNext true scope } }
        callbacks := .dispatched active.scopes.next ::
          startNode active.inputs view next active.scopes.next }

theorem triggers_trigger {e : Interpreter} {run : RunId} {active : ActiveRun}
    (hrun : e.runs.get? run = some active) (hwired : active.graph.Wired) (scope : Nat)
    (node pin : String) (view : Bindings) :
    Triggers e run active scope node pin view (e.trigger run scope node pin view) := by
  unfold trigger
  simp only [hrun]
  cases horigin : active.graph.node? node with
  | none => exact .refused _ (by simp [Graph.target?, horigin])
  | some origin =>
    have htarget : active.graph.target? node pin = Table.find pin origin.links := by
      simp [Graph.target?, horigin]
    cases hlink : Table.find pin origin.links with
    | none =>
      simp only [hlink]
      exact .refused _ (htarget.trans hlink)
    | some target =>
      cases target with
      | none =>
        simp only [hlink]
        exact .unwired (htarget.trans hlink)
      | some target =>
        obtain ⟨next, hmem, hnext, rfl⟩ := hwired.node?_of_target (htarget.trans hlink)
        simp only [hlink, Option.isSome_some, Option.bind_some, hnext]
        exact .wired next (htarget.trans hlink) hmem

/-- What executing a loaded graph does. -/
inductive Executes (e : Interpreter) (graph : Graph) (run : RunId) (inputs : Inputs)
    (view : Bindings) : Reply Nat → Prop
  | entered (entry : NodeDocument) (hentry : entry ∈ graph.nodes) :
      Executes e graph run inputs view {
        outcome := .ok rootScope
        state := { e with runs := e.runs.insert run { graph, inputs, scopes := .initial } }
        callbacks := .dispatched rootScope :: startNode inputs view entry rootScope }
  /-- The graph has no nodes. -/
  | nodeless (hnodes : graph.nodes = []) :
      Executes e graph run inputs view {
        outcome := .ok rootScope
        state := { e with
          runs := e.runs.insert run
            { graph, inputs, scopes := { next := rootScope + 1, entries := {} } } }
        callbacks := [.dispatched rootScope, .completed rootScope] }

theorem trigger_of_no_run {e : Interpreter} {run : RunId} (hrun : e.runs.get? run = none)
    (scope : Nat) (node pin : String) (view : Bindings) :
    e.trigger run scope node pin view = { outcome := .error (.unknownRun run), state := e } := by
  simp [trigger, hrun]

theorem finish_of_no_run {e : Interpreter} {run : RunId} (hrun : e.runs.get? run = none)
    (scope : Nat) :
    e.finish run scope = { outcome := .error (.unknownRun run), state := e } := by
  simp [finish, hrun]

theorem finish_refused {e : Interpreter} {run : RunId} {active : ActiveRun}
    (hrun : e.runs.get? run = some active) {scope : Nat} (h : active.scopes.finish scope = none) :
    e.finish run scope = { outcome := .error (.unknownScope run scope), state := e } := by
  simp [finish, hrun, h]

theorem finish_accepted {e : Interpreter} {run : RunId} {active : ActiveRun}
    (hrun : e.runs.get? run = some active) {scope : Nat} {closed : List Nat} {scopes : ScopeTable}
    (h : active.scopes.finish scope = some (closed, scopes)) :
    e.finish run scope = {
      outcome := .ok ()
      state := { e with runs := e.runs.insert run { active with scopes } }
      callbacks := closed.map .completed } := by
  simp [finish, hrun, h]

theorem executes_execute {e : Interpreter} {handle : Nat} {graph : Graph}
    (hgraph : e.graphs.get? handle = some graph) (hwired : graph.Wired) (run : RunId)
    (inputs : Inputs) (view : Bindings) :
    Executes e graph run inputs view (e.execute handle run inputs view) := by
  unfold execute
  simp only [hgraph]
  cases hentry : graph.entryNode? with
  | some entry => exact .entered entry (hwired.entry_mem entry hentry)
  | none =>
    have hover := finish_accepted (e := { e with
        runs := e.runs.insert run { graph, inputs, scopes := .initial } })
      (Table.get?_insert_self e.runs run { graph, inputs, scopes := .initial })
      ScopeTable.finish_initial
    rw [Table.insert_insert] at hover
    rw [hover]
    exact .nodeless (hwired.entry_none.mp hentry)

/-! ### Other runs, and the graphs -/

theorem get?_runs_finish {e : Interpreter} {run other : RunId} (hne : run ≠ other) (scope : Nat) :
    (e.finish run scope).state.runs.get? other = e.runs.get? other := by
  unfold finish
  split
  · rfl
  · split
    · rfl
    · simp [hne]

theorem get?_runs_execute {e : Interpreter} {run other : RunId} (hne : run ≠ other) (handle : Nat)
    (inputs : Inputs) (view : Bindings) :
    (e.execute handle run inputs view).state.runs.get? other = e.runs.get? other := by
  unfold execute
  split
  · rfl
  · split
    · simp [hne]
    · rw [get?_runs_finish hne]
      simp [hne]

theorem get?_runs_trigger {e : Interpreter} {run other : RunId} (hne : run ≠ other) (scope : Nat)
    (node pin : String) (view : Bindings) :
    (e.trigger run scope node pin view).state.runs.get? other = e.runs.get? other := by
  unfold trigger
  split
  · rfl
  · split
    · rfl
    · split
      · rfl
      · simp [hne]

theorem graphs_finish (e : Interpreter) (run : RunId) (scope : Nat) :
    (e.finish run scope).state.graphs = e.graphs := by
  unfold finish
  split
  · rfl
  · split <;> rfl

theorem graphs_execute (e : Interpreter) (handle : Nat) (run : RunId) (inputs : Inputs)
    (view : Bindings) : (e.execute handle run inputs view).state.graphs = e.graphs := by
  unfold execute
  split
  · rfl
  · split
    · rfl
    · rw [graphs_finish]

theorem graphs_trigger (e : Interpreter) (run : RunId) (scope : Nat) (node pin : String)
    (view : Bindings) : (e.trigger run scope node pin view).state.graphs = e.graphs := by
  unfold trigger
  split
  · rfl
  · split
    · rfl
    · split <;> rfl

/-! ### Starting a node -/

/-- Only the node's own inputs are bound. -/
theorem mem_bindInputs {node : String} {inputs : Inputs} {view : Bindings}
    {sources : List (String × InputSource)} {callback : Callback}
    (h : callback ∈ bindInputs node inputs view sources) :
    ∃ pin source value, (pin, source) ∈ sources ∧ callback = .bind node pin value := by
  induction sources generalizing view with
  | nil => simp [bindInputs] at h
  | cons first rest ih =>
    obtain ⟨pin, source⟩ := first
    have hlater {view : Bindings} (h : callback ∈ bindInputs node inputs view rest) :
        ∃ other source' value, (other, source') ∈ (pin, source) :: rest ∧
          callback = .bind node other value := by
      obtain ⟨other, source', value, hmem, heq⟩ := ih h
      exact ⟨other, source', value, List.mem_cons_of_mem _ hmem, heq⟩
    rw [bindInputs] at h
    split at h
    · rename_i value _
      rcases List.mem_cons.mp h with rfl | hrest
      · exact ⟨pin, source, value, List.mem_cons_self, rfl⟩
      · exact hlater hrest
    · exact hlater h

theorem filterMap_startNode {α : Type} (inputs : Inputs) (view : Bindings) (node : NodeDocument)
    (scope : Nat) {pick : Callback → Option α}
    (hbind : ∀ node pin value, pick (.bind node pin value) = none)
    (hinvoke : ∀ call, pick (.invoke call) = none) :
    (startNode inputs view node scope).filterMap pick = [] := by
  refine List.filterMap_eq_nil_iff.mpr fun callback hmem ↦ ?_
  rw [startNode, List.mem_append, List.mem_singleton] at hmem
  rcases hmem with hbinds | rfl
  · obtain ⟨pin, source, value, -, rfl⟩ := mem_bindInputs hbinds
    exact hbind _ _ _
  · exact hinvoke _

end Interpreter

end Blueprint

import Blueprint.Proofs.Interpreter.Turns
import Mathlib

/-!
Refused calls. What a call is refused for is read off the tables as they stand before it
(`EngineCall.Refused`), and each cause comes with one error, so causes are tried in an order: the
run, then its node, then the node's pin. On the way to a refusal nothing is changed, neither the
tables nor what hosts have been told (`Interpreter.load_refused`, `Interpreter.Reply.Spotless`).

An execute has no cause other than its handle. A graph without nodes is over at once, and the finish
of its root is not refused, which needs the root scope to be open and the graph to be wired soundly.
Hence `Session.Kept.refused_iff` is about sessions in which loaded graphs are accepted, as they are
in every session that can be reached (`Session.refused_unchanged`).
-/

set_option autoImplicit false

namespace Blueprint

theorem Graph.Wired.node?_eq_some_iff {g : Graph} (h : g.Wired) {id : String}
    {node : NodeDocument} : g.node? id = some node ↔ node ∈ g.nodes ∧ node.id = id := by
  constructor
  · exact h.mem_of_node? id node
  · rintro ⟨hmem, rfl⟩
    exact h.node?_of_mem node hmem

theorem Graph.Wired.node?_eq_none_iff {g : Graph} (h : g.Wired) {id : String} :
    g.node? id = none ↔ ∀ node ∈ g.nodes, node.id ≠ id := by
  rw [Option.eq_none_iff_forall_ne_some]
  constructor
  · intro hnone node hmem hid
    exact hnone node (h.node?_eq_some_iff.mpr ⟨hmem, hid⟩)
  · intro hnone node hnode
    obtain ⟨hmem, hid⟩ := h.node?_eq_some_iff.mp hnode
    exact hnone node hmem hid

/-- A pin that is declared without a target is declared. -/
theorem NodeDocument.find_links_eq_none_iff {node : NodeDocument} {pin : String} :
    Table.find pin node.links = none ↔ ∀ link ∈ node.links, link.1 ≠ pin := by
  have hkeys : Table.find pin node.links = none ↔ pin ∉ node.links.map (·.1) :=
    Table.get?_eq_none_iff (t := ⟨node.links⟩)
  simp only [hkeys, List.mem_map, not_exists, not_and, ne_eq]

/-- What an interpreter refuses a call for, and with which error. -/
inductive EngineCall.Refused (e : Interpreter) : EngineCall → EngineError → Prop
  /-- The text is not a graph document. -/
  | unreadable {registry : Registry} {text : String} {fault : JsonFault}
      (htext : GraphDocument.ofText text = .error fault) :
      Refused e (.load registry text) (.load fault.message)
  /-- The document is not well formed. -/
  | faulty {registry : Registry} {text : String} {doc : GraphDocument} {fault : GraphFault}
      (htext : GraphDocument.ofText text = .ok doc)
      (hgraph : Graph.ofDocument registry doc = .error fault) :
      Refused e (.load registry text) (.load fault.message)
  | notLoaded {handle : Nat} {run : RunId} {inputs : Inputs}
      (hhandle : e.graphs.get? handle = none) :
      Refused e (.execute handle run inputs) (.unknownGraph handle)
  | triggersNoRun {run : RunId} {scope : Nat} {node pin : String}
      (hrun : e.runs.get? run = none) :
      Refused e (.trigger run scope node pin) (.unknownRun run)
  | noNode {run : RunId} {scope : Nat} {node pin : String} {active : ActiveRun}
      (hrun : e.runs.get? run = some active)
      (hnode : ∀ other ∈ active.graph.nodes, other.id ≠ node) :
      Refused e (.trigger run scope node pin) (.unknownNode node)
  | noPin {run : RunId} {scope : Nat} {node pin : String} {active : ActiveRun}
      {origin : NodeDocument} (hrun : e.runs.get? run = some active)
      (horigin : origin ∈ active.graph.nodes) (hid : origin.id = node)
      (hpin : ∀ link ∈ origin.links, link.1 ≠ pin) :
      Refused e (.trigger run scope node pin) (.unknownPin node pin)
  | finishesNoRun {run : RunId} {scope : Nat} (hrun : e.runs.get? run = none) :
      Refused e (.finish run scope) (.unknownRun run)
  /-- The scope is not open, or its node has finished before. -/
  | notAwaited {run : RunId} {scope : Nat} {active : ActiveRun}
      (hrun : e.runs.get? run = some active)
      (hscope : ∀ entry, active.scopes.entries.get? scope = some entry →
        entry.nodeFinished = true) :
      Refused e (.finish run scope) (.unknownScope run scope)

namespace Interpreter

variable {e : Interpreter} {error : EngineError}

/-! ### The causes -/

theorem load_refused_iff {registry : Registry} {text : String} :
    (e.load registry text).1 = .error error ↔ (EngineCall.load registry text).Refused e error := by
  unfold load
  constructor
  · intro h
    cases htext : GraphDocument.ofText text with
    | error fault =>
      simp only [htext, Except.error.injEq] at h
      exact h ▸ .unreadable htext
    | ok doc =>
      cases hgraph : Graph.ofDocument registry doc with
      | error fault =>
        simp only [htext, hgraph, Except.error.injEq] at h
        exact h ▸ .faulty htext hgraph
      | ok graph => simp only [htext, hgraph, reduceCtorEq] at h
  · intro h
    cases h with
    | unreadable htext => simp only [htext]
    | faulty htext hgraph => simp only [htext, hgraph]

/-- Assumes: accepted graphs. Nothing but an unknown handle stops an execute. -/
theorem execute_refused_iff (haccepted : e.GraphsAccepted) {handle : Nat} {run : RunId}
    {inputs : Inputs} {view : Bindings} :
    (e.execute handle run inputs view).outcome = .error error ↔
      (EngineCall.execute handle run inputs).Refused e error := by
  constructor
  · intro h
    cases hgraph : e.graphs.get? handle with
    | none =>
      simp only [execute, hgraph, Except.error.injEq] at h
      exact h ▸ .notLoaded hgraph
    | some graph =>
      have hwired := (haccepted handle graph hgraph).wired
      have hexecutes := executes_execute hgraph hwired run inputs view
      generalize e.execute handle run inputs view = reply at h hexecutes
      cases hexecutes with
      | entered entry hentry => cases h
      | nodeless hnodes => cases h
  · intro h
    cases h with
    | notLoaded hgraph => simp only [execute, hgraph]

/-- Assumes: the graph of the run is wired soundly. -/
theorem trigger_refused_iff {run : RunId}
    (hwired : ∀ active, e.runs.get? run = some active → active.graph.Wired) {scope : Nat}
    {node pin : String} {view : Bindings} :
    (e.trigger run scope node pin view).outcome = .error error ↔
      (EngineCall.trigger run scope node pin).Refused e error := by
  unfold trigger
  constructor
  · intro h
    cases hrun : e.runs.get? run with
    | none =>
      simp only [hrun, Except.error.injEq] at h
      exact h ▸ .triggersNoRun hrun
    | some active =>
      cases hnode : active.graph.node? node with
      | none =>
        simp only [hrun, hnode, Except.error.injEq] at h
        exact h ▸ .noNode hrun ((hwired active hrun).node?_eq_none_iff.mp hnode)
      | some origin =>
        obtain ⟨horigin, hid⟩ := (hwired active hrun).node?_eq_some_iff.mp hnode
        cases hpin : Table.find pin origin.links with
        | none =>
          simp only [hrun, hnode, hpin, Except.error.injEq] at h
          exact h ▸ .noPin hrun horigin hid (NodeDocument.find_links_eq_none_iff.mp hpin)
        | some target => simp only [hrun, hnode, hpin, reduceCtorEq] at h
  · intro h
    cases h with
    | triggersNoRun hrun => simp only [hrun]
    | noNode hrun hnode =>
      have hnone := (hwired _ hrun).node?_eq_none_iff.mpr hnode
      simp only [hrun, hnone]
    | noPin hrun horigin hid hpin =>
      have hsome := (hwired _ hrun).node?_eq_some_iff.mpr ⟨horigin, hid⟩
      simp only [hrun, hsome, NodeDocument.find_links_eq_none_iff.mpr hpin]

theorem finish_refused_iff {run : RunId} {scope : Nat} :
    (e.finish run scope).outcome = .error error ↔
      (EngineCall.finish run scope).Refused e error := by
  unfold finish
  constructor
  · intro h
    cases hrun : e.runs.get? run with
    | none =>
      simp only [hrun, Except.error.injEq] at h
      exact h ▸ .finishesNoRun hrun
    | some active =>
      cases hscope : active.scopes.finish scope with
      | none =>
        simp only [hrun, hscope, Except.error.injEq] at h
        exact h ▸ .notAwaited hrun (ScopeTable.finish_eq_none_iff.mp hscope)
      | some closed => simp only [hrun, hscope, reduceCtorEq] at h
  · intro h
    cases h with
    | finishesNoRun hrun => simp only [hrun]
    | notAwaited hrun hscope => simp only [hrun, ScopeTable.finish_eq_none_iff.mpr hscope]

/-! ### What a refusal leaves -/

/-- A reply that refuses has changed nothing and says nothing. -/
def Reply.Spotless {α : Type} (e : Interpreter) (reply : Reply α) : Prop :=
  ∀ error, reply.outcome = .error error → reply.state = e ∧ reply.callbacks = []

theorem load_refused {registry : Registry} {text : String}
    (h : (e.load registry text).1 = .error error) : (e.load registry text).2 = e := by
  obtain ⟨_, hload⟩ | ⟨_, _, -, -, hload⟩ := load_cases registry text
  · rw [hload]
  · rw [hload] at h
    cases h

theorem spotless_finish (run : RunId) (scope : Nat) : (e.finish run scope).Spotless e := by
  intro error h
  unfold finish at h ⊢
  split
  · exact ⟨rfl, rfl⟩
  · rename_i active hrun
    simp only [hrun] at h
    split
    · exact ⟨rfl, rfl⟩
    · rename_i closed scopes hscope
      simp only [hscope, reduceCtorEq] at h

theorem spotless_trigger (run : RunId) (scope : Nat) (node pin : String) (view : Bindings) :
    (e.trigger run scope node pin view).Spotless e := by
  intro error h
  unfold trigger at h ⊢
  split
  · exact ⟨rfl, rfl⟩
  · rename_i active hrun
    simp only [hrun] at h
    split
    · exact ⟨rfl, rfl⟩
    · rename_i origin hnode
      simp only [hnode] at h
      split
      · exact ⟨rfl, rfl⟩
      · rename_i target hpin
        simp only [hpin, reduceCtorEq] at h

/-- Assumes: accepted graphs. Without that an execute could begin a run and then refuse. -/
theorem spotless_execute (haccepted : e.GraphsAccepted) (handle : Nat) (run : RunId)
    (inputs : Inputs) (view : Bindings) : (e.execute handle run inputs view).Spotless e := by
  intro error h
  cases (execute_refused_iff haccepted).mp h with
  | notLoaded hgraph => simp only [execute, hgraph, and_self]

end Interpreter

namespace EngineAnswer

theorem ofExcept_eq_refused_iff {α : Type} {answer : α → EngineAnswer}
    (hanswer : ∀ value error, answer value ≠ .refused error) {outcome : Except EngineError α}
    {error : EngineError} : ofExcept answer outcome = .refused error ↔ outcome = .error error := by
  cases outcome with
  | ok value => simp [ofExcept, hanswer]
  | error other => simp [ofExcept]

theorem ofExcept_cases {α : Type} (answer : α → EngineAnswer) (outcome : Except EngineError α) :
    (∃ value, ofExcept answer outcome = answer value) ∨
      ∃ error, ofExcept answer outcome = .refused error := by
  cases outcome with
  | ok value => exact Or.inl ⟨value, rfl⟩
  | error error => exact Or.inr ⟨error, rfl⟩

end EngineAnswer

namespace Session

variable {s : Session} {error : EngineError}

theorem Kept.refused_iff (h : s.Kept) {call : EngineCall} :
    (s.step call).1 = .refused error ↔ call.Refused s.interpreter error := by
  cases call with
  | load registry text =>
    exact (EngineAnswer.ofExcept_eq_refused_iff (by simp)).trans
      Interpreter.load_refused_iff
  | execute handle run inputs =>
    exact (EngineAnswer.ofExcept_eq_refused_iff (by simp)).trans
      (Interpreter.execute_refused_iff h.graphs_accepted)
  | trigger run scope node pin =>
    exact (EngineAnswer.ofExcept_eq_refused_iff (by simp)).trans
      (Interpreter.trigger_refused_iff fun active hrun ↦ (h.runs_accepted run active hrun).wired)
  | finish run scope =>
    exact (EngineAnswer.ofExcept_eq_refused_iff (by simp)).trans
      Interpreter.finish_refused_iff
  | endRun run => exact ⟨nofun, nofun⟩
  | release handle => exact ⟨nofun, nofun⟩

/-- The interpreter after a refusal is the one before, and nobody is told. -/
theorem Kept.spotless (h : s.Kept) {call : EngineCall}
    (hrefused : (s.step call).1 = .refused error) :
    (s.step call).2.interpreter = s.interpreter ∧ s.callbacks call = [] := by
  cases call with
  | load registry text =>
    exact ⟨Interpreter.load_refused
      ((EngineAnswer.ofExcept_eq_refused_iff (by simp)).mp hrefused), rfl⟩
  | execute handle run inputs =>
    exact Interpreter.spotless_execute h.graphs_accepted handle run inputs _ error
      ((EngineAnswer.ofExcept_eq_refused_iff (by simp)).mp hrefused)
  | trigger run scope node pin =>
    exact Interpreter.spotless_trigger run scope node pin _ error
      ((EngineAnswer.ofExcept_eq_refused_iff (by simp)).mp hrefused)
  | finish run scope =>
    exact Interpreter.spotless_finish run scope error
      ((EngineAnswer.ofExcept_eq_refused_iff (by simp)).mp hrefused)
  | endRun run => cases hrefused
  | release handle => cases hrefused

/-- A call that tells nobody anything leaves every host as it is. -/
theorem host_step_of_silent (s : Session) {call : EngineCall} (hsilent : s.callbacks call = [])
    (run : RunId) : (s.step call).2.host run = s.host run := by
  by_cases hrun : call.run? = some run
  · rw [s.host_step_self hrun, hsilent]
    rfl
  · exact s.host_step_of_ne hrun

/-- In every session that can be reached, a call is refused exactly for the causes of
`EngineCall.Refused`, with the error of the cause. A refused call leaves loaded graphs, the next
handle, the runs and their scopes, and it tells no host anything. -/
theorem refused_unchanged (moments : List Moment) (call : EngineCall) (error : EngineError) :
    let s := ({} : Session).after moments
    ((s.step call).1 = .refused error ↔ call.Refused s.interpreter error) ∧
      ((s.step call).1 = .refused error → (s.step call).2.interpreter = s.interpreter ∧
        s.callbacks call = [] ∧ ∀ run, (s.step call).2.host run = s.host run) := by
  intro s
  have hkept : s.Kept := kept_after moments
  refine ⟨hkept.refused_iff, fun hrefused ↦ ?_⟩
  obtain ⟨hsame, hsilent⟩ := hkept.spotless hrefused
  exact ⟨hsame, hsilent, s.host_step_of_silent hsilent⟩

/-- In a run under way a pin that is declared without a target is taken; one that is not declared
is refused, and the run has no scope more for it. -/
theorem refused_unchanged_of_missing_pin :
    let text := "\x7b\"nodes\": [\x7b\"id\": \"a\", \"kind\": \"log\", " ++
      "\"links\": \x7b\"then\": null\x7d\x7d]\x7d"
    let moments : List Moment := [.call (.load .standard text), .call (.execute 1 5 {})]
    let s := ({} : Session).after moments
    (s.step (.trigger 5 0 "a" "then")).1 = .scope 1 ∧
      (s.step (.trigger 5 0 "a" "missing")).1 = .refused (.unknownPin "a" "missing") ∧
      (s.step (.trigger 5 0 "a" "missing")).2.interpreter = s.interpreter ∧
      (EngineCall.trigger 5 0 "a" "missing").Refused s.interpreter (.unknownPin "a" "missing") := by
  intro text moments s
  have hanswers : ((s.step (.trigger 5 0 "a" "then")).1, (s.step (.trigger 5 0 "a" "missing")).1) =
      (.scope 1, .refused (.unknownPin "a" "missing")) := by cbv
  obtain ⟨htaken, hrefused⟩ := Prod.mk.inj hanswers
  obtain ⟨hcause, hsame⟩ :=
    refused_unchanged moments (.trigger 5 0 "a" "missing") (.unknownPin "a" "missing")
  exact ⟨htaken, hrefused, (hsame hrefused).1, hcause.mp hrefused⟩

end Session

end Blueprint

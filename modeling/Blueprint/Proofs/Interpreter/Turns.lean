import Blueprint.Proofs.Interpreter.Completion

/-!
Sessions as they go on: calls on the interpreter, and between them values that a host's own nodes
put on its pins. A call with its answer and its callbacks is a turn.

A call is about one run, or about graphs. It tells the host of its own run all its callbacks and no
other host anything (`Session.host_step_self`, `Session.host_step_of_ne`), and leaves other runs as
they are (`Session.get?_runs_step`). Whatever happened before, loaded graphs and those of runs are
accepted (`Session.kept_after`).
-/

set_option autoImplicit false

namespace Blueprint

namespace EngineCall

/-- The run that a call is about; loading and releasing are about graphs. -/
def run? : EngineCall → Option RunId
  | .execute _ run _ | .trigger run .. | .finish run _ | .endRun run => some run
  | .load .. | .release _ => none

end EngineCall

/-- What happens to a session. -/
inductive Moment where
  | call (call : EngineCall)
  /-- A node of a run's host puts a value on a pin. -/
  | put (run : RunId) (node pin : String) (value : Value)

def Moment.run? : Moment → Option RunId
  | .call c => c.run?
  | .put run .. => some run

/-- A call with its answer, and the callbacks it made. -/
structure Turn where
  call : EngineCall
  answer : EngineAnswer
  told : List Callback

namespace Interpreter

variable {e : Interpreter}

theorem lastHandle_finish (e : Interpreter) (run : RunId) (scope : Nat) :
    (e.finish run scope).state.lastHandle = e.lastHandle := by
  unfold finish
  split
  · rfl
  · split <;> rfl

theorem lastHandle_execute (e : Interpreter) (handle : Nat) (run : RunId) (inputs : Inputs)
    (view : Bindings) : (e.execute handle run inputs view).state.lastHandle = e.lastHandle := by
  unfold execute
  split
  · rfl
  · split
    · rfl
    · rw [lastHandle_finish]

theorem lastHandle_trigger (e : Interpreter) (run : RunId) (scope : Nat) (node pin : String)
    (view : Bindings) : (e.trigger run scope node pin view).state.lastHandle = e.lastHandle := by
  unfold trigger
  split
  · rfl
  · split
    · rfl
    · split <;> rfl

/-- A run that is there after a finish was there before, with its graph. -/
theorem graph_of_finish {run other : RunId} {scope : Nat} {active : ActiveRun}
    (hactive : (e.finish run scope).state.runs.get? other = some active) :
    ∃ was, e.runs.get? other = some was ∧ was.graph = active.graph := by
  by_cases hother : run = other
  · subst hother
    unfold finish at hactive
    split at hactive
    · exact ⟨active, hactive, rfl⟩
    · rename_i was hwas
      split at hactive
      · exact ⟨active, hactive, rfl⟩
      · rw [Table.get?_insert_self, Option.some.injEq] at hactive
        exact ⟨was, hwas, hactive ▸ rfl⟩
  · rw [get?_runs_finish hother] at hactive
    exact ⟨active, hactive, rfl⟩

theorem graph_of_trigger {run other : RunId} {scope : Nat} {node pin : String} {view : Bindings}
    {active : ActiveRun}
    (hactive : (e.trigger run scope node pin view).state.runs.get? other = some active) :
    ∃ was, e.runs.get? other = some was ∧ was.graph = active.graph := by
  by_cases hother : run = other
  · subst hother
    unfold trigger at hactive
    split at hactive
    · exact ⟨active, hactive, rfl⟩
    · rename_i was hwas
      split at hactive
      · exact ⟨active, hactive, rfl⟩
      · split at hactive
        · exact ⟨active, hactive, rfl⟩
        · rw [Table.get?_insert_self, Option.some.injEq] at hactive
          exact ⟨was, hwas, hactive ▸ rfl⟩
  · rw [get?_runs_trigger hother] at hactive
    exact ⟨active, hactive, rfl⟩

/-- A run that is there after an execute was there before, with its graph, or has the graph that
was executed. -/
theorem graph_of_execute {handle : Nat} {run other : RunId} {inputs : Inputs} {view : Bindings}
    {active : ActiveRun}
    (hactive : (e.execute handle run inputs view).state.runs.get? other = some active) :
    (∃ was, e.runs.get? other = some was ∧ was.graph = active.graph) ∨
      e.graphs.get? handle = some active.graph := by
  by_cases hother : run = other
  · subst hother
    unfold execute at hactive
    split at hactive
    · exact Or.inl ⟨active, hactive, rfl⟩
    · rename_i graph hgraph
      refine Or.inr (hgraph.trans (congrArg some ?_))
      split at hactive
      · rw [Table.get?_insert_self, Option.some.injEq] at hactive
        exact congrArg ActiveRun.graph hactive
      · obtain ⟨was, hwas, hsame⟩ := graph_of_finish hactive
        rw [Table.get?_insert_self, Option.some.injEq] at hwas
        exact (congrArg ActiveRun.graph hwas).trans hsame
  · rw [get?_runs_execute hother] at hactive
    exact Or.inl ⟨active, hactive, rfl⟩

end Interpreter

namespace Session

/-- A node of a run's host puts a value on a pin. -/
def put (s : Session) (run : RunId) (node pin : String) (value : Value) : Session :=
  let host := s.host run
  { s with
    hosts := s.hosts.insert run { host with bindings := host.bindings.insert (node, pin) value } }

/-- The callbacks that a call makes. -/
def callbacks (s : Session) : EngineCall → List Callback
  | .execute handle run inputs =>
    (s.interpreter.execute handle run inputs (s.host run).bindings).callbacks
  | .trigger run scope node pin =>
    (s.interpreter.trigger run scope node pin (s.host run).bindings).callbacks
  | .finish run scope => (s.interpreter.finish run scope).callbacks
  | .load .. | .endRun _ | .release _ => []

def happen (s : Session) : Moment → Session
  | .call call => (s.step call).2
  | .put run node pin value => s.put run node pin value

/-- The session after some moments. -/
def after (s : Session) (moments : List Moment) : Session := moments.foldl happen s

/-- The turns of some moments, in order. -/
def turns : Session → List Moment → List Turn
  | _, [] => []
  | s, .call call :: rest => ⟨call, (s.step call).1, s.callbacks call⟩ :: turns (s.step call).2 rest
  | s, .put run node pin value :: rest => turns (s.put run node pin value) rest

variable {s : Session}

theorem after_append (s : Session) (first second : List Moment) :
    s.after (first ++ second) = (s.after first).after second := List.foldl_append

/-! ### One call -/

theorem host_put (s : Session) {run other : RunId} (hne : run ≠ other) (node pin : String)
    (value : Value) : (s.put run node pin value).host other = s.host other := by
  unfold host put
  dsimp only
  rw [Table.get?_insert_of_ne _ hne]

theorem host_put_self (s : Session) (run : RunId) (node pin : String) (value : Value) :
    (s.put run node pin value).host run =
      { s.host run with bindings := (s.host run).bindings.insert (node, pin) value } := by
  unfold put
  rw [host]
  dsimp only
  rw [Table.get?_insert_self]
  rfl

theorem callbacks_put (s : Session) (run other : RunId) (node pin : String) (value : Value) :
    ((s.put run node pin value).host other).callbacks = (s.host other).callbacks := by
  by_cases hother : run = other
  · subst hother
    rw [host_put_self]
  · rw [host_put s hother]

/-- A call tells its callbacks to the host of its run. -/
theorem host_step_self (s : Session) {call : EngineCall} {run : RunId}
    (hrun : call.run? = some run) :
    (s.step call).2.host run = (s.host run).receiveAll (s.callbacks call) := by
  cases call with
  | load registry text => cases hrun
  | release handle => cases hrun
  | endRun other => rfl
  | execute handle other inputs | trigger other scope node pin | finish other scope =>
    obtain rfl := Option.some.inj hrun
    exact (host_accept s other other _).trans (if_pos rfl)

/-- A call tells the host of another run nothing. -/
theorem host_step_of_ne (s : Session) {call : EngineCall} {other : RunId}
    (hother : call.run? ≠ some other) : (s.step call).2.host other = s.host other := by
  cases call with
  | load registry text => rfl
  | release handle => rfl
  | endRun run => rfl
  | execute handle run inputs | trigger run scope node pin | finish run scope =>
    exact (host_accept s run other _).trans (if_neg fun heq ↦ hother (congrArg some heq))

/-- A call leaves the runs as they are that it is not about. -/
theorem get?_runs_step (s : Session) {call : EngineCall} {other : RunId}
    (hother : call.run? ≠ some other) :
    (s.step call).2.interpreter.runs.get? other = s.interpreter.runs.get? other := by
  have hne {run : RunId} (hrun : call.run? = some run) : run ≠ other :=
    fun heq ↦ hother (heq ▸ hrun)
  cases call with
  | load registry text =>
    exact congrArg (·.get? other) (Interpreter.runs_load s.interpreter registry text)
  | execute handle run inputs => exact Interpreter.get?_runs_execute (hne rfl) _ _ _
  | trigger run scope node pin => exact Interpreter.get?_runs_trigger (hne rfl) _ _ _ _
  | finish run scope => exact Interpreter.get?_runs_finish (hne rfl) _
  | endRun run =>
    change (s.interpreter.runs.erase run).get? other = _
    rw [Table.get?_erase, if_neg (hne rfl)]
  | release handle => rfl

/-- A call about a run leaves the loaded graphs as they are. -/
theorem graphs_step (s : Session) {call : EngineCall} (hrun : call.run?.isSome) :
    (s.step call).2.interpreter.graphs = s.interpreter.graphs ∧
      (s.step call).2.interpreter.lastHandle = s.interpreter.lastHandle := by
  cases call with
  | load registry text => cases hrun
  | execute handle run inputs =>
    exact ⟨Interpreter.graphs_execute _ _ _ _ _, Interpreter.lastHandle_execute _ _ _ _ _⟩
  | trigger run scope node pin =>
    exact ⟨Interpreter.graphs_trigger _ _ _ _ _ _, Interpreter.lastHandle_trigger _ _ _ _ _ _⟩
  | finish run scope =>
    exact ⟨Interpreter.graphs_finish _ _ _, Interpreter.lastHandle_finish _ _ _⟩
  | endRun run => exact ⟨rfl, rfl⟩
  | release handle => cases hrun

/-- What a call does to the loaded graphs: nothing, or it loads one under the next handle and
answers that, or it releases one. -/
theorem graphs_step_cases (s : Session) (call : EngineCall) :
    ((∀ handle, (s.step call).1 ≠ .graph handle) ∧
        (s.step call).2.interpreter.graphs = s.interpreter.graphs ∧
        (s.step call).2.interpreter.lastHandle = s.interpreter.lastHandle) ∨
      (∃ graph : Graph, graph.Accepted ∧
        (s.step call).1 = .graph (s.interpreter.lastHandle + 1) ∧
        (s.step call).2.interpreter.graphs =
          s.interpreter.graphs.insert (s.interpreter.lastHandle + 1) graph ∧
        (s.step call).2.interpreter.lastHandle = s.interpreter.lastHandle + 1) ∨
      ∃ handle, (s.step call).1 = .done ∧
        (s.step call).2.interpreter.graphs = s.interpreter.graphs.erase handle ∧
        (s.step call).2.interpreter.lastHandle = s.interpreter.lastHandle := by
  have hscope (outcome : Except EngineError Nat) (handle : Nat) :
      EngineAnswer.ofExcept .scope outcome ≠ .graph handle := by
    cases outcome <;> simp [EngineAnswer.ofExcept]
  cases call with
  | load registry text =>
    obtain ⟨error, hload⟩ | ⟨doc, graph, -, hgraph, hload⟩ := Interpreter.load_cases registry text
    · refine Or.inl ⟨fun handle ↦ ?_, ?_, ?_⟩ <;> simp [step, hload, EngineAnswer.ofExcept]
    · refine Or.inr (Or.inl ⟨graph, ⟨registry, doc, hgraph⟩, ?_, ?_, ?_⟩) <;>
        simp [step, hload, EngineAnswer.ofExcept]
  | execute handle run inputs => exact Or.inl ⟨hscope _, s.graphs_step rfl⟩
  | trigger run scope node pin => exact Or.inl ⟨hscope _, s.graphs_step rfl⟩
  | finish run scope =>
    refine Or.inl ⟨fun handle ↦ ?_, s.graphs_step rfl⟩
    simp only [step]
    cases (s.interpreter.finish run scope).outcome <;> simp [EngineAnswer.ofExcept]
  | endRun run => exact Or.inl ⟨fun _ ↦ EngineAnswer.noConfusion, s.graphs_step rfl⟩
  | release handle => exact Or.inr (Or.inr ⟨handle, rfl, rfl, rfl⟩)

/-- A run that is there after a call was there before, with its graph, or has a loaded one. -/
theorem graph_of_step {call : EngineCall} {run : RunId} {active : ActiveRun}
    (hactive : (s.step call).2.interpreter.runs.get? run = some active) :
    (∃ was, s.interpreter.runs.get? run = some was ∧ was.graph = active.graph) ∨
      ∃ handle, s.interpreter.graphs.get? handle = some active.graph := by
  cases call with
  | load registry text =>
    change (s.interpreter.load registry text).2.runs.get? run = some active at hactive
    rw [Interpreter.runs_load] at hactive
    exact Or.inl ⟨active, hactive, rfl⟩
  | execute handle other inputs =>
    exact (Interpreter.graph_of_execute hactive).imp_right fun hgraph ↦ ⟨handle, hgraph⟩
  | trigger other scope node pin => exact Or.inl (Interpreter.graph_of_trigger hactive)
  | finish other scope => exact Or.inl (Interpreter.graph_of_finish hactive)
  | endRun other =>
    change (s.interpreter.runs.erase other).get? run = some active at hactive
    rw [Table.get?_erase] at hactive
    split_ifs at hactive
    exact Or.inl ⟨active, hactive, rfl⟩
  | release handle => exact Or.inl ⟨active, hactive, rfl⟩

/-! ### What is kept -/

/-- What holds of a session whatever happens to it. -/
structure Kept (s : Session) : Prop where
  graphs_accepted : s.interpreter.GraphsAccepted
  runs_accepted : ∀ run active, s.interpreter.runs.get? run = some active → active.graph.Accepted

theorem kept_empty : ({} : Session).Kept where
  graphs_accepted _ _ hget := by cases hget
  runs_accepted _ _ hget := by cases hget

theorem Kept.step (h : s.Kept) (call : EngineCall) : (s.step call).2.Kept where
  graphs_accepted := by
    intro handle graph hget
    obtain ⟨-, hsame, -⟩ | ⟨loaded, haccepted, -, hgraphs, -⟩ | ⟨released, -, hgraphs, -⟩ :=
      s.graphs_step_cases call
    · rw [hsame] at hget
      exact h.graphs_accepted handle graph hget
    · rw [hgraphs, Table.get?_insert] at hget
      split_ifs at hget
      · exact Option.some.inj hget ▸ haccepted
      · exact h.graphs_accepted handle graph hget
    · rw [hgraphs, Table.get?_erase] at hget
      split_ifs at hget
      exact h.graphs_accepted handle graph hget
  runs_accepted := by
    intro run active hactive
    obtain ⟨was, hwas, hsame⟩ | ⟨handle, hgraph⟩ := s.graph_of_step hactive
    · exact hsame ▸ h.runs_accepted run was hwas
    · exact h.graphs_accepted handle active.graph hgraph

theorem Kept.happen (h : s.Kept) (moment : Moment) : (s.happen moment).Kept := by
  cases moment with
  | call call => exact h.step call
  | put run node pin value => exact ⟨h.graphs_accepted, h.runs_accepted⟩

theorem Kept.after (h : s.Kept) (moments : List Moment) : (s.after moments).Kept := by
  induction moments generalizing s with
  | nil => exact h
  | cons moment rest ih => exact ih (h.happen moment)

theorem kept_after (moments : List Moment) : (({} : Session).after moments).Kept :=
  kept_empty.after moments

end Session

end Blueprint

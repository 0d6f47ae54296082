import Blueprint.Proofs.Interpreter.Calls
import Blueprint.Proofs.Run.View

/-!
What the operations of the machine do, run by run. `Machine.Concerns` says that an operation leaves
everything of the other runs as it is, and lemmas `view_…` what becomes of the run itself. The two
operations with more than one outcome are put as relations: an activity is shelved
(`shelves_suspend`), and a request to run a node is taken in (`invokes_invoke`, `invokes_accept`).
-/

set_option autoImplicit false

namespace Blueprint

namespace Context

/-- What a callback that starts no node does to a context. -/
def note (c : Context) : Callback → Context
  | .dispatched scope => { c with tracker := c.tracker.dispatch scope }
  | .completed scope => { c with tracker := (c.tracker.complete scope).tracker }
  | .bind node pin value => c.bind node pin value
  | .invoke _ => c

def noteAll (c : Context) (callbacks : List Callback) : Context := callbacks.foldl note c

theorem noteAll_completed (c : Context) (closed : List Nat) :
    c.noteAll (closed.map .completed) = { c with tracker := c.tracker.completeAll closed } := by
  induction closed generalizing c with
  | nil => rfl
  | cons scope rest ih => exact ih _

/-- Binding the data inputs of a node changes the values on pins only. -/
theorem noteAll_bindInputs (c : Context) (node : String) (inputs : Inputs) (view : Bindings)
    (sources : List (String × InputSource)) :
    ∃ bindings, c.noteAll (Interpreter.bindInputs node inputs view sources) = { c with bindings } := by
  induction sources generalizing c view with
  | nil => exact ⟨c.bindings, rfl⟩
  | cons source rest ih =>
    obtain ⟨pin, origin⟩ := source
    rw [Interpreter.bindInputs]
    split
    · rename_i value hvalue
      obtain ⟨bindings, hbindings⟩ := ih (c.bind node pin value) (view.insert (node, pin) value)
      exact ⟨bindings, hbindings⟩
    · exact ih c view

/-- A scope is dispatched, and the data inputs of a node are bound. -/
theorem noteAll_dispatched (c : Context) (scope : Nat) (node : String) (inputs : Inputs)
    (view : Bindings) (sources : List (String × InputSource)) :
    ∃ bindings, c.noteAll (.dispatched scope :: Interpreter.bindInputs node inputs view sources) =
      { c with tracker := c.tracker.dispatch scope, bindings } :=
  noteAll_bindInputs { c with tracker := c.tracker.dispatch scope } node inputs view sources

end Context

namespace Machine

variable {m m' later : Machine} {run : RunId}

/-! ### What is left as it is -/

/-- One machine comes after another. Numbers that were given out stay given out, and the loaded graphs
stay accepted. -/
structure Later (m m' : Machine) : Prop where
  provider_eq : m'.provider = m.provider
  now_le : m.now ≤ m'.now
  nextRun_le : m.nextRun ≤ m'.nextRun
  nextTask_le : m.nextTask ≤ m'.nextTask
  nextTicket_le : m.nextTicket ≤ m'.nextTicket
  accepted : m.world.interpreter.GraphsAccepted → m'.world.interpreter.GraphsAccepted

namespace Later

theorem refl (m : Machine) : Later m m :=
  ⟨rfl, Nat.le_refl _, Nat.le_refl _, Nat.le_refl _, Nat.le_refl _, fun haccepted ↦ haccepted⟩

theorem of_eq (hprovider : m'.provider = m.provider) (hworld : m'.world = m.world)
    (hnow : m'.now = m.now) (hrun : m'.nextRun = m.nextRun) (htask : m'.nextTask = m.nextTask)
    (hticket : m'.nextTicket = m.nextTicket) : Later m m' :=
  ⟨hprovider, Nat.le_of_eq hnow.symm, Nat.le_of_eq hrun.symm, Nat.le_of_eq htask.symm, Nat.le_of_eq hticket.symm,
    fun haccepted ↦ hworld ▸ haccepted⟩

theorem trans (h : Later m m') (hlater : Later m' later) : Later m later where
  provider_eq := hlater.provider_eq.trans h.provider_eq
  now_le := Nat.le_trans h.now_le hlater.now_le
  nextRun_le := Nat.le_trans h.nextRun_le hlater.nextRun_le
  nextTask_le := Nat.le_trans h.nextTask_le hlater.nextTask_le
  nextTicket_le := Nat.le_trans h.nextTicket_le hlater.nextTicket_le
  accepted := fun haccepted ↦ hlater.accepted (h.accepted haccepted)

end Later

/-- Only one run has changed. -/
structure Concerns (run : RunId) (m m' : Machine) : Prop extends Later m m' where
  view_eq : ∀ other, other ≠ run → m'.view other = m.view other

namespace Concerns

theorem refl (run : RunId) (m : Machine) : Concerns run m m := ⟨.refl m, fun _ _ ↦ rfl⟩

theorem trans (h : Concerns run m m') (hlater : Concerns run m' later) : Concerns run m later :=
  ⟨h.toLater.trans hlater.toLater,
    fun other hother ↦ (hlater.view_eq other hother).trans (h.view_eq other hother)⟩

end Concerns

theorem view_modifyContext (m : Machine) (run : RunId) (change : Context → Context) :
    (m.modifyContext run change).view run =
      { m.view run with context := (m.view run).context.map change } := by
  simp [view, context?, modifyContext]

theorem concerns_modifyContext (m : Machine) (run : RunId) (change : Context → Context) :
    Concerns run m (m.modifyContext run change) where
  toLater := .of_eq rfl rfl rfl rfl rfl rfl
  view_eq := fun other hother ↦ by simp [view, context?, modifyContext, Ne.symm hother]

theorem concerns_record (m : Machine) (run : RunId) (event : Event) :
    Concerns run m (m.record event) :=
  ⟨.of_eq rfl rfl rfl rfl rfl rfl, fun _ _ ↦ rfl⟩

theorem view_withInterpreter (m : Machine) (run : RunId) (e : Interpreter) :
    (m.withInterpreter e).view run = { m.view run with active := e.runs.get? run } := rfl

theorem concerns_withInterpreter {e : Interpreter}
    (hgraphs : m.world.interpreter.GraphsAccepted → e.GraphsAccepted)
    (hruns : ∀ other, other ≠ run → e.runs.get? other = m.world.interpreter.runs.get? other) :
    Concerns run m (m.withInterpreter e) where
  toLater := { Later.refl m with accepted := hgraphs }
  view_eq := fun other hother ↦ by
    rw [view_withInterpreter, hruns other hother]
    rfl

theorem view_push_frame (m : Machine) (frame : Frame) :
    ({ m with frames := frame :: m.frames } : Machine).view frame.run =
      { m.view frame.run with frames := frame :: (m.view frame.run).frames } := by
  simp [view, context?]

theorem concerns_push_frame (m : Machine) (frame : Frame) :
    Concerns frame.run m { m with frames := frame :: m.frames } where
  toLater := .of_eq rfl rfl rfl rfl rfl rfl
  view_eq := fun other hother ↦ by simp [view, context?, Ne.symm hother]

theorem view_enter (m : Machine) (a : Activity) (home : Option Nat) (progress : Progress) :
    (m.enter a home progress).view a.run =
      { m.view a.run with
        frames := .node { a with progress } home :: (m.view a.run).frames } :=
  view_push_frame m (.node { a with progress } home)

theorem concerns_enter (m : Machine) (a : Activity) (home : Option Nat) (progress : Progress) :
    Concerns a.run m (m.enter a home progress) :=
  concerns_push_frame m (.node { a with progress } home)

/-! ### Callbacks -/

theorem note_eq (m : Machine) (run : RunId) (callback : Callback) :
    ∃ events, m.note run callback =
      { m with contexts := m.contexts.modify run (·.note callback), events } := by
  cases callback with
  | dispatched scope => exact ⟨m.events, rfl⟩
  | bind node pin value => exact ⟨m.events, rfl⟩
  | invoke call =>
    have hsame : m.contexts.modify run (·.note (.invoke call)) = m.contexts :=
      Table.modify_same _ _ fun _ _ ↦ rfl
    exact ⟨m.events, by rw [hsame]; rfl⟩
  | completed scope =>
    unfold note completed
    cases hcontext : m.context? run with
    | none =>
      refine ⟨m.events, ?_⟩
      rw [Table.modify_of_none hcontext]
    | some c =>
      have hmodify : m.contexts.modify run (·.note (.completed scope)) =
          (m.modifyContext run fun c' ↦
            { c' with tracker := (c.tracker.complete scope).tracker }).contexts := by
        rw [modifyContext, Table.modify_of_some hcontext, Table.modify_of_some hcontext]
        rfl
      rw [hmodify]
      simp only
      split
      · exact ⟨_, rfl⟩
      · exact ⟨_, rfl⟩

theorem noteAll_eq (m : Machine) (run : RunId) (callbacks : List Callback) :
    ∃ events, callbacks.foldl (fun m callback ↦ m.note run callback) m =
      { m with contexts := m.contexts.modify run (·.noteAll callbacks), events } := by
  induction callbacks generalizing m with
  | nil =>
    have hsame : m.contexts.modify run (·.noteAll []) = m.contexts :=
      Table.modify_same _ _ fun _ _ ↦ rfl
    exact ⟨m.events, by rw [hsame]; rfl⟩
  | cons callback rest ih =>
    obtain ⟨events, hevents⟩ := note_eq m run callback
    rw [List.foldl_cons, hevents]
    obtain ⟨last, hlast⟩ := ih { m with contexts := m.contexts.modify run (·.note callback), events }
    refine ⟨last, hlast.trans ?_⟩
    rw [Table.modify_modify]
    rfl

theorem view_noteAll (m : Machine) (run : RunId) (callbacks : List Callback) :
    (callbacks.foldl (fun m callback ↦ m.note run callback) m).view run =
      { m.view run with context := (m.view run).context.map (·.noteAll callbacks) } := by
  obtain ⟨events, hevents⟩ := noteAll_eq m run callbacks
  rw [hevents]
  exact view_modifyContext m run _

theorem concerns_noteAll (m : Machine) (run : RunId) (callbacks : List Callback) :
    Concerns run m (callbacks.foldl (fun m callback ↦ m.note run callback) m) := by
  obtain ⟨events, hevents⟩ := noteAll_eq m run callbacks
  rw [hevents]
  exact ⟨.of_eq rfl rfl rfl rfl rfl rfl, (concerns_modifyContext m run (·.noteAll callbacks)).view_eq⟩

/-! ### Invocations that end -/

theorem finishScope_snd (m : Machine) (run : RunId) (scope : Nat) :
    (m.finishScope run scope).2 =
      (m.world.interpreter.finish run scope).callbacks.foldl (fun m callback ↦ m.note run callback)
        (m.withInterpreter (m.world.interpreter.finish run scope).state) := by
  unfold finishScope
  dsimp only
  split <;> rfl

theorem view_finishScope (m : Machine) (run : RunId) (scope : Nat) :
    (m.finishScope run scope).2.view run = (m.view run).finish scope := by
  have hactive : (m.view run).active = m.world.interpreter.runs.get? run := rfl
  rw [finishScope_snd, view_noteAll, view_withInterpreter]
  unfold RunView.finish
  cases hrun : m.world.interpreter.runs.get? run with
  | none =>
    rw [Interpreter.finish_of_no_run hrun, hactive, hrun]
    simp [Context.noteAll, hrun, view]
  | some active =>
    rw [hactive, hrun]
    cases hfinish : active.scopes.finish scope with
    | none =>
      rw [Interpreter.finish_refused hrun hfinish]
      simp [Context.noteAll, hrun, hfinish, view]
    | some finished =>
      obtain ⟨closed, scopes⟩ := finished
      rw [Interpreter.finish_accepted hrun hfinish]
      simp [Context.noteAll_completed, hfinish]

theorem concerns_finishScope (m : Machine) (run : RunId) (scope : Nat) :
    Concerns run m (m.finishScope run scope).2 := by
  have hgraphs := Interpreter.graphs_finish m.world.interpreter run scope
  have hinterpreter : Concerns run m
      (m.withInterpreter (m.world.interpreter.finish run scope).state) :=
    concerns_withInterpreter (fun haccepted handle g hget ↦ haccepted handle g (hgraphs ▸ hget))
      fun other hother ↦ Interpreter.get?_runs_finish (Ne.symm hother) scope
  rw [finishScope_snd]
  exact hinterpreter.trans (concerns_noteAll _ run _)

theorem view_conclude (m : Machine) (run : RunId) (call : NodeCall) (ending : Ending) :
    (m.conclude run call ending).view run = (m.view run).conclude call ending := by
  unfold conclude RunView.conclude
  split_ifs with hdone
  · exact view_finishScope m run call.scope
  · exact (view_finishScope _ run call.scope).trans (by rw [view_modifyContext])

theorem concerns_conclude (m : Machine) (run : RunId) (call : NodeCall) (ending : Ending) :
    Concerns run m (m.conclude run call ending) := by
  unfold conclude
  split_ifs with hdone
  · exact (concerns_finishScope m run call.scope).trans (concerns_record _ _ _)
  · exact ((concerns_modifyContext m run _).trans (concerns_finishScope _ run call.scope)).trans
      (concerns_record _ _ _)

/-! ### Tasks -/

theorem spawn_of_tasks {a : Activity} {c : Context} (hcontext : m.context? a.run = some c)
    (htasks : c.hasTasks = true) :
    m.spawn a = { m with tasks := m.tasks ++ [(m.nextTask, a)], nextTask := m.nextTask + 1 } := by
  rw [spawn, hcontext]
  simp only [htasks, ↓reduceIte]

theorem spawn_of_no_tasks {a : Activity} {c : Context} (hcontext : m.context? a.run = some c)
    (htasks : c.hasTasks = false) : m.spawn a = m := by
  rw [spawn, hcontext]
  simp only [htasks, Bool.false_eq_true, ↓reduceIte]

theorem view_append_task (m : Machine) (a : Activity) (task next : Nat) :
    ({ m with tasks := m.tasks ++ [(task, a)], nextTask := next } : Machine).view a.run =
      { m.view a.run with tasks := (m.view a.run).tasks ++ [(task, a)] } := by
  simp [view, context?]

theorem concerns_append_task (m : Machine) (a : Activity) (task : Nat) {next : Nat}
    (hnext : m.nextTask ≤ next) :
    Concerns a.run m { m with tasks := m.tasks ++ [(task, a)], nextTask := next } where
  toLater := { Later.refl m with nextTask_le := hnext }
  view_eq := fun other hother ↦ by simp [view, context?, Ne.symm hother]

theorem concerns_spawn (m : Machine) (a : Activity) : Concerns a.run m (m.spawn a) := by
  unfold spawn
  split
  · exact .refl _ _
  · split_ifs
    · exact concerns_append_task m a m.nextTask (Nat.le_succ _)
    · exact .refl _ _

theorem concerns_suspend (m : Machine) (a : Activity) (home : Option Nat) :
    Concerns a.run m (m.suspend a home) := by
  cases home with
  | none => exact concerns_spawn m a
  | some task => exact concerns_append_task m a task (Nat.le_refl _)

theorem shelves_suspend {a : Activity} {c : Context} (hcontext : m.context? a.run = some c)
    (home : Option Nat) :
    ∃ tasks lost, RunView.Shelves m (m.suspend a home) c a (m.view a.run).tasks home tasks lost ∧
      (m.suspend a home).view a.run = { m.view a.run with tasks } := by
  cases home with
  | some task => exact ⟨_, _, .back task, view_append_task m a task m.nextTask⟩
  | none =>
    unfold suspend
    cases htasks : c.hasTasks with
    | true =>
      rw [spawn_of_tasks hcontext htasks]
      exact ⟨_, _, .spawned m.nextTask htasks (Nat.le_refl _) (Nat.lt_succ_self _),
        view_append_task m a m.nextTask _⟩
    | false =>
      rw [spawn_of_no_tasks hcontext htasks]
      exact ⟨_, _, .lost htasks, rfl⟩

/-- The number that is given out is not older than those of a machine before. -/
theorem shelves_of_later {base : Machine} {a : Activity} {c : Context}
    {tasks after : List (Nat × Activity)} {home : Option Nat} {lost : List Nat}
    (h : RunView.Shelves m m' c a tasks home after lost) (hbase : Later base m) :
    RunView.Shelves base m' c a tasks home after lost := by
  cases h with
  | back task => exact .back task
  | spawned task htasks hold hnew =>
    exact .spawned task htasks (Nat.le_trans hbase.nextTask_le hold) hnew
  | lost htasks => exact .lost htasks

/-! ### Invocations that begin -/

theorem concerns_invoke (m : Machine) (run : RunId) (call : NodeCall) :
    Concerns run m (m.invoke run call) := by
  unfold invoke
  split
  · exact .refl _ _
  · split
    · exact concerns_conclude m run call _
    · split
      · exact concerns_spawn m { run, call, progress := _ }
      · dsimp only
        split_ifs
        · exact (concerns_modifyContext m run _).trans (concerns_push_frame _ (.drain run))
        · exact concerns_modifyContext m run _

/-- Assumes: `base` is the machine before the move, and `after` the one after it. -/
theorem invokes_invoke {base after : Machine} {c : Context} {call : NodeCall}
    (hcontext : m.context? run = some c) (hbefore : Later base m)
    (hafter : (m.invoke run call).nextTask ≤ after.nextTask) :
    ∃ lost, RunView.Invokes base after run call (m.view run) c ((m.invoke run call).view run)
      lost := by
  have hprovider := hbefore.provider_eq
  have hqueue (queue : SyncQueue) : (m.modifyContext run fun c ↦ { c with queue }).view run =
      { m.view run with context := some { c with queue } } := by
    rw [view_modifyContext]
    simp [view, hcontext]
  cases hkind : m.provider.registry.get? call.kind with
  | none =>
    have hinvoke : m.invoke run call = m.conclude run call (.unknownKind call.kind) := by
      simp [invoke, hcontext, hkind]
    rw [hinvoke, view_conclude]
    exact ⟨_, .unknown (hprovider ▸ hkind)⟩
  | some kind =>
    cases hmode : kind.mode with
    | async =>
      have hinvoke : m.invoke run call =
          m.spawn { run, call, progress := .going (kind.behaviour call) } := by
        simp [invoke, hcontext, hkind, hmode]
      cases htasks : c.hasTasks with
      | true =>
        rw [spawn_of_tasks hcontext htasks] at hinvoke
        rw [hinvoke] at hafter ⊢
        rw [view_append_task m { run, call, progress := .going (kind.behaviour call) }]
        exact ⟨_, .spawned kind m.nextTask (hprovider ▸ hkind) hmode htasks hbefore.nextTask_le
          hafter⟩
      | false =>
        rw [hinvoke, spawn_of_no_tasks hcontext htasks]
        exact ⟨_, .lost kind (hprovider ▸ hkind) hmode htasks⟩
    | sync =>
      cases hdraining : c.queue.draining with
      | true =>
        have hinvoke : m.invoke run call = m.modifyContext run fun c' ↦
            { c' with queue := { c.queue with calls := c.queue.calls ++ [call] } } := by
          simp [invoke, hcontext, hkind, hmode, SyncQueue.push, hdraining]
        rw [hinvoke, hqueue]
        exact ⟨_, .queued kind (hprovider ▸ hkind) hmode hdraining⟩
      | false =>
        have hinvoke (queued : Machine) (hqueued : queued = m.modifyContext run fun c' ↦
            { c' with queue := { calls := c.queue.calls ++ [call], draining := true } }) :
            m.invoke run call = { queued with frames := .drain run :: queued.frames } := by
          simp [invoke, hcontext, hkind, hmode, SyncQueue.push, hdraining, hqueued]
        have hpush := view_push_frame (m.modifyContext run fun c' ↦
          { c' with queue := { calls := c.queue.calls ++ [call], draining := true } }) (.drain run)
        rw [Frame.run, hqueue] at hpush
        rw [hinvoke _ rfl, hpush]
        exact ⟨_, .drained kind (hprovider ▸ hkind) hmode hdraining⟩

/-! ### Replies of the interpreter -/

/-- Callbacks that start no node are only noted. -/
theorem receiveAll_of_quiet (m : Machine) (run : RunId) {callbacks : List Callback}
    (hquiet : ∀ callback ∈ callbacks, ∀ call, callback ≠ .invoke call) :
    callbacks.foldl (fun m callback ↦ m.receive run callback) m =
      callbacks.foldl (fun m callback ↦ m.note run callback) m := by
  induction callbacks generalizing m with
  | nil => rfl
  | cons callback rest ih =>
    have hreceive : m.receive run callback = m.note run callback := by
      cases callback with
      | invoke call => exact absurd rfl (hquiet _ List.mem_cons_self call)
      | dispatched | completed | bind => rfl
    rw [List.foldl_cons, List.foldl_cons, hreceive]
    exact ih _ fun other hother ↦ hquiet other (List.mem_cons_of_mem _ hother)

theorem ne_invoke_of_mem_bindInputs {node : String} {inputs : Inputs} {view : Bindings}
    {sources : List (String × InputSource)} {callback : Callback}
    (h : callback ∈ Interpreter.bindInputs node inputs view sources) (call : NodeCall) :
    callback ≠ .invoke call := by
  obtain ⟨_, _, _, -, rfl⟩ := Interpreter.mem_bindInputs h
  exact Callback.noConfusion

variable {α : Type} {reply : Interpreter.Reply α}

theorem view_accept_of_quiet (hquiet : ∀ callback ∈ reply.callbacks, ∀ call, callback ≠ .invoke call) :
    (m.accept run reply).view run =
      { m.view run with
        active := reply.state.runs.get? run
        context := (m.view run).context.map (·.noteAll reply.callbacks) } := by
  rw [accept, receiveAll_of_quiet _ _ hquiet, view_noteAll, view_withInterpreter]

theorem concerns_receive (m : Machine) (run : RunId) (callback : Callback) :
    Concerns run m (m.receive run callback) := by
  cases callback with
  | invoke call => exact concerns_invoke m run call
  | dispatched scope => exact concerns_noteAll m run [.dispatched scope]
  | completed scope => exact concerns_noteAll m run [.completed scope]
  | bind node pin value => exact concerns_noteAll m run [.bind node pin value]

theorem concerns_receiveAll (m : Machine) (run : RunId) (callbacks : List Callback) :
    Concerns run m (callbacks.foldl (fun m callback ↦ m.receive run callback) m) := by
  induction callbacks generalizing m with
  | nil => exact .refl run m
  | cons callback rest ih => exact (concerns_receive m run callback).trans (ih _)

/-- Assumes: a reply in which only one run has changed. -/
theorem concerns_accept (hgraphs : reply.state.graphs = m.world.interpreter.graphs)
    (hruns : ∀ other, other ≠ run →
      reply.state.runs.get? other = m.world.interpreter.runs.get? other) :
    Concerns run m (m.accept run reply) := by
  have hinterpreter : Concerns run m (m.withInterpreter reply.state) :=
    concerns_withInterpreter (fun haccepted handle g hget ↦ haccepted handle g (hgraphs ▸ hget)) hruns
  exact hinterpreter.trans (concerns_receiveAll _ run reply.callbacks)

/-- Assumes: a reply that reports a scope as dispatched and starts a node on it. All is told but the
last, which starts the node. -/
theorem accept_of_starts {inputs : Inputs} {bound : Bindings} {node : NodeDocument} {scope : Nat}
    (hcallbacks : reply.callbacks =
      .dispatched scope :: Interpreter.startNode inputs bound node scope) :
    m.accept run reply =
      ((.dispatched scope :: Interpreter.bindInputs node.id inputs bound node.inputs).foldl
        (fun m callback ↦ m.note run callback) (m.withInterpreter reply.state)).invoke run
          { scope, node := node.id, kind := node.kind, params := node.params } := by
  have hquiet : ∀ callback ∈ Callback.dispatched scope ::
      Interpreter.bindInputs node.id inputs bound node.inputs, ∀ call, callback ≠ .invoke call := by
    intro callback hmem call
    rcases List.mem_cons.mp hmem with rfl | hmem
    · exact Callback.noConfusion
    · exact ne_invoke_of_mem_bindInputs hmem call
  rw [accept, hcallbacks, Interpreter.startNode, ← List.cons_append, List.foldl_append,
    receiveAll_of_quiet _ _ hquiet]
  rfl

/-- Assumes: a reply that reports a scope as dispatched and starts a node on it. -/
theorem invokes_accept {base : Machine} {c : Context} {inputs : Inputs} {bound : Bindings}
    {node : NodeDocument} {scope : Nat} (reply : Interpreter.Reply α) (hcontext : (m.view run).context = some c)
    (hbefore : Later base m)
    (hgraphs : reply.state.graphs = m.world.interpreter.graphs)
    (hruns : ∀ other, other ≠ run →
      reply.state.runs.get? other = m.world.interpreter.runs.get? other)
    (hcallbacks : reply.callbacks =
      .dispatched scope :: Interpreter.startNode inputs bound node scope) :
    ∃ bindings lost, RunView.Invokes base (m.accept run reply) run
      { scope, node := node.id, kind := node.kind, params := node.params }
      { m.view run with
        active := reply.state.runs.get? run
        context := some { c with tracker := c.tracker.dispatch scope, bindings } }
      { c with tracker := c.tracker.dispatch scope, bindings } ((m.accept run reply).view run)
      lost := by
  obtain ⟨bindings, hbindings⟩ := Context.noteAll_dispatched c scope node.id inputs bound node.inputs
  have htold := view_noteAll (m.withInterpreter reply.state) run
    (.dispatched scope :: Interpreter.bindInputs node.id inputs bound node.inputs)
  rw [view_withInterpreter] at htold
  simp only [hcontext, Option.map_some, hbindings] at htold
  have haccept : m.accept run reply = _ := accept_of_starts hcallbacks
  have hinterpreter : Concerns run m (m.withInterpreter reply.state) :=
    concerns_withInterpreter (fun haccepted handle g hget ↦ haccepted handle g (hgraphs ▸ hget)) hruns
  refine ⟨bindings, ?_⟩
  rw [← htold]
  nth_rewrite 2 [haccept]
  refine invokes_invoke (congrArg RunView.context htold) ?_ (Nat.le_of_eq (congrArg _ haccept.symm))
  exact (hbefore.trans hinterpreter.toLater).trans (concerns_noteAll _ run _).toLater

end Machine

end Blueprint

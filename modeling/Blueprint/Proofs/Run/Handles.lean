import Blueprint.Proofs.Decode.Gate
import Blueprint.Proofs.Node.Handles
import Blueprint.Proofs.Run.Loading
import Blueprint.Run.Execution

/-!
The blueprints that a machine holds: in the contexts of its runs, in their inputs, and in what their
nodes are about to do. With an honest registry a move brings in no handle that was not there before,
except those that it loads graphs under (`Machine.Housed.drawnFrom_step`). A graph is loaded under a
handle that was never given out before, so a graph that is kept from all runs stays kept from them.
-/

set_option autoImplicit false

namespace Blueprint

variable {held more : Set Nat}

/-! ### Calls of the interpreter -/

/-- A value that is bound has a handle of a set, if it has one. -/
def Callback.DrawnFrom (held : Set Nat) : Callback → Prop
  | .bind _ _ value => value.DrawnFrom held
  | .dispatched _ | .completed _ | .invoke _ => True

namespace Interpreter

/-- The inputs of the runs under way have handles of a set. -/
def DrawnFrom (held : Set Nat) (e : Interpreter) : Prop :=
  e.runs.All fun active ↦ active.inputs.All (Value.DrawnFrom held)

/-- The same for what a call replies. -/
structure Reply.DrawnFrom {α : Type} (held : Set Nat) (reply : Reply α) : Prop where
  state : reply.state.DrawnFrom held
  callbacks : ∀ callback ∈ reply.callbacks, callback.DrawnFrom held

variable {e : Interpreter} {inputs : Inputs} {view : Bindings}

theorem drawnFrom_bindInputs (hinputs : inputs.All (Value.DrawnFrom held))
    (hview : view.All (Value.DrawnFrom held)) (node : String) (sources : List (String × InputSource)) :
    ∀ callback ∈ bindInputs node inputs view sources, callback.DrawnFrom held := by
  induction sources generalizing view with
  | nil => exact List.forall_mem_nil _
  | cons first rest ih =>
    obtain ⟨pin, source⟩ := first
    rw [bindInputs]
    split
    · rename_i value hvalue
      have hdrawn : value.DrawnFrom held := by
        cases source with
        | literal json => exact Option.some.inj hvalue ▸ Value.drawnFrom_ofJson json
        | link other pin => exact hview.get? hvalue
        | graphInput name => exact hinputs.get? hvalue
      intro callback hcallback
      rcases List.mem_cons.mp hcallback with rfl | hrest
      · exact hdrawn
      · exact ih (hview.insert (node, pin) hdrawn) callback hrest
    · exact ih hview

theorem drawnFrom_startNode (hinputs : inputs.All (Value.DrawnFrom held))
    (hview : view.All (Value.DrawnFrom held)) (node : NodeDocument) (reported scope : Nat) :
    ∀ callback ∈ .dispatched reported :: startNode inputs view node scope,
      callback.DrawnFrom held := by
  intro callback hcallback
  rcases List.mem_cons.mp hcallback with rfl | hstarted
  · trivial
  · rcases List.mem_append.mp hstarted with hbound | hinvoked
    · exact drawnFrom_bindInputs hinputs hview node.id node.inputs callback hbound
    · obtain rfl := List.mem_singleton.mp hinvoked
      trivial

theorem DrawnFrom.finish (h : e.DrawnFrom held) (run : RunId) (scope : Nat) :
    (e.finish run scope).DrawnFrom held := by
  unfold Interpreter.finish
  split
  · exact ⟨h, List.forall_mem_nil _⟩
  · rename_i active hactive
    split
    · exact ⟨h, List.forall_mem_nil _⟩
    · have hinputs : active.inputs.All (Value.DrawnFrom held) := Table.All.get? h hactive
      refine ⟨Table.All.insert h run hinputs, fun callback hcallback ↦ ?_⟩
      obtain ⟨closed, -, rfl⟩ := List.mem_map.mp hcallback
      trivial

theorem DrawnFrom.execute (h : e.DrawnFrom held) (hinputs : inputs.All (Value.DrawnFrom held))
    (hview : view.All (Value.DrawnFrom held)) (handle : Nat) (run : RunId) :
    (e.execute handle run inputs view).DrawnFrom held := by
  unfold Interpreter.execute
  split
  · exact ⟨h, List.forall_mem_nil _⟩
  · rename_i graph hgraph
    have hinserted : ({ e with
        runs := e.runs.insert run { graph, inputs, scopes := .initial } } : Interpreter).DrawnFrom held :=
      Table.All.insert h run hinputs
    dsimp only
    split
    · exact ⟨hinserted, drawnFrom_startNode hinputs hview _ _ _⟩
    · have hover := hinserted.finish run rootScope
      refine ⟨hover.state, fun callback hcallback ↦ ?_⟩
      rcases List.mem_cons.mp hcallback with rfl | hrest
      · trivial
      · exact hover.callbacks callback hrest

theorem DrawnFrom.trigger (h : e.DrawnFrom held) (hview : view.All (Value.DrawnFrom held))
    (run : RunId) (scope : Nat) (node pin : String) :
    (e.trigger run scope node pin view).DrawnFrom held := by
  unfold Interpreter.trigger
  split
  · exact ⟨h, List.forall_mem_nil _⟩
  · rename_i active hactive
    split
    · exact ⟨h, List.forall_mem_nil _⟩
    · split
      · exact ⟨h, List.forall_mem_nil _⟩
      · have hinputs : active.inputs.All (Value.DrawnFrom held) := Table.All.get? h hactive
        refine ⟨Table.All.insert h run hinputs, ?_⟩
        dsimp only
        split
        · exact drawnFrom_startNode hinputs hview _ _ _
        · intro callback hcallback
          rcases List.mem_cons.mp hcallback with rfl | hrest
          · trivial
          · obtain rfl := List.mem_singleton.mp hrest
            trivial

/-- A property of the loaded graphs that holds on when another one is loaded. -/
theorem closed_of_graphs (registry : Registry) {P : Nat → Table Nat Graph → Prop}
    (hload : ∀ last graphs g, P last graphs → P (last + 1) (graphs.insert (last + 1) g)) :
    Closed registry fun e ↦ P e.lastHandle e.graphs := by
  have hfinish (e : Interpreter) (run : RunId) (scope : Nat) (h : P e.lastHandle e.graphs) :
      P (e.finish run scope).state.lastHandle (e.finish run scope).state.graphs := by
    unfold Interpreter.finish
    split
    · exact h
    · split <;> exact h
  constructor
  case load =>
    intro e text h
    rcases load_cases registry text with ⟨error, hrefused⟩ | ⟨doc, graph, -, -, hloaded⟩
    · exact hrefused e ▸ h
    · exact hloaded e ▸ hload _ _ graph h
  case execute =>
    intro e handle run inputs view h
    unfold Interpreter.execute
    split
    · exact h
    · dsimp only
      split
      · exact h
      · exact hfinish _ run rootScope h
  case trigger =>
    intro e run scope node pin view h
    unfold Interpreter.trigger
    split
    · exact h
    · split
      · exact h
      · split <;> exact h
  case finish => exact hfinish
  case endRun => exact fun _ _ h ↦ h

end Interpreter

/-! ### What a fetch brings -/

namespace Loader

variable {l : Loader}

/-- A fetch fails, or comes to what is decoded from some bytes. -/
theorem Aloof.finish_cases {α : Type} (h : l.Aloof) (decoder : Decoder α) (f : Fetch) (world : World) :
    ∃ later, later.interpreter = world.interpreter ∧
      ((∃ error, l.finish decoder f world = (.error error, later)) ∨
        ∃ bytes, l.finish decoder f world = decoder f.descriptor bytes later) := by
  have hland := h.interpreter_land f world
  unfold Loader.finish
  generalize l.land f world = landed at hland
  obtain ⟨error | bytes, later⟩ := landed
  · exact ⟨later, hland, Or.inl ⟨error, rfl⟩⟩
  · exact ⟨later, hland, Or.inr ⟨bytes, rfl⟩⟩

/-- Assets hold no blueprint. -/
theorem Aloof.drawnFrom_finish (h : l.Aloof) (form : AssetForm) (f : Fetch) (world : World)
    {value : Value} (hvalue : (l.finish (Provider.assetDecoder form) f world).1 = .ok value) :
    value.DrawnFrom held := by
  obtain ⟨later, -, ⟨error, hfailed⟩ | ⟨bytes, hdecoded⟩⟩ :=
    h.finish_cases (Provider.assetDecoder form) f world
  · cases hfailed ▸ hvalue
  · rw [hdecoded] at hvalue
    have hvalued {α : Type} (outcome : Except ResolveError α) (make : α → Value)
        (hmake : ∀ a, (make a).DrawnFrom held) (heq : outcome.map make = .ok value) :
        value.DrawnFrom held := by
      cases outcome with
      | error error => cases heq
      | ok a => exact Except.ok.inj heq ▸ hmake a
    cases form with
    | texture => exact hvalued _ Value.texture (fun _ _ hblueprint ↦ by cases hblueprint) hvalue
    | mesh => exact hvalued _ Value.mesh (fun _ _ hblueprint ↦ by cases hblueprint) hvalue
    | json => exact hvalued _ _ Value.drawnFrom_ofJson hvalue

/-- A blueprint is refused, or it is loaded under the next handle. -/
inductive Brings (e : Interpreter) : Except ResolveError GraphInstance → Interpreter → Prop
  | refused (error : ResolveError) : Brings e (.error error) e
  | loaded (g : GraphInstance) (graph : Graph) (hhandle : g.handle = e.lastHandle + 1) :
      Brings e (.ok g)
        { e with
          lastHandle := e.lastHandle + 1
          graphs := e.graphs.insert (e.lastHandle + 1) graph }

theorem Aloof.brings_finish (h : l.Aloof) (p : Provider) (f : Fetch) (world : World) :
    Brings world.interpreter (l.finish p.blueprints f world).1
      (l.finish p.blueprints f world).2.interpreter := by
  obtain ⟨later, hlater, ⟨error, hfailed⟩ | ⟨bytes, hdecoded⟩⟩ := h.finish_cases p.blueprints f world
  · rw [hfailed, ← hlater]
    exact .refused error
  · rw [hdecoded, ← hlater]
    have hgate := Decoder.gate_blueprint p.registry p.supported f.descriptor bytes later
    rw [Provider.blueprints]
    generalize Decoder.blueprint p.registry p.supported f.descriptor bytes later = reply at hgate
    cases hgate with
    | shut error => exact .refused error
    | passed text =>
      obtain ⟨error, hload⟩ | ⟨doc, graph, g, -, -, hhandle, hload⟩ :=
        Decoder.loadDocument_cases p.registry f.descriptor text later
      · exact hload ▸ .refused error
      · exact hload ▸ .loaded g graph hhandle

end Loader

/-! ### What a machine holds -/

/-- All handles that a context holds are of a set. -/
structure Context.DrawnFrom (held : Set Nat) (c : Context) : Prop where
  graph : c.graph.handle ∈ held
  config : c.config.loaded.All (LoadedGraph.DrawnFrom held)
  inputs : ∀ inputs, c.inputs = some inputs → inputs.All (Value.DrawnFrom held)
  outputs : c.outputs.All (Value.DrawnFrom held)
  bindings : c.bindings.All (Value.DrawnFrom held)

theorem Context.DrawnFrom.mono {c : Context} (h : c.DrawnFrom held) (hmore : held ⊆ more) :
    c.DrawnFrom more where
  graph := hmore h.graph
  config := h.config.mono fun _ hloaded ↦ hloaded.mono hmore
  inputs := fun inputs hinputs ↦ (h.inputs inputs hinputs).mono fun _ hvalue ↦ hvalue.mono hmore
  outputs := h.outputs.mono fun _ hvalue ↦ hvalue.mono hmore
  bindings := h.bindings.mono fun _ hvalue ↦ hvalue.mono hmore

/-- What a context books of its scopes and calls holds no graph. -/
theorem Context.DrawnFrom.booked {c : Context} (h : c.DrawnFrom held) (tracker : Tracker)
    (queue : SyncQueue) (failedBranches : Nat) :
    ({ c with tracker, queue, failedBranches } : Context).DrawnFrom held :=
  ⟨h.graph, h.config, h.inputs, h.outputs, h.bindings⟩

/-- What the activity goes on with hands on handles of a set only, or such as it is given. -/
def Progress.DrawnFrom (held : Set Nat) : Progress → Prop
  | .going rest | .sleeping _ rest | .joining _ rest => rest.DrawnFrom held
  | .fetchingAsset _ _ _ _ next => ∀ more, held ⊆ more → ∀ outcome : Except ResolveError Value,
    (∀ value, outcome = .ok value → value.DrawnFrom more) → (next outcome).DrawnFrom more
  | .fetchingGraph _ _ _ next => ∀ more, held ⊆ more → ∀ outcome : Except ResolveError LoadedGraph,
    (∀ loaded, outcome = .ok loaded → loaded.DrawnFrom more) → (next outcome).DrawnFrom more
  | .nesting _ next => ∀ more, held ⊆ more → ∀ result : RunResult,
    result.outputs.All (Value.DrawnFrom more) → (next result).DrawnFrom more
  | .stalled => True

theorem Progress.DrawnFrom.mono {progress : Progress} (h : progress.DrawnFrom held)
    (hmore : held ⊆ more) : progress.DrawnFrom more := by
  cases progress with
  | going rest | sleeping _ rest | joining _ rest => exact Behaviour.DrawnFrom.mono h hmore
  | fetchingAsset => exact fun larger hlarger ↦ h larger (hmore.trans hlarger)
  | fetchingGraph => exact fun larger hlarger ↦ h larger (hmore.trans hlarger)
  | nesting => exact fun larger hlarger ↦ h larger (hmore.trans hlarger)
  | stalled => trivial

namespace Machine

/-- The last handle that was given out. -/
def lastHandle (m : Machine) : Nat := m.world.interpreter.lastHandle

/-- All handles that the runs of the machine hold, or that their nodes hand on, are of a set. -/
structure DrawnFrom (held : Set Nat) (m : Machine) : Prop where
  contexts : m.contexts.All (Context.DrawnFrom held)
  runs : m.world.interpreter.DrawnFrom held
  tasks : ∀ entry ∈ m.tasks, entry.2.progress.DrawnFrom held
  frames : ∀ a home, .node a home ∈ m.frames → a.progress.DrawnFrom held

variable {m : Machine} {run : RunId} {inputs : Inputs} {callback : Callback}

theorem DrawnFrom.mono (h : m.DrawnFrom held) (hmore : held ⊆ more) : m.DrawnFrom more where
  contexts := h.contexts.mono fun _ hc ↦ hc.mono hmore
  runs := Table.All.mono h.runs fun _ hinputs ↦ hinputs.mono fun _ hvalue ↦ hvalue.mono hmore
  tasks := fun entry hentry ↦ (h.tasks entry hentry).mono hmore
  frames := fun a home hmem ↦ (h.frames a home hmem).mono hmore

/-- A machine that nothing was done with holds nothing. -/
theorem Blank.drawnFrom (h : m.Blank) : m.DrawnFrom held where
  contexts := Table.all_of_empty h.context
  runs := Table.all_of_empty h.active
  tasks := h.tasks ▸ List.forall_mem_nil _
  frames := fun _ _ hmem ↦ absurd (h.frames ▸ hmem) List.not_mem_nil

theorem DrawnFrom.context (h : m.DrawnFrom held) {c : Context} (hcontext : m.context? run = some c) :
    c.DrawnFrom held := h.contexts.get? hcontext

theorem DrawnFrom.bindings (h : m.DrawnFrom held) (run : RunId) :
    (m.bindings run).All (Value.DrawnFrom held) := by
  unfold Machine.bindings
  cases hcontext : m.context? run with
  | none => exact Table.all_empty
  | some c => exact (h.context hcontext).bindings

theorem DrawnFrom.modifyContext (h : m.DrawnFrom held) (run : RunId) {change : Context → Context}
    (hchange : ∀ c, c.DrawnFrom held → (change c).DrawnFrom held) :
    (m.modifyContext run change).DrawnFrom held :=
  ⟨h.contexts.modify run hchange, h.runs, h.tasks, h.frames⟩

theorem DrawnFrom.withInterpreter (h : m.DrawnFrom held) {e : Interpreter} (he : e.DrawnFrom held) :
    (m.withInterpreter e).DrawnFrom held := ⟨h.contexts, he, h.tasks, h.frames⟩

theorem DrawnFrom.endRun (h : m.DrawnFrom held) (run : RunId) : (m.endRun run).DrawnFrom held :=
  h.withInterpreter (Table.All.erase h.runs run)

theorem DrawnFrom.note (h : m.DrawnFrom held) (run : RunId) (hcallback : callback.DrawnFrom held) :
    (m.note run callback).DrawnFrom held := by
  have htracked (tracker : Context → Tracker) :
      (m.modifyContext run fun c ↦ { c with tracker := tracker c }).DrawnFrom held :=
    h.modifyContext run fun c hc ↦ hc.booked _ _ _
  cases callback with
  | dispatched scope => exact htracked _
  | invoke call => exact h
  | bind node pin value =>
    exact h.modifyContext run fun c hc ↦ { hc with bindings := hc.bindings.insert _ hcallback }
  | completed scope =>
    simp only [Machine.note, completed]
    split
    · exact h
    · rename_i c _
      have hcompleted := htracked fun _ ↦ (c.tracker.complete scope).tracker
      split
      · exact ⟨hcompleted.contexts, hcompleted.runs, hcompleted.tasks, hcompleted.frames⟩
      · exact hcompleted

theorem DrawnFrom.notes (h : m.DrawnFrom held) (run : RunId) {callbacks : List Callback}
    (hcallbacks : ∀ callback ∈ callbacks, callback.DrawnFrom held) :
    (callbacks.foldl (fun m callback ↦ m.note run callback) m).DrawnFrom held := by
  induction callbacks generalizing m with
  | nil => exact h
  | cons callback rest ih =>
    exact ih (h.note run (hcallbacks callback List.mem_cons_self)) fun other hother ↦
      hcallbacks other (List.mem_cons_of_mem _ hother)

theorem DrawnFrom.conclude (h : m.DrawnFrom held) (run : RunId) (call : NodeCall) (ending : Ending) :
    (m.conclude run call ending).DrawnFrom held := by
  have hfinish (m : Machine) (h : m.DrawnFrom held) :
      (m.finishScope run call.scope).2.DrawnFrom held := by
    have hreply := h.runs.finish run call.scope
    have hnoted := (h.withInterpreter hreply.state).notes run hreply.callbacks
    unfold finishScope
    dsimp only
    split <;> exact hnoted
  have hcounted : (if ending.isDone then m
      else m.modifyContext run fun c ↦
        { c with failedBranches := c.failedBranches + 1 }).DrawnFrom held := by
    split_ifs
    · exact h
    · exact h.modifyContext run fun c hc ↦ hc.booked _ _ _
  have hfinished := hfinish _ hcounted
  exact ⟨hfinished.contexts, hfinished.runs, hfinished.tasks, hfinished.frames⟩

theorem DrawnFrom.addTask (h : m.DrawnFrom held) {a : Activity} (ha : a.progress.DrawnFrom held)
    (task : Nat) : ({ m with tasks := m.tasks ++ [(task, a)] } : Machine).DrawnFrom held := by
  refine ⟨h.contexts, h.runs, fun entry hentry ↦ ?_, h.frames⟩
  rcases List.mem_append.mp hentry with hold | hnew
  · exact h.tasks entry hold
  · obtain rfl := List.mem_singleton.mp hnew
    exact ha

theorem DrawnFrom.spawn (h : m.DrawnFrom held) {a : Activity} (ha : a.progress.DrawnFrom held) :
    (m.spawn a).DrawnFrom held := by
  unfold Machine.spawn
  split
  · exact h
  · split_ifs
    · obtain ⟨hcontexts, hruns, htasks, hframes⟩ := h.addTask ha m.nextTask
      exact ⟨hcontexts, hruns, htasks, hframes⟩
    · exact h

theorem DrawnFrom.push (h : m.DrawnFrom held) {frame : Frame}
    (hframe : ∀ a home, frame = .node a home → a.progress.DrawnFrom held) :
    ({ m with frames := frame :: m.frames } : Machine).DrawnFrom held := by
  refine ⟨h.contexts, h.runs, h.tasks, fun a home hmem ↦ ?_⟩
  rcases List.mem_cons.mp hmem with heq | hold
  · exact hframe a home heq.symm
  · exact h.frames a home hold

theorem DrawnFrom.receive (h : m.DrawnFrom held) (hhonest : m.provider.registry.Honest) (run : RunId)
    (hcallback : callback.DrawnFrom held) : (m.receive run callback).DrawnFrom held := by
  cases callback with
  | dispatched scope => exact h.note run (show Callback.DrawnFrom held (.dispatched scope) from trivial)
  | completed scope => exact h.note run (show Callback.DrawnFrom held (.completed scope) from trivial)
  | bind node pin value =>
    exact h.note run (show Callback.DrawnFrom held (.bind node pin value) from hcallback)
  | invoke call =>
    rw [Machine.receive, invoke]
    split
    · exact h
    · rename_i c hcontext
      split
      · exact h.conclude run call _
      · rename_i kind hkind
        split
        · exact h.spawn (hhonest held _ kind hkind call)
        · have hqueued : (m.modifyContext run fun c' ↦
              { c' with queue := (c.queue.push call).2 }).DrawnFrom held :=
            h.modifyContext run fun c hc ↦ hc.booked _ _ _
          dsimp only
          split_ifs
          · exact hqueued.push fun _ _ heq ↦ by cases heq
          · exact hqueued

theorem DrawnFrom.accept {α : Type} {reply : Interpreter.Reply α} (h : m.DrawnFrom held)
    (hhonest : m.provider.registry.Honest) (hreply : reply.DrawnFrom held) (run : RunId) :
    (m.accept run reply).DrawnFrom held := by
  have hall (callbacks : List Callback) (m : Machine) (h : m.DrawnFrom held)
      (hhonest : m.provider.registry.Honest)
      (hcallbacks : ∀ callback ∈ callbacks, callback.DrawnFrom held) :
      (callbacks.foldl (fun m callback ↦ m.receive run callback) m).DrawnFrom held := by
    induction callbacks generalizing m with
    | nil => exact h
    | cons callback rest ih =>
      refine ih _ (h.receive hhonest run (hcallbacks callback List.mem_cons_self)) ?_ fun other hother ↦
        hcallbacks other (List.mem_cons_of_mem _ hother)
      rw [(concerns_receive m run callback).provider_eq]
      exact hhonest
  exact hall reply.callbacks _ (h.withInterpreter hreply.state) hhonest hreply.callbacks

theorem DrawnFrom.start (h : m.DrawnFrom held) (hhonest : m.provider.registry.Honest) (run : RunId)
    (hinputs : inputs.All (Value.DrawnFrom held)) : (m.start run inputs).2.DrawnFrom held := by
  unfold Machine.start
  split
  · exact h
  · rename_i c hcontext
    have hc : c.DrawnFrom held := h.context hcontext
    have hkept : (c.inputs.getD inputs).All (Value.DrawnFrom held) := by
      cases hgiven : c.inputs with
      | none => exact hinputs
      | some given => exact hc.inputs given hgiven
    have hnoted : (m.modifyContext run fun c' ↦
        { c' with inputs := some (c.inputs.getD inputs) }).DrawnFrom held :=
      h.modifyContext run fun c' hc' ↦
        ⟨hc'.graph, hc'.config, fun _ heq ↦ Option.some.inj heq ▸ hkept, hc'.outputs, hc'.bindings⟩
    have hcounted : ({ m.modifyContext run fun c' ↦
        { c' with inputs := some (c.inputs.getD inputs) } with
          executions := m.executions + 1 } : Machine).DrawnFrom held :=
      ⟨hnoted.contexts, hnoted.runs, hnoted.tasks, hnoted.frames⟩
    exact hcounted.accept hhonest (h.runs.execute hkept hc.bindings c.graph.handle run) run

theorem DrawnFrom.open_ (h : m.DrawnFrom held) {graph : GraphInstance} {config : RunConfig}
    (hgraph : graph.handle ∈ held) (hconfig : config.loaded.All (LoadedGraph.DrawnFrom held))
    (hasTasks : Bool) : (m.open_ graph config hasTasks).2.DrawnFrom held := by
  refine ⟨h.contexts.insert _ ⟨hgraph, hconfig, ?_, ?_, ?_⟩, h.runs, h.tasks, h.frames⟩
  · exact fun _ hnone ↦ absurd hnone (Option.some_ne_none _).symm
  · exact Table.all_empty
  · exact Table.all_empty

theorem DrawnFrom.enter (h : m.DrawnFrom held) (a : Activity) (home : Option Nat) (progress : Progress)
    (hprogress : progress.DrawnFrom held) : (m.enter a home progress).DrawnFrom held :=
  h.push fun _ _ heq ↦ by
    obtain ⟨rfl, -⟩ := Frame.node.inj heq
    exact hprogress

theorem DrawnFrom.suspend (h : m.DrawnFrom held) (a : Activity) (home : Option Nat)
    (ha : a.progress.DrawnFrom held) : (m.suspend a home).DrawnFrom held := by
  cases home with
  | none => exact h.spawn ha
  | some task => exact h.addTask ha task

theorem DrawnFrom.takeTickets (h : m.DrawnFrom held) (run : RunId) (scopes : List Nat) :
    (takeTickets run scopes m).2.DrawnFrom held := by
  induction scopes generalizing m with
  | nil => exact h
  | cons scope rest ih =>
    rw [Machine.takeTickets]
    split
    · exact h
    · rename_i c hcontext
      have htracked : (m.modifyContext run fun c' ↦
          { c' with tracker := (c.tracker.wait scope m.nextTicket).1 }).DrawnFrom held :=
        h.modifyContext run fun c hc ↦ hc.booked _ _ _
      exact ih ⟨htracked.contexts, htracked.runs, htracked.tasks, htracked.frames⟩

theorem DrawnFrom.changed (h : m.DrawnFrom held) {world : World}
    (hruns : world.interpreter.runs = m.world.interpreter.runs) :
    ({ m with world } : Machine).DrawnFrom held := by
  have hkept : world.interpreter.DrawnFrom held := by
    rw [Interpreter.DrawnFrom, hruns]
    exact h.runs
  exact ⟨h.contexts, hkept, h.tasks, h.frames⟩

theorem DrawnFrom.beginFetch (h : m.DrawnFrom held) (haloof : m.Aloof) (id : String) :
    (m.beginFetch id).2.DrawnFrom held := by
  obtain ⟨world, hloads, ⟨error, hbegin⟩ | ⟨due, loader, fetch, hbegin, -⟩⟩ :=
    beginFetch_cases haloof id
  all_goals
    rw [hbegin]
    exact h.changed hloads.1

/-! ### Moves -/

theorem drawnFrom_conclusion (h : m.DrawnFrom held) (run : RunId) :
    (m.conclusion run).1.outputs.All (Value.DrawnFrom held) := by
  unfold conclusion
  dsimp only
  split
  · rename_i c hcontext
    have hc : c.DrawnFrom held := h.context hcontext
    refine Table.all_ofList fun entry hentry ↦ ?_
    obtain ⟨decl, -, hfound⟩ := List.mem_filterMap.mp hentry
    obtain ⟨value, hvalue, rfl⟩ := Option.map_eq_some_iff.mp hfound
    exact hc.outputs.get? hvalue
  · exact Table.all_empty

/-- Assumes: handles of the set that are given out, if any are. -/
theorem DrawnFrom.resume (h : m.DrawnFrom held) (haloof : m.Aloof) {progress : Progress}
    (hfits : progress.Fits m.provider run) (hprogress : progress.DrawnFrom held)
    (hnew : ∀ handle, m.lastHandle < handle → handle ≤ (m.resume progress).2.lastHandle →
      handle ∈ held) :
    (m.resume progress).1.DrawnFrom held ∧ (m.resume progress).2.DrawnFrom held := by
  cases progress with
  | going | sleeping | joining => exact ⟨hprogress, h⟩
  | stalled => exact ⟨trivial, h⟩
  | nesting child next =>
    refine ⟨hprogress held subset_rfl _ (drawnFrom_conclusion h child), ?_⟩
    exact h.endRun child
  | fetchingAsset due loader fetch form next =>
    have hloader : loader.Aloof := haloof.loader hfits
    exact ⟨hprogress held subset_rfl _ fun value ↦ hloader.drawnFrom_finish form fetch m.world,
      h.changed (hloader.finish_asset form fetch m.world).1⟩
  | fetchingGraph due loader fetch next =>
    have hloader : loader.Aloof := haloof.loader hfits
    refine ⟨hprogress held subset_rfl _ fun loaded hloaded ↦ ?_,
      h.changed (hloader.finish_graph m.provider fetch m.world).1⟩
    have hbrings := hloader.brings_finish m.provider fetch m.world
    simp only [Machine.resume, lastHandle] at hnew
    change (loader.finish m.provider.blueprints fetch m.world).1.map _ = _ at hloaded
    generalize loader.finish m.provider.blueprints fetch m.world = reply at hbrings hnew hloaded
    obtain ⟨outcome, later⟩ := reply
    dsimp only at hbrings hnew hloaded
    generalize later.interpreter = e at hbrings hnew
    cases hbrings with
    | refused error => cases hloaded
    | loaded g graph hhandle =>
      obtain rfl := Except.ok.inj hloaded
      refine ⟨hnew g.handle ?_ ?_, Table.all_empty⟩
      · exact hhandle ▸ Nat.lt_succ_self _
      · exact Nat.le_of_eq hhandle

theorem DrawnFrom.serve (h : m.DrawnFrom held) (hhonest : m.provider.registry.Honest)
    (haloof : m.Aloof) (a : Activity) (home : Option Nat) {request : Behaviour}
    (hrequest : request.DrawnFrom held) : (m.serve a home request).DrawnFrom held := by
  cases request with
  | succeed | fail | panic => exact h.conclude a.run a.call _
  | read node pin next =>
    refine h.enter a home (.going _) (hrequest held subset_rfl _ fun value hvalue ↦ ?_)
    obtain ⟨c, hcontext, hread⟩ := Option.bind_eq_some_iff.mp hvalue
    exact (h.context hcontext).bindings.get? hread
  | write pin value next =>
    have hwritten : (m.modifyContext a.run (·.bind a.call.node pin value)).DrawnFrom held :=
      h.modifyContext a.run fun c hc ↦
        { hc with bindings := hc.bindings.insert (a.call.node, pin) hrequest.1 }
    exact hwritten.enter a home (.going next) hrequest.2
  | publish name value next =>
    have hpublished : (m.modifyContext a.run (·.publish name value)).DrawnFrom held :=
      h.modifyContext a.run fun c hc ↦ { hc with outputs := hc.outputs.insert name hrequest.1 }
    exact hpublished.enter a home (.going next) hrequest.2
  | log level message next =>
    have hlogged : (m.record (.logged a.run a.call.node level message)).DrawnFrom held :=
      ⟨h.contexts, h.runs, h.tasks, h.frames⟩
    exact hlogged.enter a home (.going next) hrequest
  | trigger pin next =>
    have hreply := h.runs.trigger (h.bindings a.run) a.run a.call.scope a.call.node pin
    exact (h.enter a home (.going _) (hrequest _)).accept hhonest hreply a.run
  | join scopes next => exact (h.takeTickets a.run scopes).enter a home (.joining _ next) hrequest
  | load form id next =>
    have hfetch := h.beginFetch haloof id
    rw [Machine.serve]
    split
    all_goals
      rename_i hbegin
      rw [hbegin] at hfetch
    · exact hfetch.enter a home (.going _) (hrequest held subset_rfl _ fun _ heq ↦ by cases heq)
    · exact hfetch.enter a home (.fetchingAsset _ _ _ form next) hrequest
  | find id next =>
    have hfetch := h.beginFetch haloof id
    rw [Machine.serve]
    split
    · rename_i loaded hfound
      obtain ⟨c, hcontext, hloaded⟩ := Option.bind_eq_some_iff.mp hfound
      refine h.enter a home (.going _) (hrequest held subset_rfl _ fun other heq ↦ ?_)
      exact Except.ok.inj heq ▸ (h.context hcontext).config.get? hloaded
    · split
      all_goals
        rename_i hbegin
        rw [hbegin] at hfetch
      · exact hfetch.enter a home (.going _) (hrequest held subset_rfl _ fun _ heq ↦ by cases heq)
      · exact hfetch.enter a home (.fetchingGraph _ _ _ next) hrequest
  | sleep milliseconds next => exact h.enter a home (.sleeping _ next) hrequest
  | yield next => exact h.suspend { a with progress := .going next } home hrequest
  | stall => exact h.suspend { a with progress := .stalled } home trivial
  | nest graph inputs next =>
    obtain ⟨hgraph, hinputs, hnext⟩ := hrequest
    have hconfig : (((m.context? a.run).map fun c : Context ↦ c.config).getD {}).loaded.All
        (LoadedGraph.DrawnFrom held) := by
      cases hcontext : m.context? a.run with
      | none =>
        intro entry hentry
        cases hentry
      | some c => exact (h.context hcontext).config
    rw [Machine.serve]
    dsimp only
    generalize ((m.context? a.run).map (·.config)).getD {} = config at hconfig
    have hstarted := ((h.open_ hgraph hconfig true).enter a home
      (.nesting (m.open_ graph config true).1 next) hnext).start hhonest (m.open_ graph config true).1
        hinputs
    split
    all_goals
      rename_i hstart
      rw [hstart] at hstarted
    · exact hstarted
    · -- A run that does not start is ended at once, and the node goes on from where it was.
      have hended := hstarted.endRun (m.open_ graph config true).1
      have hbelow {later : Machine} (hlater : later.DrawnFrom held) :
          ({ later with frames := m.frames } : Machine).DrawnFrom held :=
        ⟨hlater.contexts, hlater.runs, hlater.tasks, h.frames⟩
      exact (hbelow hended).enter a home (.going _) (hnext held subset_rfl _ Table.all_empty)

theorem DrawnFrom.pop (h : m.DrawnFrom held) {frame : Frame} {rest : List Frame}
    (hframes : m.frames = frame :: rest) : ({ m with frames := rest } : Machine).DrawnFrom held :=
  ⟨h.contexts, h.runs, h.tasks, fun a home hmem ↦
    h.frames a home (hframes ▸ List.mem_cons_of_mem _ hmem)⟩

theorem lastHandle_le_serve (haloof : m.Aloof) (a : Activity) (home : Option Nat)
    (request : Behaviour) : m.lastHandle ≤ (m.serve a home request).lastHandle :=
  holds_serve (Interpreter.closed_of_graphs m.provider.registry
    (P := fun last _ ↦ m.lastHandle ≤ last) fun _ _ _ ↦ Nat.le_succ_of_le) haloof (Nat.le_refl _) a
    home request

theorem Housed.drawnFrom_advance (hhoused : m.Housed) (hhonest : m.provider.registry.Honest)
    (h : m.DrawnFrom held)
    (hnew : ∀ handle, m.lastHandle < handle → handle ≤ m.advance.lastHandle → handle ∈ held) :
    m.advance.DrawnFrom held := by
  cases hframes : m.frames with
  | nil =>
    rw [advance, hframes]
    exact h
  | cons frame rest =>
    have hpopped := h.pop hframes
    cases frame with
    | drain run =>
      rw [advance, hframes]
      dsimp only
      split
      · exact hpopped
      · rename_i c hcontext
        have hqueue : (m.modifyContext run fun c' ↦ { c' with queue := c.queue.pop.2 }).DrawnFrom held :=
          h.modifyContext run fun c hc ↦ hc.booked _ _ _
        split
        · exact hqueue.pop hframes
        · split
          · exact hqueue.conclude run _ _
          · rename_i kind hkind
            exact hqueue.enter _ none (.going _) (hhonest held _ kind hkind _)
    | node a home =>
      have ha : a.progress.DrawnFrom held :=
        h.frames a home (hframes ▸ List.mem_cons_self)
      by_cases hcan : m.canGoOn a = true
      · obtain ⟨c, hcontext⟩ := hhoused.context_of_frame hframes
        have hrests := hhoused.rests hframes hcan hcontext
        rw [advance_served hframes hcan] at hnew ⊢
        -- Serving takes no handle back, so one that the node resumes with is still given out later.
        have hserved := lastHandle_le_serve hrests.aloof a home
          (({ m with frames := rest } : Machine).resume a.progress).1
        have hresumed := hpopped.resume hhoused.aloof (hhoused.fits_of_frame hframes) ha
          fun handle hlow hhigh ↦ hnew handle hlow (Nat.le_trans hhigh hserved)
        refine hresumed.2.serve ?_ hrests.aloof a home hresumed.1
        rw [hrests.later.provider_eq]
        exact hhonest
      · rw [advance_shelved hframes (Bool.not_eq_true _ ▸ hcan)]
        exact hpopped.suspend a home ha

/-- Assumes: a set with the handles that the machine holds already, and those that the move gives out.
The machine holds no others after the move. -/
theorem Housed.drawnFrom_step (hhoused : m.Housed) (hhonest : m.provider.registry.Honest)
    (h : m.DrawnFrom held) (move : Move)
    (hnew : ∀ handle, m.lastHandle < handle → handle ≤ (m.step move).lastHandle → handle ∈ held) :
    (m.step move).DrawnFrom held := by
  cases move with
  | advance => exact hhoused.drawnFrom_advance hhonest h hnew
  | tick moment => exact ⟨h.contexts, h.runs, h.tasks, h.frames⟩
  | poll task =>
    by_cases hready : ∃ a tasks, m.frames = [] ∧ takeTask task m.tasks = some (a, tasks) ∧
      m.canGoOn a = true
    · obtain ⟨a, tasks, hframes, hfound, hcan⟩ := hready
      rw [step, poll_eq hframes hfound hcan]
      obtain ⟨before, after, htasks, rfl⟩ := takeTask_eq_some hfound
      have htask {entry : Nat × Activity} (hentry : entry ∈ before ++ (task, a) :: after) :
          entry.2.progress.DrawnFrom held := h.tasks entry (htasks ▸ hentry)
      refine ⟨h.contexts, h.runs, fun entry hentry ↦ htask ?_, fun other home hmem ↦ ?_⟩
      · exact (List.Sublist.append_left (List.sublist_cons_self _ _) before).mem hentry
      · obtain ⟨rfl, -⟩ := Frame.node.inj (List.mem_singleton.mp hmem)
        exact htask (List.mem_append_right _ List.mem_cons_self)
    · rw [step, poll_of_not_ready hready]
      exact h

/-! ### Released graphs -/

theorem mem_of_asBlueprint {κ : Type} {t : Table κ Value} (h : t.All (Value.DrawnFrom held))
    {handle : Nat}
    (hmem : handle ∈ t.entries.filterMap fun entry ↦ entry.2.asBlueprint?.map (·.handle)) :
    handle ∈ held := by
  obtain ⟨entry, hentry, hfound⟩ := List.mem_filterMap.mp hmem
  obtain ⟨g, hg, rfl⟩ := Option.map_eq_some_iff.mp hfound
  exact h entry hentry g hg

theorem mem_of_contextHandles {c : Context} (h : c.DrawnFrom held) {handle : Nat}
    (hmem : handle ∈ contextHandles c) : handle ∈ held := by
  rw [contextHandles, List.mem_append, List.mem_append, List.mem_append, List.mem_cons] at hmem
  rcases hmem with (((rfl | hconfig) | hinputs) | houtputs) | hbindings
  · exact h.graph
  · obtain ⟨entry, hentry, hloaded⟩ := List.mem_flatMap.mp hconfig
    have hdrawn : entry.2.DrawnFrom held := h.config entry hentry
    rcases List.mem_cons.mp hloaded with rfl | hgiven
    · exact hdrawn.graph
    · exact mem_of_asBlueprint hdrawn.inputs hgiven
  · cases hgiven : c.inputs with
    | none =>
      rw [hgiven] at hinputs
      cases hinputs
    | some given =>
      rw [hgiven] at hinputs
      exact mem_of_asBlueprint (h.inputs given hgiven) hinputs
  · exact mem_of_asBlueprint h.outputs houtputs
  · exact mem_of_asBlueprint h.bindings hbindings

theorem get?_foldl_release (keeps : Nat → Bool) (handles : List Nat) (e : Interpreter) (handle : Nat)
    (hkeeps : keeps handle = false) :
    (handles.foldl (fun (e : Interpreter) handle ↦
      if keeps handle then e else e.release handle) e).graphs.get? handle =
      if handle ∈ handles then none else e.graphs.get? handle := by
  induction handles generalizing e with
  | nil => rfl
  | cons other rest ih =>
    rw [List.foldl_cons, ih]
    by_cases hother : other = handle
    · subst hother
      simp [hkeeps, Interpreter.release]
    · split_ifs <;> simp_all [Interpreter.release, Ne.symm hother]

/-- A graph that no context holds is released when contexts are dropped. -/
theorem released_of_contexts (h : m.contexts.All (Context.DrawnFrom held)) {handle : Nat}
    (hfree : handle ∉ held) : m.collect.world.interpreter.graphs.get? handle = none := by
  have hunheld : ((m.contexts.entries.filter fun entry ↦ m.isHeld entry.1).flatMap
      fun entry ↦ contextHandles entry.2).contains handle = false := by
    rw [Bool.eq_false_iff, ne_eq, List.contains_iff_mem]
    intro hmem
    obtain ⟨entry, hentry, hhandle⟩ := List.mem_flatMap.mp hmem
    exact hfree (mem_of_contextHandles (h entry (List.mem_filter.mp hentry).1) hhandle)
  have hreleased := get?_foldl_release (fun handle ↦ List.contains
    ((m.contexts.entries.filter fun entry ↦ m.isHeld entry.1).flatMap
      fun entry ↦ contextHandles entry.2) handle) m.world.interpreter.graphs.keys m.world.interpreter
        handle hunheld
  refine hreleased.trans ?_
  split_ifs with hkey
  · rfl
  · exact Table.get?_eq_none_iff.mpr hkey

/-! ### Graphs that are kept from all runs -/

/-- Graphs under handles that were given out, and that no run holds. -/
structure Reserved (graphs : List GraphInstance) (m : Machine) : Prop where
  given : ∀ g ∈ graphs, g.handle ≤ m.lastHandle
  apart : m.DrawnFrom { handle | handle ≤ m.lastHandle ∧ ∀ g ∈ graphs, g.handle ≠ handle }

variable {graphs : List GraphInstance}

theorem Housed.lastHandle_le_step (hhoused : m.Housed) (move : Move) :
    m.lastHandle ≤ (m.step move).lastHandle :=
  hhoused.holds_step (Interpreter.closed_of_graphs _ (P := fun last _ ↦ m.lastHandle ≤ last)
    fun _ _ _ ↦ Nat.le_succ_of_le) (Nat.le_refl _) move

theorem lastHandle_beginFetch (haloof : m.Aloof) (id : String) :
    (m.beginFetch id).2.lastHandle = m.lastHandle :=
  holds_beginFetch (P := fun e ↦ e.lastHandle = m.lastHandle) haloof rfl id

theorem Reserved.step (h : m.Reserved graphs) (hhoused : m.Housed)
    (hhonest : m.provider.registry.Honest) (move : Move) : (m.step move).Reserved graphs := by
  have hle := hhoused.lastHandle_le_step move
  refine ⟨fun g hg ↦ (h.given g hg).trans hle, ?_⟩
  refine hhoused.drawnFrom_step hhonest (h.apart.mono fun handle hhandle ↦ ?_) move
    fun handle hlow hhigh ↦ ?_
  · exact ⟨hhandle.1.trans hle, hhandle.2⟩
  · exact ⟨hhigh, fun g hg ↦ Nat.ne_of_lt (Nat.lt_of_le_of_lt (h.given g hg) hlow)⟩

/-- A fetch begins. -/
theorem Reserved.beginFetch (h : m.Reserved graphs) (haloof : m.Aloof) (id : String) :
    (m.beginFetch id).2.Reserved graphs := by
  constructor
  · rw [lastHandle_beginFetch haloof]
    exact h.given
  · rw [lastHandle_beginFetch haloof]
    exact h.apart.beginFetch haloof id

/-- A fetch ends. The graph that it brings is kept from the runs as well. -/
theorem Reserved.landed (h : m.Reserved graphs) {world : World}
    {outcome : Except ResolveError GraphInstance}
    (hbrings : Loader.Brings m.world.interpreter outcome world.interpreter) :
    ({ m with world } : Machine).Reserved (graphs ++ outcome.toOption.toList) := by
  generalize hinterpreter : world.interpreter = e at hbrings
  have hlast : ({ m with world } : Machine).lastHandle = e.lastHandle :=
    congrArg Interpreter.lastHandle hinterpreter
  cases hbrings with
  | refused error =>
    rw [show (Except.error error : Except ResolveError GraphInstance).toOption.toList = [] from rfl,
      List.append_nil]
    exact ⟨hlast ▸ h.given, hlast ▸ h.apart.changed (congrArg Interpreter.runs hinterpreter)⟩
  | loaded g graph hhandle =>
    have hfresh {handle : Nat} (hle : handle ≤ m.lastHandle) : handle < g.handle :=
      hhandle ▸ Nat.lt_succ_of_le hle
    have hhigh : g.handle = ({ m with world } : Machine).lastHandle := hhandle.trans hlast.symm
    have hruns : world.interpreter.runs = m.world.interpreter.runs := by rw [hinterpreter]
    constructor
    case given =>
      intro other hother
      rw [← hhigh]
      rcases List.mem_append.mp hother with hold | hnew
      · exact (hfresh (h.given other hold)).le
      · exact (List.mem_singleton.mp hnew ▸ Nat.le_refl _)
    case apart =>
      rw [← hhigh]
      refine (h.apart.changed hruns).mono fun handle hhandle ↦ ?_
      refine ⟨(hfresh hhandle.1).le, fun other hother ↦ ?_⟩
      rcases List.mem_append.mp hother with hold | hnew
      · exact hhandle.2 other hold
      · exact List.mem_singleton.mp hnew ▸ (hfresh hhandle.1).ne'

theorem Reserved.released (h : m.Reserved graphs) {g : GraphInstance} (hg : g ∈ graphs) :
    m.collect.world.interpreter.graphs.get? g.handle = none :=
  released_of_contexts h.apart.contexts fun hhandle ↦ hhandle.2 g hg rfl

end Machine

end Blueprint

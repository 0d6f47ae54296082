import Blueprint.Proofs.Graph.WellFormed
import Blueprint.Proofs.Interpreter.Starting
import Blueprint.Proofs.Run.Reach

/-!
What the machine makes of its interpreter. It executes graphs, triggers pins, finishes scopes and ends
runs, and the blueprints that it fetches are loaded with the registry of its provider. A property of
interpreters that these calls keep (`Interpreter.Closed`) is kept by every move of the machine
(`Machine.Housed.holds_step`).

One such property is that all graphs come from one registry, those that are loaded and those of the
runs under way (`Interpreter.LoadedWith`). The nodes that are asked for in a run of such a graph are of
known kinds, which have accepted their params (`Machine.vouches_of_started`,
`Interpreter.vouches_of_trigger`).
-/

set_option autoImplicit false

namespace Blueprint

/-- A property that the calls of a machine keep which loads with a registry. -/
structure Interpreter.Closed (registry : Registry) (P : Interpreter → Prop) : Prop where
  load : ∀ e text, P e → P (e.load registry text).2
  execute : ∀ e handle run inputs view, P e → P (e.execute handle run inputs view).state
  trigger : ∀ e run scope node pin view, P e → P (e.trigger run scope node pin view).state
  finish : ∀ e run scope, P e → P (e.finish run scope).state
  endRun : ∀ e run, P e → P (e.endRun run)

/-- A blueprint is loaded, or refused before that. -/
theorem Decoder.holds_blueprint {P : Interpreter → Prop} {registry : Registry}
    (hload : ∀ e text, P e → P (e.load registry text).2) (supported : VersionRange) (d : Descriptor)
    (bytes : Bytes) {world : World} (h : P world.interpreter) :
    P (Decoder.blueprint registry supported d bytes world).2.interpreter := by
  unfold Decoder.blueprint
  split
  · exact h
  · split
    · exact h
    · unfold Decoder.loadDocument
      dsimp only
      split <;> exact hload _ _ h

namespace Machine

/-- The interpreter of the machine has a property. -/
def Holds (P : Interpreter → Prop) (m : Machine) : Prop := P m.world.interpreter

variable {P : Interpreter → Prop} {registry : Registry} {m m' : Machine} {run : RunId}
  {call : NodeCall}

theorem Holds.of_world (h : m.Holds P) (hworld : m'.world = m.world) : m'.Holds P := by
  rw [Holds, hworld]
  exact h

theorem world_note (m : Machine) (run : RunId) (callback : Callback) :
    (m.note run callback).world = m.world := by
  cases callback with
  | dispatched scope | bind node pin value | invoke call => rfl
  | completed scope =>
    simp only [note, completed]
    split
    · rfl
    · split <;> rfl

theorem world_notes (m : Machine) (run : RunId) (callbacks : List Callback) :
    (callbacks.foldl (fun m callback ↦ m.note run callback) m).world = m.world := by
  induction callbacks generalizing m with
  | nil => rfl
  | cons callback rest ih => exact (ih _).trans (world_note m run callback)

/-! ### Calls of the interpreter -/

theorem holds_finishScope (hfinish : ∀ e run scope, P e → P (e.finish run scope).state)
    (h : m.Holds P) (run : RunId) (scope : Nat) : (m.finishScope run scope).2.Holds P := by
  have hworld := world_notes (m.withInterpreter (m.world.interpreter.finish run scope).state) run
    (m.world.interpreter.finish run scope).callbacks
  have hfinished : (m.withInterpreter (m.world.interpreter.finish run scope).state).Holds P :=
    hfinish _ run scope h
  unfold finishScope
  dsimp only
  split <;> exact hfinished.of_world hworld

theorem holds_conclude (hfinish : ∀ e run scope, P e → P (e.finish run scope).state)
    (h : m.Holds P) (ending : Ending) : (m.conclude run call ending).Holds P := by
  have hcounted : (if ending.isDone then m
      else m.modifyContext run fun c ↦ { c with failedBranches := c.failedBranches + 1 }).Holds P := by
    split_ifs
    · exact h
    · exact h.of_world rfl
  exact (holds_finishScope hfinish hcounted run call.scope).of_world rfl

theorem holds_spawn (h : m.Holds P) (a : Activity) : (m.spawn a).Holds P := by
  unfold spawn
  split
  · exact h
  · split_ifs
    · exact h.of_world rfl
    · exact h

theorem holds_receive (hfinish : ∀ e run scope, P e → P (e.finish run scope).state)
    (h : m.Holds P) (callback : Callback) : (m.receive run callback).Holds P := by
  cases callback with
  | invoke call =>
    rw [receive, invoke]
    split
    · exact h
    · split
      · exact holds_conclude hfinish h _
      · split
        · exact holds_spawn h _
        · dsimp only
          split_ifs <;> exact h.of_world rfl
  | dispatched scope => exact h.of_world (world_note m run (.dispatched scope))
  | completed scope => exact h.of_world (world_note m run (.completed scope))
  | bind node pin value => exact h.of_world (world_note m run (.bind node pin value))

theorem holds_accept {α : Type} (hfinish : ∀ e run scope, P e → P (e.finish run scope).state)
    {reply : Interpreter.Reply α} (h : P reply.state) : (m.accept run reply).Holds P := by
  have hall (callbacks : List Callback) (m : Machine) (h : m.Holds P) :
      (callbacks.foldl (fun m callback ↦ m.receive run callback) m).Holds P := by
    induction callbacks generalizing m with
    | nil => exact h
    | cons callback rest ih => exact ih _ (holds_receive hfinish h callback)
  exact hall reply.callbacks (m.withInterpreter reply.state) h

theorem holds_start (hclosed : Interpreter.Closed registry P) (h : m.Holds P) (run : RunId)
    (inputs : Inputs) : (m.start run inputs).2.Holds P := by
  unfold start
  split
  · exact h
  · exact holds_accept hclosed.finish (hclosed.execute _ _ _ _ _ h)

theorem holds_endRun (hclosed : Interpreter.Closed registry P) (h : m.Holds P) (run : RunId) :
    (m.endRun run).Holds P := hclosed.endRun _ run h

theorem holds_onComplete (h : m.Holds P) (run : RunId) (handler : CompletionHandler) :
    (m.onComplete run handler).Holds P := by
  obtain ⟨events, heq⟩ := onComplete_eq m run handler
  rw [heq]
  exact h.of_world rfl

/-! ### Moves -/

theorem holds_resume (hclosed : Interpreter.Closed m.provider.registry P) (haloof : m.Aloof)
    (h : m.Holds P) {progress : Progress} (hfits : progress.Fits m.provider run) :
    (m.resume progress).2.Holds P := by
  cases progress with
  | going | sleeping | joining | stalled => exact h
  | fetchingAsset due loader fetch form next =>
    have hloader : loader.Aloof := haloof.loader hfits
    refine hloader.finish fetch m.world h fun bytes later hlater ↦ ?_
    rw [Loader.interpreter_assetDecoder]
    exact hlater
  | fetchingGraph due loader fetch next =>
    have hloader : loader.Aloof := haloof.loader hfits
    exact hloader.finish fetch m.world h fun bytes later hlater ↦
      Decoder.holds_blueprint hclosed.load m.provider.supported _ bytes hlater
  | nesting child next => exact holds_endRun hclosed h child

theorem holds_suspend (h : m.Holds P) (a : Activity) (home : Option Nat) :
    (m.suspend a home).Holds P := by
  cases home with
  | some task => exact h.of_world rfl
  | none => exact holds_spawn h a

theorem world_takeTickets (run : RunId) (scopes : List Nat) (m : Machine) :
    (takeTickets run scopes m).2.world = m.world := by
  induction scopes generalizing m with
  | nil => rfl
  | cons scope rest ih =>
    rw [takeTickets]
    split
    · rfl
    · exact ih _

theorem holds_beginFetch (haloof : m.Aloof) (h : m.Holds P) (id : String) :
    (m.beginFetch id).2.Holds P := by
  unfold beginFetch
  split
  · exact h
  · rename_i d hlookup
    have hloader : (m.provider.loaderFor d).Aloof := haloof
    rw [Holds, hloader.interpreter_start d m.world]
    exact h

theorem holds_serve (hclosed : Interpreter.Closed registry P) (haloof : m.Aloof) (h : m.Holds P)
    (a : Activity) (home : Option Nat) (request : Behaviour) :
    (m.serve a home request).Holds P := by
  have henter (m : Machine) (h : m.Holds P) (progress : Progress) :
      (m.enter a home progress).Holds P := h.of_world rfl
  cases request with
  | succeed | fail | panic => exact holds_conclude hclosed.finish h _
  | read | write | publish | log | sleep => exact h.of_world rfl
  | trigger pin next => exact holds_accept hclosed.finish (hclosed.trigger _ _ _ _ _ _ h)
  | join scopes next => exact henter _ (h.of_world (world_takeTickets a.run scopes m)) _
  | load form id next =>
    have hfetch := holds_beginFetch haloof h id
    rw [serve]
    split
    all_goals
      rename_i hbegin
      rw [hbegin] at hfetch
      exact henter _ hfetch _
  | find id next =>
    have hfetch := holds_beginFetch haloof h id
    rw [serve]
    split
    · exact henter m h _
    · split
      all_goals
        rename_i hbegin
        rw [hbegin] at hfetch
        exact henter _ hfetch _
  | nest graph inputs next =>
    rw [serve]
    dsimp only
    generalize hopened : (m.open_ graph _ true) = opened
    have hchild : opened.2.Holds P := hopened ▸ h.of_world rfl
    have hstarted := holds_start hclosed (henter _ hchild (.nesting opened.1 next)) opened.1 inputs
    split
    all_goals
      rename_i hstart
      rw [hstart] at hstarted
    · exact hstarted
    · exact (holds_endRun hclosed hstarted opened.1).of_world rfl
  | yield next => exact holds_suspend h _ home
  | stall => exact holds_suspend h _ home

theorem Housed.holds_resume (hhoused : m.Housed) (hclosed : Interpreter.Closed m.provider.registry P)
    (h : m.Holds P) {a : Activity} {home : Option Nat} {rest : List Frame}
    (hframes : m.frames = .node a home :: rest) :
    (({ m with frames := rest } : Machine).resume a.progress).2.Holds P := by
  have hfits := hhoused.fits_of_frame hframes
  generalize hbelow : ({ m with frames := rest } : Machine) = below
  have hprovider : below.provider = m.provider := hbelow ▸ rfl
  have haloof : below.Aloof := hbelow ▸ hhoused.aloof
  rw [← hprovider] at hclosed hfits
  exact Machine.holds_resume hclosed haloof (h.of_world (hbelow ▸ rfl)) hfits

theorem Housed.holds_advance (hhoused : m.Housed)
    (hclosed : Interpreter.Closed m.provider.registry P) (h : m.Holds P) : m.advance.Holds P := by
  cases hframes : m.frames with
  | nil =>
    rw [advance, hframes]
    exact h
  | cons frame rest =>
    cases frame with
    | drain run =>
      rw [advance, hframes]
      dsimp only
      split
      · exact h.of_world rfl
      · rename_i c hcontext
        generalize hpopped : (m.modifyContext run fun c' ↦ { c' with queue := c.queue.pop.2 }) = popped
        have hqueue : popped.Holds P := h.of_world (hpopped ▸ rfl)
        split
        · exact hqueue.of_world rfl
        · split
          · exact holds_conclude hclosed.finish hqueue _
          · exact hqueue.of_world rfl
    | node a home =>
      by_cases hcan : m.canGoOn a = true
      · obtain ⟨c, hcontext⟩ := hhoused.context_of_frame hframes
        have hrests := hhoused.rests hframes hcan hcontext
        rw [advance_served hframes hcan]
        exact holds_serve hclosed hrests.aloof (hhoused.holds_resume hclosed h hframes) a home _
      · rw [advance_shelved hframes (Bool.not_eq_true _ ▸ hcan)]
        generalize hbelow : ({ m with frames := rest } : Machine) = below
        exact holds_suspend (h.of_world (hbelow ▸ rfl)) a home

/-- What the calls of the interpreter keep, each move keeps. -/
theorem Housed.holds_step (hhoused : m.Housed) (hclosed : Interpreter.Closed m.provider.registry P)
    (h : m.Holds P) (move : Move) : (m.step move).Holds P := by
  cases move with
  | advance => exact hhoused.holds_advance hclosed h
  | poll task =>
    rw [step, poll]
    split
    · split_ifs
      · exact h.of_world rfl
      · exact h
    · exact h
  | tick moment => exact h.of_world rfl

end Machine

/-! ### Graphs of one registry -/

/-- The kind of a node that is asked for is known, and has accepted its params. -/
def Registry.Vouches (registry : Registry) (call : NodeCall) : Prop :=
  ∃ kind, registry.get? call.kind = some kind ∧ kind.validate call.params = .ok ()

namespace Graph

/-- The graph is what some document was loaded to with a registry. -/
def LoadedWith (registry : Registry) (g : Graph) : Prop := ∃ doc, ofDocument registry doc = .ok g

variable {registry : Registry} {g : Graph}

theorem LoadedWith.accepted (h : g.LoadedWith registry) : g.Accepted := ⟨registry, h⟩

theorem LoadedWith.vouches (h : g.LoadedWith registry) {node : NodeDocument} (hnode : node ∈ g.nodes)
    (scope : Nat) :
    registry.Vouches { scope, node := node.id, kind := node.kind, params := node.params } := by
  obtain ⟨doc, hdoc⟩ := h
  rw [(loads_of_ofDocument hdoc).nodes_eq] at hnode
  exact (exists_ofDocument_iff.mp ⟨g, hdoc⟩).kinds_known node hnode

end Graph

namespace Interpreter

/-- All graphs were loaded with a registry, those of the runs under way as well. -/
structure LoadedWith (registry : Registry) (e : Interpreter) : Prop where
  graphs : ∀ handle g, e.graphs.get? handle = some g → g.LoadedWith registry
  runs : ∀ run active, e.runs.get? run = some active → active.graph.LoadedWith registry

variable {registry : Registry} {e : Interpreter} {run : RunId} {call : NodeCall}

/-- A run goes on with a graph that was loaded. -/
theorem LoadedWith.insert (h : e.LoadedWith registry) {active : ActiveRun}
    (hactive : active.graph.LoadedWith registry) (run : RunId) :
    ({ e with runs := e.runs.insert run active } : Interpreter).LoadedWith registry where
  graphs := h.graphs
  runs := fun other found hfound ↦ by
    rcases Table.get?_insert_eq_some.mp hfound with ⟨-, rfl⟩ | ⟨-, hold⟩
    · exact hactive
    · exact h.runs other found hold

theorem LoadedWith.load (h : e.LoadedWith registry) (text : String) :
    (e.load registry text).2.LoadedWith registry := by
  rcases load_cases registry text with ⟨error, hrefused⟩ | ⟨doc, graph, -, hgraph, hloaded⟩
  · exact hrefused e ▸ h
  · rw [hloaded e]
    refine ⟨fun handle g hget ↦ ?_, h.runs⟩
    rcases Table.get?_insert_eq_some.mp hget with ⟨-, rfl⟩ | ⟨-, hold⟩
    · exact ⟨doc, hgraph⟩
    · exact h.graphs handle g hold

theorem LoadedWith.finish (h : e.LoadedWith registry) (run : RunId) (scope : Nat) :
    (e.finish run scope).state.LoadedWith registry := by
  unfold Interpreter.finish
  split
  · exact h
  · rename_i active hactive
    split
    · exact h
    · refine h.insert ?_ run
      exact h.runs run active hactive

theorem LoadedWith.execute (h : e.LoadedWith registry) (handle : Nat) (run : RunId) (inputs : Inputs)
    (view : Bindings) : (e.execute handle run inputs view).state.LoadedWith registry := by
  unfold Interpreter.execute
  split
  · exact h
  · rename_i graph hgraph
    have hinserted : ({ e with
        runs := e.runs.insert run { graph, inputs, scopes := .initial } } : Interpreter).LoadedWith
          registry := h.insert (h.graphs handle graph hgraph) run
    dsimp only
    split
    · exact hinserted
    · exact hinserted.finish run rootScope

theorem LoadedWith.trigger (h : e.LoadedWith registry) (run : RunId) (scope : Nat) (node pin : String)
    (view : Bindings) : (e.trigger run scope node pin view).state.LoadedWith registry := by
  unfold Interpreter.trigger
  split
  · exact h
  · rename_i active hactive
    split
    · exact h
    · split
      · exact h
      · refine h.insert ?_ run
        exact h.runs run active hactive

theorem LoadedWith.endRun (h : e.LoadedWith registry) (run : RunId) :
    (e.endRun run).LoadedWith registry where
  graphs := h.graphs
  runs := fun other active hactive ↦ by
    simp only [Interpreter.endRun, Table.get?_erase] at hactive
    split_ifs at hactive
    exact h.runs other active hactive

theorem closed_loadedWith (registry : Registry) : Closed registry (LoadedWith registry) where
  load := fun _ text h ↦ h.load text
  execute := fun _ handle run inputs view h ↦ h.execute handle run inputs view
  trigger := fun _ run scope node pin view h ↦ h.trigger run scope node pin view
  finish := fun _ run scope h ↦ h.finish run scope
  endRun := fun _ run h ↦ h.endRun run

/-! ### The graph of a run -/

/-- Of a run only the scopes change when a node has returned. -/
theorem get?_runs_finish_of_some {active : ActiveRun} (h : e.runs.get? run = some active)
    (other : RunId) (scope : Nat) :
    ∃ scopes, (e.finish other scope).state.runs.get? run = some { active with scopes } := by
  by_cases hother : other = run
  · subst hother
    unfold Interpreter.finish
    rw [h]
    dsimp only
    split
    · exact ⟨active.scopes, h⟩
    · exact ⟨_, Table.get?_insert_self ..⟩
  · exact ⟨active.scopes, (get?_runs_finish hother scope).trans h⟩

/-- A run is under way, with a graph. -/
def Performs (run : RunId) (g : Graph) (e : Interpreter) : Prop :=
  ∃ active, e.runs.get? run = some active ∧ active.graph = g

theorem Performs.finish {g : Graph} (h : e.Performs run g) (other : RunId) (scope : Nat) :
    (e.finish other scope).state.Performs run g := by
  obtain ⟨active, hactive, rfl⟩ := h
  obtain ⟨scopes, hlater⟩ := get?_runs_finish_of_some hactive other scope
  exact ⟨_, hlater, rfl⟩

theorem LoadedWith.of_performs {g : Graph} (h : e.LoadedWith registry) (hperforms : e.Performs run g) :
    g.LoadedWith registry := by
  obtain ⟨active, hactive, rfl⟩ := hperforms
  exact h.runs run active hactive

/-! ### The nodes that are asked for -/

theorem vouches_of_startNode {g : Graph} (h : g.LoadedWith registry) {node : NodeDocument}
    (hnode : node ∈ g.nodes) {inputs : Inputs} {view : Bindings} {scope reported : Nat}
    (hinvoke : .invoke call ∈ .dispatched reported :: startNode inputs view node scope) :
    registry.Vouches call := by
  have hstarted : .invoke call ∈ startNode inputs view node scope := by simpa using hinvoke
  obtain rfl := mem_startNode_invoke.mp hstarted
  exact h.vouches hnode scope

/-- Assumes: a run under way with a graph of the registry, if it is. -/
theorem vouches_of_trigger (h : ∀ g, e.Performs run g → g.LoadedWith registry) {scope : Nat}
    {node pin : String} {view : Bindings}
    (hinvoke : .invoke call ∈ (e.trigger run scope node pin view).callbacks) :
    registry.Vouches call := by
  cases hactive : e.runs.get? run with
  | none => simp [trigger_of_no_run hactive] at hinvoke
  | some active =>
    have hloaded := h active.graph ⟨active, hactive, rfl⟩
    have htriggers := triggers_trigger hactive hloaded.accepted.wired scope node pin view
    generalize e.trigger run scope node pin view = reply at hinvoke htriggers
    cases htriggers with
    | refused error hpin => simp at hinvoke
    | unwired hpin => simp at hinvoke
    | wired next hpin hnext => exact vouches_of_startNode hloaded hnext hinvoke

end Interpreter

/-! ### Starting a run -/

namespace Machine

variable {registry : Registry} {m : Machine} {run : RunId} {call : NodeCall} {c : Context}
  {inputs : Inputs}

/-- Assumes: a first start that asks for a node. Then the graph is loaded, the start succeeds, and the
node is one of that graph, with which the run is under way afterwards. -/
theorem vouches_of_started (hcontext : m.context? run = some c) (hinputs : c.inputs = none)
    (haccepted : m.world.interpreter.GraphsAccepted)
    (hinvoke : .invoke call ∈
      (m.world.interpreter.execute c.graph.handle run inputs c.bindings).callbacks)
    (hgraph : ∀ g, (m.start run inputs).2.world.interpreter.Performs run g →
      (m.start run inputs).1 = .ok rootScope → g.LoadedWith registry) : registry.Vouches call := by
  rw [start_eq hcontext hinputs] at hgraph
  cases hloaded : m.world.interpreter.graphs.get? c.graph.handle with
  | none => simp [Interpreter.execute, hloaded] at hinvoke
  | some g =>
    have hexecutes := Interpreter.executes_execute hloaded (haccepted _ g hloaded).wired run inputs
      c.bindings
    generalize m.world.interpreter.execute c.graph.handle run inputs c.bindings = reply
      at hinvoke hgraph hexecutes
    -- The run is under way before its first node is asked for, and what that does does not end it.
    cases hexecutes with
    | nodeless hnodes => simp at hinvoke
    | entered entry hentry =>
      refine Interpreter.vouches_of_startNode (hgraph g ?_ rfl) hentry hinvoke
      refine holds_accept (P := Interpreter.Performs run g) (fun _ other scope h ↦ h.finish other scope) ?_
      exact ⟨_, Table.get?_insert_self .., rfl⟩

end Machine

end Blueprint

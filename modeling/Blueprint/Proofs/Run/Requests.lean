import Blueprint.Proofs.Run.Endings

/-!
How the operations of the machine take a run further. An invocation ends (`steps_conclude`) or
begins (`steps_invoke`), a reply of the interpreter starts a node (`steps_accept_starts`), a run
starts (`steps_start`), and the request of a node is served (`steps_serve`).
-/

set_option autoImplicit false

namespace Blueprint.Machine

variable {m m' : Machine} {run : RunId} {a : Activity} {c : Context}

/-! ### Invocations that end -/

theorem isSome_active_conclude (m : Machine) (run : RunId) (call : NodeCall) (ending : Ending) :
    ((m.conclude run call ending).view run).active.isSome = (m.view run).active.isSome := by
  have hfinish (v : RunView) (scope : Nat) : (v.finish scope).active.isSome = v.active.isSome := by
    have hnext := congrArg Standing.next? (v.standing_finish scope 0 [])
    have hsome := congrArg Option.isSome hnext
    simpa only [RunView.standing, Option.isSome_map] using hsome
  rw [view_conclude, RunView.conclude, hfinish]
  split_ifs <;> rfl

/-- An invocation ends. -/
theorem steps_conclude {call : NodeCall} {stage : Option Progress} {ending : Ending}
    (hcontext : m.context? run = some c) (haccepts : (m.view run).Accepts call.scope)
    (hreturns : call.Returns m.provider.registry stage ending) (hand : Multiset Work) :
    Standing.Steps m.provider.registry (m.standing run ((call, stage) ::ₘ hand))
      (m.since (m.conclude run call ending) run)
      ((m.conclude run call ending).standing run hand) := by
  have hendings := endings_conclude m run call ending run
  rw [if_pos rfl, isOk_finish haccepts] at hendings
  rw [since_of_ended hendings (isSome_active_conclude m run call ending)]
  have hworking : (m.standing run ((call, stage) ::ₘ hand)).working =
      (call, stage) ::ₘ (hand + (m.view run).works) := Multiset.cons_add _ _ _
  have hstep : Standing.Step m.provider.registry _ _ _ :=
    .ended call stage ending _ hworking hreturns
  have hnext : (m.standing run ((call, stage) ::ₘ hand)).next?.isSome =
      (m.view run).active.isSome := Option.isSome_map ..
  have hlater : (m.conclude run call ending).standing run hand =
      { m.standing run ((call, stage) ::ₘ hand) with
        failures := (m.standing run ((call, stage) ::ₘ hand)).failures +
          if ending.isDone then 0 else 1
        working := hand + (m.view run).works
        endings := m.endings run ++ [(call, ending, (m.view run).active.isSome)] } := by
    rw [standing, view_conclude, RunView.standing_conclude hcontext, hendings]
    rfl
  rw [hlater, ← hnext]
  exact hstep.steps

/-! ### Invocations that begin -/

theorem steps_taken (run : RunId) {call : NodeCall} {kind : NodeKind}
    (hkind : m.provider.registry.get? call.kind = some kind) (hand : Multiset Work) :
    Standing.Steps m.provider.registry (m.standing run ((call, none) ::ₘ hand)) []
      (m.standing run ((call, some (.going (kind.behaviour call))) ::ₘ hand)) := by
  rw [standing_cons, standing_cons]
  exact (Standing.Step.taken call kind (m.standing run hand).working rfl hkind).steps

theorem steps_lost (hcontext : m.context? run = some c) (htasks : c.hasTasks = false) (work : Work)
    (hand : Multiset Work) :
    Standing.Steps m.provider.registry (m.standing run (work ::ₘ hand)) []
      (m.standing run hand) := by
  have hnone : (m.standing run hand).hasTasks = false := by
    rw [standing_eq hcontext]
    exact htasks
  have hstep : Standing.Step m.provider.registry (m.standing run (work ::ₘ hand)) []
      (m.standing run hand) := by
    rw [standing_cons]
    exact .lost work _ rfl hnone
  exact hstep.steps

/-- A request to run a node is taken in. -/
theorem steps_invoke {call : NodeCall} (hcontext : m.context? run = some c)
    (haccepts : (m.view run).Accepts call.scope) (hand : Multiset Work) :
    Standing.Steps m.provider.registry (m.standing run ((call, none) ::ₘ hand))
      (m.since (m.invoke run call) run) ((m.invoke run call).standing run hand) := by
  cases hkind : m.provider.registry.get? call.kind with
  | none =>
    have hinvoke : m.invoke run call = m.conclude run call (.unknownKind call.kind) := by
      simp [invoke, hcontext, hkind]
    rw [hinvoke]
    exact steps_conclude hcontext haccepts (.unknown hkind) hand
  | some kind =>
    have hendings := endings_of_events (events_invoke hkind run) run
    have htaken := steps_taken (m := m) run hkind hand
    obtain ⟨lost, hinvokes⟩ := invokes_invoke hcontext (.refl m)
      (le_refl (m.invoke run call).nextTask)
    generalize hafter : (m.invoke run call).view run = after at hinvokes
    have hkept (hactive : after.active = (m.view run).active) :
        m.since (m.invoke run call) run = [] :=
      since_of_eq hendings fun hsome ↦ by rwa [hafter, hactive]
    cases hinvokes with
    | unknown hunknown => cases hkind.symm.trans hunknown
    | spawned other task hother =>
      obtain rfl := Option.some.inj (hkind.symm.trans hother)
      have hworks : ((m.invoke run call).view run).works =
          (call, some (.going (kind.behaviour call))) ::ₘ (m.view run).works := by
        rw [hafter]
        exact (m.view run).works_push_task task { run, call, progress := _ }
      rw [hkept rfl, standing_of_works hcontext (hafter ▸ hcontext) (hafter ▸ rfl) hendings
        ⟨rfl, rfl, rfl, rfl⟩ rfl hworks]
      exact htaken
    | lost other hother hmode htasks =>
      have hsame : (m.invoke run call).standing run hand = m.standing run hand := by
        rw [standing, hafter, hendings, standing]
      rw [hkept rfl, hsame]
      exact htaken.trans (steps_lost hcontext htasks _ hand)
    | queued other hother hmode hdraining =>
      have hworks : ((m.invoke run call).view run).works = (call, none) ::ₘ (m.view run).works := by
        rw [hafter]
        exact RunView.works_push_call _ hcontext rfl
      rw [hkept rfl, standing_of_works hcontext (congrArg RunView.context hafter) (hafter ▸ rfl)
        hendings ⟨rfl, rfl, rfl, rfl⟩ rfl hworks]
      exact .refl _
    | drained other hother hmode hdraining =>
      have hworks : ((m.invoke run call).view run).works = (call, none) ::ₘ (m.view run).works := by
        rw [hafter]
        exact RunView.works_push_call (v := m.view run)
          { c with queue := { calls := c.queue.calls ++ [call], draining := true } } hcontext rfl
      rw [hkept rfl, standing_of_works hcontext (congrArg RunView.context hafter) (hafter ▸ rfl)
        hendings ⟨rfl, rfl, rfl, rfl⟩ rfl hworks]
      exact .refl _

theorem isSome_active_invoke {call : NodeCall} (hcontext : m.context? run = some c) :
    ((m.invoke run call).view run).active.isSome = (m.view run).active.isSome := by
  obtain ⟨lost, hinvokes⟩ := invokes_invoke hcontext (.refl m)
    (le_refl (m.invoke run call).nextTask)
  generalize (m.invoke run call).view run = after at hinvokes
  cases hinvokes with
  | unknown hkind =>
    rw [← view_conclude]
    exact isSome_active_conclude m run call _
  | spawned | lost | queued | drained => rfl

/-! ### Replies of the interpreter -/

/-- The node call that hands a node to the host. -/
def callOf (node : NodeDocument) (scope : Nat) : NodeCall :=
  { scope, node := node.id, kind := node.kind, params := node.params }

/-- The pins that are bound when a node is started. -/
def boundOf (inputs : Inputs) (view : Bindings) (node : NodeDocument) : List (String × Value) :=
  (Interpreter.bindInputs node.id inputs view node.inputs).filterMap Callback.bound?

theorem begun_starts (inputs : Inputs) (view : Bindings) (node : NodeDocument) (scope : Nat) :
    begun (.dispatched scope :: Interpreter.startNode inputs view node scope) =
      [.invoked (callOf node scope) (boundOf inputs view node)] := by
  have hbinds : (Interpreter.bindInputs node.id inputs view node.inputs).filterMap
      Callback.call? = [] := by
    refine List.filterMap_eq_nil_iff.mpr fun callback hmem ↦ ?_
    cases callback with
    | invoke call => exact absurd rfl (ne_invoke_of_mem_bindInputs hmem call)
    | dispatched | completed | bind => rfl
  rw [begun, Interpreter.startNode, List.filterMap_cons_none rfl, List.filterMap_cons_none rfl,
    List.filterMap_append, List.filterMap_append, hbinds]
  simp [boundOf, callOf, Callback.call?, Callback.bound?]

theorem bindings_noteAll_bindInputs (c : Context) (node : String) (inputs : Inputs)
    (view : Bindings) (sources : List (String × InputSource)) :
    (c.noteAll (Interpreter.bindInputs node inputs view sources)).bindings =
      c.bindings.putAll (((Interpreter.bindInputs node inputs view sources).filterMap
        Callback.bound?).map fun pin ↦ ((node, pin.1), pin.2)) := by
  induction sources generalizing c view with
  | nil => rfl
  | cons source rest ih =>
    obtain ⟨pin, origin⟩ := source
    rw [Interpreter.bindInputs]
    split
    · exact ih _ _
    · exact ih c view

theorem noteAll_starts (c : Context) (scope : Nat) (inputs : Inputs) (view : Bindings)
    (node : NodeDocument) :
    c.noteAll (.dispatched scope :: Interpreter.bindInputs node.id inputs view node.inputs) =
      { c with
        tracker := c.tracker.dispatch scope
        bindings := c.bindings.putAll
          (Deed.invoked (callOf node scope) (boundOf inputs view node)).puts } := by
  obtain ⟨bindings, hbindings⟩ := c.noteAll_dispatched scope node.id inputs view node.inputs
  have hexact := bindings_noteAll_bindInputs { c with tracker := c.tracker.dispatch scope } node.id
    inputs view node.inputs
  have hsame : bindings = _ := (congrArg Context.bindings hbindings).symm.trans hexact
  rw [hbindings, hsame]
  rfl

/-- Assumes: a reply that starts a node on a scope, which is the last one of the run and open.
`base` is the machine before the move. -/
theorem steps_accept_starts {α : Type} {base : Machine} {inputs : Inputs} {view : Bindings}
    {node : NodeDocument} {scope : Nat} {active : ActiveRun} (reply : Interpreter.Reply α)
    (hbase : m.endings run = base.endings run) (hcontext : m.context? run = some c)
    (hcallbacks : reply.callbacks =
      .dispatched scope :: Interpreter.startNode inputs view node scope)
    (hactive : reply.state.runs.get? run = some active) (hnext : active.scopes.next = scope + 1)
    (hopen : active.scopes.awaits scope = true) (hand : Multiset Work) :
    Standing.Steps m.provider.registry { m.standing run hand with next? := some scope }
      (begun reply.callbacks ++ base.since (m.accept run reply) run)
      ((m.accept run reply).standing run hand) := by
  have haccept : m.accept run reply = _ := accept_of_starts hcallbacks
  -- The machine that has been told everything but the last.
  generalize htold : (Callback.dispatched scope ::
    Interpreter.bindInputs node.id inputs view node.inputs).foldl
      (fun m callback ↦ m.note run callback) (m.withInterpreter reply.state) = told at haccept
  have hview : told.view run = { m.view run with
      active := some active
      context := some { c with
        tracker := c.tracker.dispatch scope
        bindings := c.bindings.putAll
          (Deed.invoked (callOf node scope) (boundOf inputs view node)).puts } } := by
    rw [← htold, view_noteAll, view_withInterpreter, hactive,
      show (m.view run).context = some c from hcontext, Option.map_some, noteAll_starts]
  have hendings : told.endings run = m.endings run := by
    rw [← htold, endings_noteAll]
    exact endings_of_events rfl run
  have hprovider : told.provider = m.provider := by
    rw [← htold]
    exact (concerns_noteAll (m.withInterpreter reply.state) run _).provider_eq
  have htoldContext := congrArg RunView.context hview
  have haccepts : (told.view run).Accepts (callOf node scope).scope := by
    intro other hother
    obtain rfl := Option.some.inj ((congrArg RunView.active hview).symm.trans hother)
    obtain ⟨closed, later, hfinish⟩ := ScopeTable.finish_of_awaits hopen
    exact congrArg Option.isSome hfinish
  have hsteps := steps_invoke htoldContext haccepts hand
  have hsome : ((m.accept run reply).view run).active.isSome = true := by
    rw [haccept]
    exact (isSome_active_invoke htoldContext).trans (by rw [hview]; rfl)
  have hstanding : told.standing run ((callOf node scope, none) ::ₘ hand) = {
      { m.standing run hand with next? := some scope } with
      next? := some (scope + 1)
      bindings := (m.standing run hand).bindings.putAll
        (Deed.invoked (callOf node scope) (boundOf inputs view node)).puts
      working := (callOf node scope, none) ::ₘ (m.standing run hand).working } := by
    have hworks := works_of_view hcontext hview rfl
    rw [standing_cons, standing_eq htoldContext, standing_eq hcontext, hworks, hendings, hview,
      Option.map_some, hnext]
  rw [since_of_later (hendings.trans hbase) hsome, hcallbacks, begun_starts, haccept]
  rw [hprovider, hstanding] at hsteps
  exact (Standing.Step.invoked (callOf node scope) _ rfl).steps.trans hsteps

theorem standing_accept_of_error {reply : Interpreter.Reply Nat}
    (hstate : reply.state = m.world.interpreter) (hcallbacks : reply.callbacks = [])
    (hand : Multiset Work) : (m.accept run reply).standing run hand = m.standing run hand := by
  rw [standing, view_accept_of_error hstate hcallbacks,
    endings_accept_of_quiet reply (by simp [hcallbacks]), standing]

/-- Assumes: a reply that only tells of a scope that was dispatched and has completed. -/
theorem standing_accept_skipped {α : Type} {active : ActiveRun} {scope next : Nat}
    (reply : Interpreter.Reply α) (hcontext : m.context? run = some c)
    (hcallbacks : reply.callbacks = [.dispatched scope, .completed scope])
    (hactive : reply.state.runs.get? run = some active) (hnext : active.scopes.next = next)
    (hand : Multiset Work) :
    (m.accept run reply).standing run hand = { m.standing run hand with next? := some next } := by
  have hquiet : ∀ callback ∈ reply.callbacks, ∀ call, callback ≠ .invoke call := by
    simp [hcallbacks]
  have hview : (m.accept run reply).view run = _ := view_accept_of_quiet hquiet
  rw [show (m.view run).context = some c from hcontext, Option.map_some, hactive,
    hcallbacks] at hview
  have hworks := works_of_view hcontext hview rfl
  rw [standing_eq (congrArg RunView.context hview), hworks,
    endings_accept_of_quiet reply hquiet, hview, standing_eq hcontext,
    Option.map_some, hnext]
  rfl

/-! ### Starting -/

theorem standing_withInputs (hcontext : m.context? run = some c) (inputs : Inputs)
    (hand : Multiset Work) :
    (m.withInputs run inputs).standing run hand = { m.standing run hand with started := true } := by
  have hview := view_withInputs hcontext inputs
  have hworks := works_of_view hcontext hview rfl
  have hendings : (m.withInputs run inputs).endings run = m.endings run := endings_of_events rfl run
  rw [standing_eq (congrArg RunView.context hview), hworks, hendings,
    hview, standing_eq hcontext]
  rfl

/-- A run is started for the first time. -/
theorem steps_start (hcontext : m.context? run = some c) (hinputs : c.inputs = none)
    (hidle : (m.view run).active = none) (haccepted : m.world.interpreter.GraphsAccepted)
    (inputs : Inputs) (hand : Multiset Work) :
    Standing.Steps m.provider.registry (m.standing run hand)
      (begun (m.world.interpreter.execute c.graph.handle run inputs c.bindings).callbacks ++
        m.since (m.start run inputs).2 run)
      ((m.start run inputs).2.standing run hand) := by
  have hstarted : (m.standing run hand).started = false := by
    rw [standing_eq hcontext, hinputs]
    rfl
  have hbegun (next? : Option Nat) (hnext : ∀ n ∈ next?, n = rootScope) :
      Standing.Steps m.provider.registry (m.standing run hand) []
        { (m.withInputs run inputs).standing run hand with next? } := by
    rw [standing_withInputs hcontext]
    exact (Standing.Step.begun next? hstarted hnext).steps
  have hcontextInputs : (m.withInputs run inputs).context? run =
      some { c with inputs := some inputs } :=
    congrArg RunView.context (view_withInputs hcontext inputs)
  have hendings : (m.withInputs run inputs).endings run = m.endings run := endings_of_events rfl run
  rw [start_eq hcontext hinputs]
  cases hgraph : m.world.interpreter.graphs.get? c.graph.handle with
  | none =>
    rw [Interpreter.execute, hgraph]
    change Standing.Steps _ _ (begun [] ++ m.since ((m.withInputs run inputs).accept run _) run)
      (((m.withInputs run inputs).accept run _).standing run hand)
    rw [since_of_eq ((endings_accept_of_quiet _ (by simp) run run).trans hendings)
        fun hsome ↦ (by rw [hidle] at hsome; cases hsome), standing_accept_of_error rfl rfl]
    refine hbegun ((m.withInputs run inputs).standing run hand).next? ?_
    rw [standing_withInputs hcontext, standing, RunView.standing, hidle]
    intro next hnext
    cases hnext
  | some graph =>
    have hexecutes := Interpreter.executes_execute hgraph (haccepted _ graph hgraph).wired run
      inputs c.bindings
    generalize m.world.interpreter.execute c.graph.handle run inputs c.bindings = reply at hexecutes
    cases hexecutes with
    | entered entry hentry =>
      exact (hbegun (some rootScope) (by simp)).trans
        (steps_accept_starts _ hendings hcontextInputs rfl (Table.get?_insert_self _ _ _) rfl
          (by rw [ScopeTable.awaits_initial]; rfl) hand)
    | nodeless hnodes =>
      change Standing.Steps _ _ (begun [.dispatched rootScope, .completed rootScope] ++
        m.since ((m.withInputs run inputs).accept run _) run)
          (((m.withInputs run inputs).accept run _).standing run hand)
      rw [since_of_eq ((endings_accept_of_quiet _ (by simp) run run).trans hendings)
          fun hsome ↦ (by rw [hidle] at hsome; cases hsome),
        standing_accept_skipped _ hcontextInputs rfl (Table.get?_insert_self _ _ _) rfl]
      exact (hbegun (some rootScope) (by simp)).trans (Standing.Step.skipped rootScope rfl).steps

/-! ### Requests -/

theorem standing_enter (m : Machine) (a : Activity) (home : Option Nat) (later : Progress)
    (hand : Multiset Work) :
    (m.enter a home later).standing a.run hand =
      m.standing a.run ((a.call, some later) ::ₘ hand) := by
  have hendings : (m.enter a home later).endings a.run = m.endings a.run := endings_of_events rfl _
  rw [standing, standing, view_enter, hendings, RunView.standing,
    RunView.works_push_node (m.view a.run) { a with progress := later } home, Multiset.add_cons,
    RunView.standing, Multiset.cons_add]

theorem steps_acted {call : NodeCall} {progress later : Progress} {request : Behaviour}
    {told : List Deed} (hcontext : m.context? run = some c)
    (hresumes : RunView.Resumes progress request)
    (hasks : request.Asks c.config c.bindings call told later) (hand : Multiset Work) :
    Standing.Steps m.provider.registry (m.standing run ((call, some progress) ::ₘ hand)) told
      { m.standing run ((call, some later) ::ₘ hand) with
        bindings := c.bindings.putAll (told.flatMap Deed.puts) } := by
  have hstanding := standing_eq hcontext ((call, some progress) ::ₘ hand)
  have hacted : Standing.Step m.provider.registry
      (m.standing run ((call, some progress) ::ₘ hand)) told _ :=
    .acted call (m.standing run hand).working (by rw [standing_cons]) hresumes
      (by rw [hstanding]; exact hasks)
  rw [bindings_standing hcontext, standing_cons] at hacted
  rw [standing_cons, standing_cons]
  exact hacted.steps

/-- A request by which nothing is put on pins. -/
theorem steps_asked {call : NodeCall} {progress later : Progress} {request : Behaviour}
    {told : List Deed} (hcontext : m.context? run = some c)
    (hresumes : RunView.Resumes progress request)
    (hasks : request.Asks c.config c.bindings call told later)
    (hputs : told.flatMap Deed.puts = []) (hand : Multiset Work) :
    Standing.Steps m.provider.registry (m.standing run ((call, some progress) ::ₘ hand)) told
      (m.standing run ((call, some later) ::ₘ hand)) := by
  have hsteps := steps_acted hcontext hresumes hasks hand
  rw [hputs, Bindings.putAll, List.foldl_nil,
    ← bindings_standing hcontext ((call, some later) ::ₘ hand)] at hsteps
  exact hsteps

/-- A request that is answered on the spot. -/
theorem steps_answered {after : Context} {later : Progress} {request : Behaviour} {told : List Deed}
    {changed : Machine} (hcontext : m.context? a.run = some c)
    (hresumes : RunView.Resumes a.progress request)
    (hasks : request.Asks c.config c.bindings a.call told later)
    (hchanged : changed.view a.run = { m.view a.run with context := some after })
    (hendings : changed.endings a.run = m.endings a.run)
    (hafter : ∃ tracker outputs, after =
      { c with tracker, outputs, bindings := c.bindings.putAll (told.flatMap Deed.puts) })
    (home : Option Nat) (hand : Multiset Work) :
    Standing.Steps m.provider.registry (m.standing a.run ((a.call, some a.progress) ::ₘ hand))
      (told ++ m.since (changed.enter a home later) a.run)
      ((changed.enter a home later).standing a.run hand) := by
  have henter : (changed.enter a home later).endings a.run = m.endings a.run :=
    (endings_of_events rfl _).trans hendings
  have hactive : ((changed.enter a home later).view a.run).active = (m.view a.run).active := by
    rw [view_enter, hchanged]
  obtain ⟨tracker, outputs, rfl⟩ := hafter
  have hworks := works_of_view hcontext hchanged rfl
  have hstanding : (changed.enter a home later).standing a.run hand =
      { m.standing a.run ((a.call, some later) ::ₘ hand) with
        bindings := c.bindings.putAll (told.flatMap Deed.puts) } := by
    rw [standing_enter, standing_of_view hcontext (congrArg RunView.context hchanged)
      (hchanged ▸ rfl) hendings ⟨rfl, rfl, rfl, rfl⟩, hworks]
    rfl
  rw [since_of_eq henter fun hsome ↦ hactive ▸ hsome, List.append_nil, hstanding]
  exact steps_acted hcontext hresumes hasks hand

/-- An activity is put on a task, or lost for want of a place for tasks. -/
theorem steps_suspend (hcontext : m.context? a.run = some c) (home : Option Nat)
    (hand : Multiset Work) :
    Standing.Steps m.provider.registry (m.standing a.run ((a.call, some a.progress) ::ₘ hand))
      (m.since (m.suspend a home) a.run) ((m.suspend a home).standing a.run hand) := by
  have hendings : (m.suspend a home).endings a.run = m.endings a.run := by
    refine endings_of_events ?_ _
    cases home with
    | none => exact events_spawn m a
    | some task => rfl
  obtain ⟨tasks, lost, hshelves, hview⟩ := shelves_suspend hcontext home
  rw [since_of_eq hendings fun hsome ↦ by rwa [hview]]
  have hpushed (task : Nat) (htasks : tasks = (m.view a.run).tasks ++ [(task, a)]) :
      (m.suspend a home).standing a.run hand =
        m.standing a.run ((a.call, some a.progress) ::ₘ hand) := by
    refine standing_of_works hcontext (hview ▸ hcontext) (hview ▸ rfl) hendings
      ⟨rfl, rfl, rfl, rfl⟩ rfl ?_ hand
    rw [hview, htasks]
    exact (m.view a.run).works_push_task task a
  cases hshelves with
  | back task => exact .of_eq (hpushed task rfl).symm
  | spawned task => exact .of_eq (hpushed task rfl).symm
  | lost htasks =>
    have hsame : (m.suspend a none).standing a.run hand = m.standing a.run hand := by
      rw [standing, hview, hendings, standing]
    rw [hsame]
    exact steps_lost hcontext htasks _ hand

/-- The interpreter's reply on a branch that a node starts is taken in. `base` is the machine before
the node has asked. -/
theorem steps_accept_trigger {base : Machine} (hbase : m.endings run = base.endings run)
    (hactives : (m.view run).active = (base.view run).active) (hcontext : m.context? run = some c)
    (hwired : ∀ active, m.world.interpreter.runs.get? run = some active → active.graph.Wired)
    {scope : Nat} {node pin : String} {view : Bindings} {reply : Interpreter.Reply Nat}
    (hreply : m.world.interpreter.trigger run scope node pin view = reply) (hand : Multiset Work) :
    Standing.Steps m.provider.registry (m.standing run hand)
      (begun reply.callbacks ++ base.since (m.accept run reply) run)
      ((m.accept run reply).standing run hand) := by
  have hquiet (hcallbacks : ∀ callback ∈ reply.callbacks, ∀ call, callback ≠ .invoke call) :
      (m.accept run reply).endings run = base.endings run :=
    (endings_accept_of_quiet reply hcallbacks run run).trans hbase
  have hrefused {error : EngineError}
      (hreply : reply = { outcome := .error error, state := m.world.interpreter }) :
      Standing.Steps m.provider.registry (m.standing run hand)
        (begun reply.callbacks ++ base.since (m.accept run reply) run)
        ((m.accept run reply).standing run hand) := by
    subst hreply
    rw [since_of_eq (hquiet (by simp)) fun hsome ↦ by
        rwa [view_accept_of_error rfl rfl, hactives],
      standing_accept_of_error rfl rfl]
    exact .refl _
  cases hactive : m.world.interpreter.runs.get? run with
  | none =>
    rw [Interpreter.trigger_of_no_run hactive] at hreply
    exact hrefused hreply.symm
  | some active =>
    have hnext : (m.standing run hand).next? = some active.scopes.next := by
      rw [standing_eq hcontext]
      exact congrArg (Option.map _) hactive
    have htriggers :=
      Interpreter.triggers_trigger hactive (hwired active hactive) scope node pin view
    rw [hreply] at htriggers
    cases htriggers with
    | refused error hpin => exact hrefused rfl
    | unwired hpin =>
      have hlater := Table.get?_insert_self m.world.interpreter.runs run
        { active with scopes := active.scopes.openNext false scope }
      rw [since_of_eq (hquiet (by simp)) fun hsome ↦ by
          rw [view_accept_of_quiet (by simp), hlater]
          rfl,
        standing_accept_skipped _ hcontext rfl hlater (ScopeTable.next_openNext _ _ _)]
      exact (Standing.Step.skipped _ hnext).steps
    | wired target hpin htarget =>
      have hlater := Table.get?_insert_self m.world.interpreter.runs run
        { active with scopes := active.scopes.openNext true scope }
      have hopen : (active.scopes.openNext true scope).awaits active.scopes.next = true := by
        rw [ScopeTable.awaits_openNext, beq_self_eq_true, Bool.true_or]
      have hsame : { m.standing run hand with next? := some active.scopes.next } =
          m.standing run hand := by
        rw [← hnext]
      rw [← hsame]
      exact steps_accept_starts _ hbase hcontext rfl hlater (ScopeTable.next_openNext _ _ _) hopen
        hand

/-- Starts the branch behind an exec pin: the node goes on with the answer, and then the
interpreter's reply is taken in. -/
theorem steps_trigger (hcontext : m.context? a.run = some c)
    (hwired : ∀ active, m.world.interpreter.runs.get? a.run = some active → active.graph.Wired)
    {pin : String} {next : Except EngineError Nat → Behaviour}
    (hresumes : RunView.Resumes a.progress (.trigger pin next)) (home : Option Nat)
    (hand : Multiset Work) :
    Standing.Steps m.provider.registry (m.standing a.run ((a.call, some a.progress) ::ₘ hand))
      (m.doing a (.trigger pin next) ++ m.since (m.serve a home (.trigger pin next)) a.run)
      ((m.serve a home (.trigger pin next)).standing a.run hand) := by
  obtain ⟨reply, hreply⟩ : ∃ reply, m.world.interpreter.trigger a.run a.call.scope a.call.node pin
      (m.bindings a.run) = reply := ⟨_, rfl⟩
  have hdoing : m.doing a (.trigger pin next) =
      [.triggered a.call pin reply.outcome] ++ begun reply.callbacks := by
    rw [← hreply]
    rfl
  have hserve : m.serve a home (.trigger pin next) =
      (m.enter a home (.going (next reply.outcome))).accept a.run reply := by
    rw [← hreply]
    rfl
  have hacted : Standing.Steps m.provider.registry
      (m.standing a.run ((a.call, some a.progress) ::ₘ hand)) [.triggered a.call pin reply.outcome]
      ((m.enter a home (.going (next reply.outcome))).standing a.run hand) := by
    rw [standing_enter]
    exact steps_asked hcontext hresumes (.trigger pin next reply.outcome) rfl hand
  have hentered : ((m.enter a home (.going (next reply.outcome))).view a.run).active =
      (m.view a.run).active := by
    rw [view_enter]
  rw [hdoing, hserve, List.append_assoc]
  exact hacted.trans (steps_accept_trigger (m := m.enter a home (.going (next reply.outcome)))
    (endings_of_events rfl _) hentered hcontext hwired hreply hand)

/-- A node gives way to others. -/
theorem steps_paused (hcontext : m.context? a.run = some c) {request : Behaviour} {later : Progress}
    (hresumes : RunView.Resumes a.progress request) (hpause : request.pause? = some later)
    (home : Option Nat) (hand : Multiset Work) :
    Standing.Steps m.provider.registry (m.standing a.run ((a.call, some a.progress) ::ₘ hand))
      (m.since (m.suspend { a with progress := later } home) a.run)
      ((m.suspend { a with progress := later } home).standing a.run hand) := by
  have hasks : request.Asks c.config c.bindings a.call [] later := by
    cases request with
    | yield next => exact Option.some.inj hpause ▸ .yield next
    | stall => exact Option.some.inj hpause ▸ .stall
    | _ => cases hpause
  exact (steps_asked hcontext hresumes hasks rfl hand).trans
    (steps_suspend (a := { a with progress := later }) hcontext home hand)

/-- Assumes: a request other than to run a graph on a run of its own. -/
theorem steps_serve (hcontext : m.context? a.run = some c)
    (hwired : ∀ active, m.world.interpreter.runs.get? a.run = some active → active.graph.Wired)
    (haloof : m.Aloof) (haccepts : (m.view a.run).Accepts a.call.scope) {request : Behaviour}
    (hresumes : RunView.Resumes a.progress request)
    (hrequest : ∀ graph inputs next, request ≠ .nest graph inputs next) (home : Option Nat)
    (hand : Multiset Work) :
    Standing.Steps m.provider.registry (m.standing a.run ((a.call, some a.progress) ::ₘ hand))
      (m.doing a request ++ m.since (m.serve a home request) a.run)
      ((m.serve a home request).standing a.run hand) := by
  have hsame : m.view a.run = { m.view a.run with context := some c } := by
    rw [← hcontext]
    rfl
  have hmodify (change : Context → Context) : (m.modifyContext a.run change).view a.run =
      { m.view a.run with context := some (change c) } := by
    rw [view_modifyContext, show (m.view a.run).context = some c from hcontext, Option.map_some]
  have hended (ending : Ending) (hending : request.ending? = some ending) :=
    steps_conclude hcontext haccepts (.ended hresumes hending) hand
  have hfetched {world : World} {later : Progress}
      (hloads : Loader.Loads m.world.interpreter world.interpreter)
      (hasks : request.Asks c.config c.bindings a.call [] later)
      (hserve : m.serve a home request = ({ m with world } : Machine).enter a home later) :
      Standing.Steps m.provider.registry (m.standing a.run ((a.call, some a.progress) ::ₘ hand))
        (m.since (m.serve a home request) a.run)
        ((m.serve a home request).standing a.run hand) := by
    have hview :
        ({ m with world } : Machine).view a.run = { m.view a.run with context := some c } :=
      (view_world hloads a.run).trans hsame
    rw [hserve]
    exact steps_answered hcontext hresumes hasks hview (endings_of_events rfl _)
      ⟨c.tracker, c.outputs, rfl⟩ home hand
  cases request with
  | succeed => exact hended .done rfl
  | fail failure => exact hended (.failed failure) rfl
  | panic message => exact hended (.panicked message) rfl
  | read node pin next =>
    have hanswer : (m.context? a.run).bind (·.read? node pin) = c.bindings.get? (node, pin) := by
      rw [hcontext]
      rfl
    rw [doing, serve, hanswer]
    exact steps_answered hcontext hresumes (.read node pin next) hsame rfl
      ⟨c.tracker, c.outputs, rfl⟩ home hand
  | write pin value next =>
    exact steps_answered hcontext hresumes (.write pin value next) (hmodify _)
      (endings_of_events rfl _) ⟨c.tracker, c.outputs, rfl⟩ home hand
  | publish name value next =>
    exact steps_answered hcontext hresumes (.publish name value next) (hmodify _)
      (endings_of_events rfl _) ⟨c.tracker, _, rfl⟩ home hand
  | log level message next =>
    have hview : (m.record (.logged a.run a.call.node level message)).view a.run =
        { m.view a.run with context := some c } := hsame
    have hendings : (m.record (.logged a.run a.call.node level message)).endings a.run =
        m.endings a.run := by
      simp [endings, record]
    exact steps_answered hcontext hresumes (.log level message next) hview hendings
      ⟨c.tracker, c.outputs, rfl⟩ home hand
  | trigger pin next => exact steps_trigger hcontext hwired hresumes home hand
  | join scopes next =>
    obtain ⟨held, -, -, -, -, hview⟩ := takeTickets_eq hcontext scopes
    exact steps_answered hcontext hresumes (.join scopes next _) hview
      (endings_of_events (events_takeTickets a.run scopes m) _) ⟨_, c.outputs, rfl⟩ home hand
  | load form id next =>
    obtain ⟨world, hloads, hbegin⟩ := beginFetch_cases haloof id
    rcases hbegin with ⟨error, hbegin⟩ | ⟨due, loader, fetch, hbegin, -⟩
    · exact hfetched hloads (.loadRefused form id next error) (by rw [serve, hbegin])
    · exact hfetched hloads (.loading form id next due loader fetch) (by rw [serve, hbegin])
  | find id next =>
    cases hloaded : c.config.loaded.get? id with
    | some loaded =>
      have hserve : m.serve a home (.find id next) =
          m.enter a home (.going (next (.ok loaded))) := by
        simp [serve, hcontext, hloaded]
      have hfinds : c.config.Finds id (.ok loaded) := fun other hother ↦
        Or.inl (Except.ok.inj hother ▸ hloaded)
      rw [hserve]
      exact steps_answered hcontext hresumes (.found id next _ hfinds) hsame rfl
        ⟨c.tracker, c.outputs, rfl⟩ home hand
    | none =>
      obtain ⟨world, hloads, hbegin⟩ := beginFetch_cases haloof id
      rcases hbegin with ⟨error, hbegin⟩ | ⟨due, loader, fetch, hbegin, -⟩
      · have hfinds : c.config.Finds id (.error error) := fun loaded hother ↦ by cases hother
        exact hfetched hloads (.found id next (.error error) hfinds)
          (by simp [serve, hcontext, hloaded, hbegin])
      · exact hfetched hloads (.finding id next due loader fetch hloaded)
          (by simp [serve, hcontext, hloaded, hbegin])
  | nest graph inputs next => exact absurd rfl (hrequest graph inputs next)
  | sleep milliseconds next =>
    exact steps_answered hcontext hresumes (.sleep milliseconds _ next) hsame rfl
      ⟨c.tracker, c.outputs, rfl⟩ home hand
  | yield next => exact steps_paused hcontext hresumes rfl home hand
  | stall => exact steps_paused hcontext hresumes rfl home hand

end Blueprint.Machine

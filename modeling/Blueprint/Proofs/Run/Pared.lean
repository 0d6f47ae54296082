import Blueprint.Proofs.Fetch.Blind
import Blueprint.Proofs.Run.Reach
import Blueprint.Run.Execution

/-!
The inputs of a run that are not read. `Machine.pared` takes them away: from the run in the
interpreter, and from its context, which keeps all that the run was given. No move makes a difference
to that: a machine comes to the same, moved and then pared or pared and then moved
(`step_pared`, `run_pared`), and neither does a wait (`await_pared`).
-/

set_option autoImplicit false

namespace Blueprint.Machine

/-- The machine, one run of which has only the inputs that its graph reads. -/
def pared (m : Machine) (run : RunId) : Machine :=
  { m with
    contexts := m.contexts.mapAt run fun c ↦ { c with inputs := none }
    world := m.world.pared run }

variable {m : Machine} {run other : RunId} {a : Activity}

/-! ### The state -/

theorem interpreter_pared (m : Machine) (run : RunId) :
    (m.pared run).world.interpreter = m.world.interpreter.pared run := rfl

theorem provider_pared (m : Machine) (run : RunId) : (m.pared run).provider = m.provider := rfl

theorem world_pared (m : Machine) (run : RunId) : (m.pared run).world = m.world.pared run := rfl

theorem context?_pared (m : Machine) (run other : RunId) :
    (m.pared run).context? other = (m.context? other).map fun c ↦
      { c with inputs := if other = run then none else c.inputs } := by
  refine (m.contexts.get?_mapAt run other _).trans ?_
  refine congrArg (fun f ↦ (m.context? other).map f) (funext fun c ↦ ?_)
  split_ifs <;> rfl

/-- Assumes: a change that does not concern the inputs. -/
theorem modifyContext_pared {change : Context → Context}
    (hchange : ∀ c : Context, change { c with inputs := none } = { change c with inputs := none })
    (m : Machine) (run other : RunId) :
    (m.pared run).modifyContext other change = (m.modifyContext other change).pared run :=
  congrArg (fun contexts ↦ ({ m.pared run with contexts } : Machine))
    (m.contexts.modify_mapAt fun _ ↦ hchange)

theorem withInterpreter_pared (m : Machine) (run : RunId) (e : Interpreter) :
    (m.pared run).withInterpreter (e.pared run) = (m.withInterpreter e).pared run := rfl

theorem enter_pared (m : Machine) (run : RunId) (a : Activity) (home : Option Nat)
    (progress : Progress) :
    (m.pared run).enter a home progress = (m.enter a home progress).pared run := rfl

theorem bindings_pared (m : Machine) (run other : RunId) :
    (m.pared run).bindings other = m.bindings other := by
  rw [bindings, bindings, context?_pared]
  cases m.context? other <;> rfl

theorem config_pared (m : Machine) (run other : RunId) :
    ((m.pared run).context? other).map (·.config) = (m.context? other).map (·.config) := by
  rw [context?_pared]
  cases m.context? other <;> rfl

theorem spawn_pared (m : Machine) (run : RunId) (a : Activity) :
    (m.pared run).spawn a = (m.spawn a).pared run := by
  rw [spawn, spawn, context?_pared]
  cases m.context? a.run with
  | none => rfl
  | some c =>
    dsimp only [Option.map_some]
    split_ifs <;> rfl

theorem isFinished_pared (m : Machine) (run other : RunId) :
    (m.pared run).isFinished other = m.isFinished other := by
  rw [isFinished, isFinished, context?_pared]
  cases m.context? other <;> rfl

theorem endRun_pared (m : Machine) (run other : RunId) :
    (m.pared run).endRun other = (m.endRun other).pared run := by
  rw [endRun, interpreter_pared, Interpreter.endRun_pared]
  rfl

theorem conclusion_pared (m : Machine) (run other : RunId) :
    (m.pared run).conclusion other =
      ((m.conclusion other).1, (m.conclusion other).2.pared run) := by
  rw [conclusion, context?_pared, endRun_pared]
  cases hcontext : m.context? other <;> simp only [conclusion, hcontext] <;> rfl

theorem refuse_pared (m : Machine) (run other : RunId) (e : EngineError) :
    (m.pared run).refuse other e = ((m.refuse other e).1, (m.refuse other e).2.pared run) := by
  rw [refuse, endRun_pared]
  rfl

/-! ### Callbacks -/

theorem completed_pared (m : Machine) (run other : RunId) (scope : Nat) :
    (m.pared run).completed other scope = (m.completed other scope).pared run := by
  rw [completed, completed, context?_pared]
  cases m.context? other with
  | none => rfl
  | some c =>
    dsimp only [Option.map_some]
    rw [modifyContext_pared (fun _ ↦ rfl)]
    cases (c.tracker.complete scope).firing <;> rfl

theorem note_pared (m : Machine) (run other : RunId) (callback : Callback) :
    (m.pared run).note other callback = (m.note other callback).pared run := by
  cases callback with
  | dispatched scope => exact modifyContext_pared (fun _ ↦ rfl) m run other
  | completed scope => exact completed_pared m run other scope
  | bind node pin value => exact modifyContext_pared (fun _ ↦ rfl) m run other
  | invoke call => rfl

theorem finishScope_pared (m : Machine) (run other : RunId) (scope : Nat) :
    (m.pared run).finishScope other scope =
      ((m.finishScope other scope).1, (m.finishScope other scope).2.pared run) := by
  rw [finishScope, finishScope,
    interpreter_pared, Interpreter.finish_pared]
  generalize m.world.interpreter.finish other scope = reply
  rw [Interpreter.Reply.pared, withInterpreter_pared,
    List.foldl_hom (fun m ↦ m.pared run) fun m callback ↦ note_pared m run other callback]
  cases reply.outcome <;> rfl

theorem conclude_pared (m : Machine) (run other : RunId) (call : NodeCall) (ending : Ending) :
    (m.pared run).conclude other call ending = (m.conclude other call ending).pared run := by
  rw [conclude, conclude, modifyContext_pared (fun _ ↦ rfl),
    ← apply_ite fun m : Machine ↦ m.pared run, finishScope_pared]
  rfl

theorem invoke_pared (m : Machine) (run other : RunId) (call : NodeCall) :
    (m.pared run).invoke other call = (m.invoke other call).pared run := by
  rw [invoke, invoke, context?_pared, provider_pared]
  cases m.context? other with
  | none => rfl
  | some c =>
    dsimp only [Option.map_some]
    cases m.provider.registry.get? call.kind with
    | none => exact conclude_pared m run other call _
    | some kind =>
      dsimp only
      cases kind.mode with
      | async => exact spawn_pared m run _
      | sync =>
        dsimp only
        rw [modifyContext_pared (fun _ ↦ rfl)]
        split_ifs <;> rfl

theorem receive_pared (m : Machine) (run other : RunId) (callback : Callback) :
    (m.pared run).receive other callback = (m.receive other callback).pared run := by
  cases callback with
  | invoke call => exact invoke_pared m run other call
  | dispatched scope => exact note_pared m run other (.dispatched scope)
  | completed scope => exact note_pared m run other (.completed scope)
  | bind node pin value => exact note_pared m run other (.bind node pin value)

theorem accept_pared {α : Type} (m : Machine) (run other : RunId) (reply : Interpreter.Reply α) :
    (m.pared run).accept other (reply.pared run) = (m.accept other reply).pared run := by
  rw [accept, accept, Interpreter.Reply.pared, withInterpreter_pared,
    List.foldl_hom (fun m ↦ m.pared run) fun m callback ↦ receive_pared m run other callback]

/-! ### Runs -/

theorem open_pared (h : m.nextRun ≠ run) (graph : GraphInstance) (config : RunConfig)
    (hasTasks : Bool) :
    (m.pared run).open_ graph config hasTasks =
      ((m.open_ graph config hasTasks).1, (m.open_ graph config hasTasks).2.pared run) :=
  congrArg (fun contexts ↦
      (m.nextRun, ({ m.pared run with contexts, nextRun := m.nextRun + 1 } : Machine)))
    (m.contexts.insert_mapAt_of_ne h _ _)

/-- What a start comes to, the first one or a later one. -/
theorem start_of_context {c : Context} (hcontext : m.context? run = some c) (inputs : Inputs) :
    m.start run inputs =
      ((m.world.interpreter.execute c.graph.handle run (c.inputs.getD inputs) c.bindings).outcome,
        (m.withInputs run (c.inputs.getD inputs)).accept run
          (m.world.interpreter.execute c.graph.handle run (c.inputs.getD inputs) c.bindings)) := by
  simp only [start, hcontext]
  rfl

theorem withInputs_pared_of_ne (h : other ≠ run) (m : Machine) (inputs : Inputs) :
    (m.pared run).withInputs other inputs = (m.withInputs other inputs).pared run :=
  congrArg (fun contexts ↦
      ({ m.pared run with contexts, executions := m.executions + 1 } : Machine))
    (m.contexts.modify_mapAt fun heq ↦ absurd heq h)

/-- The start of another run. -/
theorem start_pared (h : other ≠ run) (m : Machine) (inputs : Inputs) :
    (m.pared run).start other inputs =
      ((m.start other inputs).1, (m.start other inputs).2.pared run) := by
  cases hcontext : m.context? other with
  | none =>
    have hpared : (m.pared run).context? other = none := by rw [context?_pared, hcontext]; rfl
    simp only [start, hcontext, hpared]
  | some c =>
    have hpared : (m.pared run).context? other = some c := by
      rw [context?_pared, hcontext, Option.map_some, if_neg h]
    rw [start_of_context hcontext, start_of_context hpared, withInputs_pared_of_ne h,
      interpreter_pared, Interpreter.execute_pared h, accept_pared]
    rfl

/-! ### Moves -/

theorem canGoOn_pared (m : Machine) (run : RunId) (a : Activity) :
    (m.pared run).canGoOn a = m.canGoOn a := by
  unfold canGoOn
  cases a.progress with
  | joining tickets rest =>
    dsimp only
    rw [context?_pared]
    cases m.context? a.run <;> rfl
  | nesting child next => exact isFinished_pared m run child
  | going | sleeping | fetchingAsset | fetchingGraph | stalled => rfl

theorem suspend_pared (m : Machine) (run : RunId) (a : Activity) (home : Option Nat) :
    (m.pared run).suspend a home = (m.suspend a home).pared run := by
  cases home with
  | none => exact spawn_pared m run a
  | some task => rfl

theorem takeTickets_pared (run other : RunId) (scopes : List Nat) (m : Machine) :
    takeTickets other scopes (m.pared run) =
      ((takeTickets other scopes m).1, (takeTickets other scopes m).2.pared run) := by
  induction scopes generalizing m with
  | nil => rfl
  | cons scope rest ih =>
    rw [takeTickets, takeTickets, context?_pared]
    cases m.context? other with
    | none => rfl
    | some c =>
      have hmodify : (m.pared run).modifyContext other (fun other ↦
            { other with tracker := (c.tracker.wait scope m.nextTicket).1 }) =
          (m.modifyContext other fun other ↦
            { other with tracker := (c.tracker.wait scope m.nextTicket).1 }).pared run :=
        modifyContext_pared (fun _ ↦ rfl) m run other
      have hrest := ih { m.modifyContext other fun other ↦
        { other with tracker := (c.tracker.wait scope m.nextTicket).1 } with
          nextTicket := m.nextTicket + 1 }
      exact congrArg (fun answer : List Nat × Machine ↦
          (if (c.tracker.wait scope m.nextTicket).2 then m.nextTicket :: answer.1 else answer.1,
            answer.2))
        ((congrArg (fun later : Machine ↦
          takeTickets other rest { later with nextTicket := m.nextTicket + 1 }) hmodify).trans hrest)

theorem beginFetch_pared (h : m.provider.Blind) (run : RunId) (id : String) :
    (m.pared run).beginFetch id = ((m.beginFetch id).1, (m.beginFetch id).2.pared run) := by
  unfold beginFetch
  rw [provider_pared]
  cases m.provider.lookup id with
  | error e => rfl
  | ok d =>
    have hstart := (h.start d).pares run m.world
    dsimp only
    rw [world_pared, hstart]
    rfl

/-- What was waited for is the same. -/
theorem resume_pared (h : m.provider.Blind) {progress : Progress} {owner : RunId}
    (hfits : progress.Fits m.provider owner) (run : RunId) :
    (m.pared run).resume progress = ((m.resume progress).1, (m.resume progress).2.pared run) := by
  have hcache {loader : Loader} (heq : loader.cache = m.provider.cache) : loader.CacheBlind :=
    fun cache hsome ↦ h.cache cache (heq ▸ hsome)
  cases progress with
  | fetchingAsset due loader fetch form next =>
    have hfinish := (hcache hfits).finish run fetch
      (fun bytes ↦ (Provider.blind_assetDecoder form fetch.descriptor bytes).pares run) m.world
    unfold resume
    dsimp only
    rw [world_pared, hfinish]
    rfl
  | fetchingGraph due loader fetch next =>
    have hfinish := (hcache hfits).finish run fetch
      (fun bytes ↦ Decoder.pares_blueprint m.provider.registry m.provider.supported fetch.descriptor
        bytes) m.world
    unfold resume
    dsimp only
    rw [world_pared, provider_pared]
    unfold Provider.blueprints
    rw [hfinish]
    rfl
  | nesting child next =>
    unfold resume
    dsimp only
    rw [conclusion_pared]
  | going rest => rfl
  | sleeping due rest => rfl
  | joining tickets rest => rfl
  | stalled => rfl

/-- Assumes: the run is not one that is begun by the request. -/
theorem serve_pared (h : m.provider.Blind) (hrun : m.nextRun ≠ run) (a : Activity)
    (home : Option Nat) (request : Behaviour) :
    (m.pared run).serve a home request = (m.serve a home request).pared run := by
  cases request with
  | succeed => exact conclude_pared m run _ _ _
  | fail failure => exact conclude_pared m run _ _ _
  | panic message => exact conclude_pared m run _ _ _
  | read node pin next =>
    have hread : ((m.pared run).context? a.run).bind (·.read? node pin) =
        (m.context? a.run).bind (·.read? node pin) := by
      rw [context?_pared]
      cases m.context? a.run <;> rfl
    rw [serve, serve, hread, enter_pared]
  | write pin value next =>
    rw [serve, serve, modifyContext_pared (fun _ ↦ rfl), enter_pared]
  | publish name value next =>
    rw [serve, serve, modifyContext_pared (fun _ ↦ rfl), enter_pared]
  | log level message next => rfl
  | trigger pin next =>
    rw [serve, serve, bindings_pared, interpreter_pared, Interpreter.trigger_pared, enter_pared,
      accept_pared]
    rfl
  | join scopes next =>
    rw [serve, serve, takeTickets_pared]
    rfl
  | load form id next =>
    rw [serve, serve, beginFetch_pared h]
    obtain ⟨error | ⟨due, loader, fetch⟩, later⟩ := m.beginFetch id <;> rfl
  | find id next =>
    have hloaded : (((m.pared run).context? a.run).bind fun c ↦ c.config.loaded.get? id) =
        (m.context? a.run).bind fun c ↦ c.config.loaded.get? id := by
      rw [context?_pared]
      cases m.context? a.run <;> rfl
    rw [serve, serve, hloaded, beginFetch_pared h]
    cases (m.context? a.run).bind fun c ↦ c.config.loaded.get? id with
    | some loaded => rfl
    | none =>
      obtain ⟨error | ⟨due, loader, fetch⟩, later⟩ := m.beginFetch id <;> rfl
  | nest graph inputs next =>
    rw [serve, serve, config_pared, open_pared hrun]
    generalize ((m.context? a.run).map (·.config)).getD {} = config
    -- The run that is begun gets a new number, so it is another one.
    have hchild : (m.open_ graph config true).1 ≠ run := hrun
    generalize m.open_ graph config true = opened at hchild
    obtain ⟨child, opened⟩ := opened
    dsimp only
    rw [enter_pared, start_pared hchild]
    obtain ⟨error | scope, later⟩ := (opened.enter a home (.nesting child next)).start child inputs
    · dsimp only
      rw [refuse_pared]
      rfl
    · rfl
  | sleep milliseconds next => rfl
  | yield next => exact suspend_pared m run _ home
  | stall => exact suspend_pared m run _ home

theorem Later.blind {later : Machine} (h : Later m later) (hblind : m.provider.Blind) :
    later.provider.Blind := by
  rw [h.provider_eq]
  exact hblind

theorem advance_drain_pared (run : RunId) {owner : RunId} {rest : List Frame}
    (hframes : m.frames = .drain owner :: rest) :
    (m.pared run).advance = m.advance.pared run := by
  rw [advance, advance, show (m.pared run).frames = .drain owner :: rest from hframes, hframes]
  dsimp only
  rw [context?_pared]
  cases m.context? owner with
  | none => rfl
  | some c =>
    dsimp only [Option.map_some]
    rw [modifyContext_pared (fun _ ↦ rfl)]
    generalize (m.modifyContext owner _) = popped
    cases c.queue.pop.1 with
    | none => rfl
    | some call =>
      dsimp only
      rw [provider_pared]
      cases popped.provider.registry.get? call.kind with
      | none => exact conclude_pared popped run owner call _
      | some kind => rfl

theorem advance_node_pared (h : m.Housed) (hblind : m.provider.Blind) (hrun : run < m.nextRun)
    {home : Option Nat} {rest : List Frame} (hframes : m.frames = .node a home :: rest) :
    (m.pared run).advance = m.advance.pared run := by
  have hpared : (m.pared run).frames = .node a home :: rest := hframes
  cases hcan : m.canGoOn a with
  | false =>
    rw [advance_shelved hpared ((canGoOn_pared m run a).trans hcan), advance_shelved hframes hcan]
    exact suspend_pared { m with frames := rest } run a home
  | true =>
    obtain ⟨c, hcontext⟩ := h.context_of_frame hframes
    have hrests := h.rests hframes hcan hcontext
    -- What the node waited for is taken in first, and that may have changed the world already.
    have hresume := resume_pared (m := { m with frames := rest }) hblind (h.fits_of_frame hframes) run
    have hserve := serve_pared (hrests.later.blind hblind)
      (Nat.ne_of_gt (Nat.lt_of_lt_of_le hrun hrests.later.nextRun_le)) a home
      (({ m with frames := rest } : Machine).resume a.progress).1
    rw [advance_served hpared ((canGoOn_pared m run a).trans hcan), advance_served hframes hcan,
      ← hserve]
    exact congrArg (fun resumed ↦ resumed.2.serve a home resumed.1) hresume

/-- What is on top of the frames moves alike. -/
theorem advance_pared (h : m.Housed) (hblind : m.provider.Blind) (hrun : run < m.nextRun) :
    (m.pared run).advance = m.advance.pared run := by
  cases hframes : m.frames with
  | nil => rw [advance, advance, hframes, show (m.pared run).frames = [] from hframes]
  | cons frame rest =>
    cases frame with
    | drain owner => exact advance_drain_pared run hframes
    | node a home => exact advance_node_pared h hblind hrun hframes

theorem poll_pared (m : Machine) (run : RunId) (task : Nat) :
    (m.pared run).poll task = (m.poll task).pared run := by
  rw [poll, poll, show (m.pared run).frames = m.frames from rfl,
    show (m.pared run).tasks = m.tasks from rfl]
  cases m.frames with
  | cons frame rest => rfl
  | nil =>
    cases takeTask task m.tasks with
    | none => rfl
    | some found =>
      obtain ⟨a, tasks⟩ := found
      dsimp only
      rw [canGoOn_pared]
      split_ifs <;> rfl

/-- Every move comes to the same. -/
theorem step_pared (h : m.Housed) (hblind : m.provider.Blind) (hrun : run < m.nextRun)
    (move : Move) : (m.pared run).step move = (m.step move).pared run := by
  cases move with
  | advance => exact advance_pared h hblind hrun
  | poll task => exact poll_pared m run task
  | tick moment => rfl

/-! ### Schedules and waits -/

/-- What holds of all machines that a schedule passes through. -/
structure Pareable (m : Machine) (run : RunId) : Prop where
  sound : ∃ history, m.Sound history
  blind : m.provider.Blind
  lt_nextRun : run < m.nextRun

theorem Pareable.step (h : m.Pareable run) (move : Move) : (m.step move).Pareable run := by
  obtain ⟨history, hsound⟩ := h.sound
  have hlater := later_step hsound.housed move
  exact
    { sound := ⟨_, hsound.happens (.moved move)⟩
      blind := hlater.blind h.blind
      lt_nextRun := Nat.lt_of_lt_of_le h.lt_nextRun hlater.nextRun_le }

theorem Pareable.step_pared (h : m.Pareable run) (move : Move) :
    (m.pared run).step move = (m.step move).pared run := by
  obtain ⟨history, hsound⟩ := h.sound
  exact Machine.step_pared hsound.housed h.blind h.lt_nextRun move

/-- Every schedule comes to the same. -/
theorem run_pared (h : m.Pareable run) (schedule : List Move) :
    (m.pared run).run schedule = (m.run schedule).pared run := by
  induction schedule generalizing m with
  | nil => rfl
  | cons move rest ih =>
    change ((m.pared run).step move).run rest = ((m.step move).run rest).pared run
    rw [h.step_pared move, ih (h.step move)]

theorem nextMove_pared (m : Machine) (run : RunId) (limit : Option Nat) :
    (m.pared run).nextMove limit = m.nextMove limit := by
  have hready : (m.pared run).nextReady = m.nextReady :=
    congrArg (fun ready : Nat × Activity → Bool ↦ (m.tasks.find? ready).map Prod.fst)
      (funext fun entry ↦ canGoOn_pared m run entry.2)
  rw [nextMove, nextMove, hready]
  rfl

/-- Assumes: what is waited for does not lie in inputs that are not read. -/
theorem await_pared (h : m.Pareable run) (holds : Machine → Bool)
    (hholds : ∀ m : Machine, holds (m.pared run) = holds m) (limit : Option Nat) (steps : Nat) :
    await holds limit steps (m.pared run) =
      ((await holds limit steps m).1, (await holds limit steps m).2.pared run) := by
  -- Whether to wait on, and the move that is made then, do not depend on what is taken away.
  induction steps generalizing m with
  | zero => rfl
  | succ steps ih =>
    rw [await, await, hholds, nextMove_pared, show (m.pared run).frames = m.frames from rfl,
      show (m.pared run).now = m.now from rfl]
    split_ifs
    · rfl
    · rfl
    · cases m.nextMove limit with
      | none => rfl
      | some move =>
        dsimp only
        rw [h.step_pared move, ih (h.step move)]

theorem lateResult_pared (m : Machine) (run other : RunId) :
    (m.pared run).lateResult other =
      ((m.lateResult other).1, (m.lateResult other).2.pared run) := by
  rw [lateResult, lateResult, context?_pared, endRun_pared]
  cases m.context? other <;> rfl

end Blueprint.Machine

import Blueprint.Proofs.Run.Effects

/-!
The moves of the machine, run by run. Main statement: a move changes each run by its own work, by
ending it for a node that has waited for it, by beginning it for a node that waits from then on, or
not at all (`Machine.changes_step`).
-/

set_option autoImplicit false

namespace Blueprint.Machine

variable {m base : Machine} {run : RunId} {a : Activity} {c : Context}

/-! ### Triggers -/

theorem concerns_trigger (m : Machine) (run : RunId) (scope : Nat) (node pin : String)
    (view : Bindings) :
    Concerns run m (m.accept run (m.world.interpreter.trigger run scope node pin view)) :=
  concerns_accept (Interpreter.graphs_trigger _ _ _ _ _ _)
    fun _ hother ↦ Interpreter.get?_runs_trigger (Ne.symm hother) _ _ _ _

theorem view_accept_of_error {reply : Interpreter.Reply Nat} (hstate : reply.state = m.world.interpreter)
    (hcallbacks : reply.callbacks = []) (run : RunId) : (m.accept run reply).view run = m.view run := by
  rw [view_accept_of_quiet (by simp [hcallbacks]), hstate, hcallbacks]
  simp [Context.noteAll, view]

/-- Assumes: the graph of the run, if it is under way, is wired. -/
theorem serves_trigger (hbase : Later base m) (hcontext : m.context? a.run = some c)
    (hwired : ∀ active, m.world.interpreter.runs.get? a.run = some active → active.graph.Wired)
    (home : Option Nat) (pin : String) (next : Except EngineError Nat → Behaviour) :
    Concerns a.run m (m.serve a home (.trigger pin next)) ∧
      ∃ lost, RunView.Serves base (m.serve a home (.trigger pin next)) a.run (m.view a.run) c a home
        (.trigger pin next) ((m.serve a home (.trigger pin next)).view a.run) [] lost := by
  have hserve : m.serve a home (.trigger pin next) =
      (m.enter a home (.going (next (m.world.interpreter.trigger a.run a.call.scope a.call.node pin
        (m.bindings a.run)).outcome))).accept a.run
        (m.world.interpreter.trigger a.run a.call.scope a.call.node pin (m.bindings a.run)) := rfl
  rw [hserve]
  refine ⟨(concerns_enter m a home _).trans (concerns_trigger _ _ _ _ _ _), ?_⟩
  have henter (progress : Progress) : (m.enter a home progress).view a.run =
      { m.view a.run with
        context := some c
        frames := .node { a with progress } home :: (m.view a.run).frames } := by
    rw [view_enter]
    simp [view, hcontext]
  cases hactive : m.world.interpreter.runs.get? a.run with
  | none =>
    rw [Interpreter.trigger_of_no_run hactive, view_accept_of_error rfl rfl, henter]
    exact ⟨_, .answered (.refused pin next _)⟩
  | some active =>
    have htriggers := Interpreter.triggers_trigger hactive (hwired active hactive) a.call.scope
      a.call.node pin (m.bindings a.run)
    generalize m.world.interpreter.trigger a.run a.call.scope a.call.node pin
      (m.bindings a.run) = reply at htriggers
    cases htriggers with
    | refused error hpin =>
      rw [view_accept_of_error rfl rfl, henter]
      exact ⟨_, .answered (.refused pin next error)⟩
    | unwired hpin =>
      rw [view_accept_of_quiet (by simp), henter]
      simp only [Table.get?_insert_self]
      exact ⟨_, .unwired pin next active hactive hpin⟩
    | wired target hpin htarget =>
      obtain ⟨bindings, lost, hinvokes⟩ := invokes_accept
        { outcome := Except.ok active.scopes.next
          state := { m.world.interpreter with
            runs := m.world.interpreter.runs.insert a.run
              { active with scopes := active.scopes.openNext true a.call.scope } }
          callbacks := .dispatched active.scopes.next ::
            Interpreter.startNode active.inputs (m.bindings a.run) target active.scopes.next }
        (congrArg RunView.context (henter (.going (next (.ok active.scopes.next)))))
        (hbase.trans (concerns_enter m a home _).toLater) rfl
        (fun other hother ↦ Table.get?_insert_of_ne _ (Ne.symm hother) _) rfl
      rw [henter] at hinvokes
      simp only [Table.get?_insert_self] at hinvokes
      exact ⟨lost, .wired pin next active target bindings hactive hpin htarget hinvokes⟩

/-! ### Tickets -/

theorem wait_eq (t : Tracker) (scope ticket : Nat) :
    t.wait scope ticket = if t.isPending scope then
      ({ t with waiters := t.waiters ++ [(scope, ticket)] }, true) else (t, false) := rfl

/-- The tickets that are taken, each with the scope it is for. -/
theorem takeTickets_eq (hcontext : m.context? run = some c) (scopes : List Nat) :
    ∃ held : List (Nat × Nat), (takeTickets run scopes m).1 = held.map (·.2) ∧
      (∀ waiter ∈ held, waiter.1 ∈ scopes ∧ c.tracker.isPending waiter.1 = true ∧
        m.nextTicket ≤ waiter.2 ∧ waiter.2 < (takeTickets run scopes m).2.nextTicket) ∧
      (∀ scope ∈ scopes, c.tracker.isPending scope = true → ∃ waiter ∈ held, waiter.1 = scope) ∧
      Concerns run m (takeTickets run scopes m).2 ∧
      (takeTickets run scopes m).2.view run = { m.view run with
        context := some
          { c with tracker := { c.tracker with waiters := c.tracker.waiters ++ held } } } := by
  induction scopes generalizing m c with
  | nil =>
    refine ⟨[], rfl, by simp, by simp, .refl run m, ?_⟩
    simp [takeTickets, view, hcontext]
  | cons scope rest ih =>
    have hview (tracker : Tracker) (next : Nat) :
        ({ m.modifyContext run fun c ↦ { c with tracker } with nextTicket := next } : Machine).view
          run = { m.view run with context := some { c with tracker } } := by
      have hmodify := view_modifyContext m run fun c ↦ { c with tracker }
      rw [show (m.view run).context = some c from hcontext] at hmodify
      exact hmodify
    have hconcerns (tracker : Tracker) : Concerns run m
        { m.modifyContext run fun c ↦ { c with tracker } with nextTicket := m.nextTicket + 1 } :=
      ⟨⟨rfl, Nat.le_refl _, Nat.le_refl _, Nat.le_refl _, Nat.le_succ _, fun haccepted ↦ haccepted⟩,
        (concerns_modifyContext m run _).view_eq⟩
    cases hpending : c.tracker.isPending scope with
    | true =>
      rw [takeTickets]
      simp only [hcontext, wait_eq, hpending, ↓reduceIte]
      obtain ⟨held, htickets, hheld, hall, hrest, hlast⟩ := ih
        (congrArg RunView.context (hview
          { c.tracker with waiters := c.tracker.waiters ++ [(scope, m.nextTicket)] }
          (m.nextTicket + 1)))
      refine ⟨(scope, m.nextTicket) :: held, ?_, ?_, ?_, (hconcerns _).trans hrest, ?_⟩
      · rw [List.map_cons]
        exact congrArg _ htickets
      · intro waiter hwaiter
        rcases List.mem_cons.mp hwaiter with rfl | hwaiter
        · exact ⟨List.mem_cons_self, hpending, Nat.le_refl _, hrest.nextTicket_le⟩
        · obtain ⟨hmem, hwaits, hlow, hhigh⟩ := hheld waiter hwaiter
          exact ⟨List.mem_cons_of_mem _ hmem, hwaits, Nat.le_of_succ_le hlow, hhigh⟩
      · intro other hother hwaits
        rcases List.mem_cons.mp hother with rfl | hother
        · exact ⟨_, List.mem_cons_self, rfl⟩
        · obtain ⟨waiter, hwaiter, heq⟩ := hall other hother hwaits
          exact ⟨waiter, List.mem_cons_of_mem _ hwaiter, heq⟩
      · rw [hlast, hview]
        simp
    | false =>
      rw [takeTickets]
      simp only [hcontext, wait_eq, hpending, Bool.false_eq_true, ↓reduceIte]
      obtain ⟨held, htickets, hheld, hall, hrest, hlast⟩ := ih
        (congrArg RunView.context (hview c.tracker (m.nextTicket + 1)))
      refine ⟨held, htickets, ?_, ?_, (hconcerns _).trans hrest, ?_⟩
      · intro waiter hwaiter
        obtain ⟨hmem, hwaits, hlow, hhigh⟩ := hheld waiter hwaiter
        exact ⟨List.mem_cons_of_mem _ hmem, hwaits, Nat.le_of_succ_le hlow, hhigh⟩
      · intro other hother hwaits
        rcases List.mem_cons.mp hother with rfl | hother
        · cases hpending.symm.trans hwaits
        · exact hall other hother hwaits
      · rw [hlast, hview]

/-! ### Fetches -/

theorem concerns_world {world : World} (run : RunId)
    (hloads : Loader.Loads m.world.interpreter world.interpreter) :
    Concerns run m { m with world } where
  provider_eq := rfl
  now_le := Nat.le_refl _
  nextRun_le := Nat.le_refl _
  nextTask_le := Nat.le_refl _
  nextTicket_le := Nat.le_refl _
  accepted := hloads.2
  view_eq := fun other _ ↦ by simp [view, context?, hloads.1]

theorem view_world {world : World} (hloads : Loader.Loads m.world.interpreter world.interpreter)
    (run : RunId) : ({ m with world } : Machine).view run = m.view run := by
  simp [view, context?, hloads.1]

/-- Beginning a fetch changes no run, and the fetch goes through the provider's cache. -/
theorem beginFetch_cases (haloof : m.Aloof) (id : String) :
    ∃ world, Loader.Loads m.world.interpreter world.interpreter ∧
      ((∃ error, m.beginFetch id = (.error error, { m with world })) ∨
        ∃ due loader fetch, m.beginFetch id = (.ok (due, loader, fetch), { m with world }) ∧
          loader.cache = m.provider.cache) := by
  unfold beginFetch
  cases m.provider.lookup id with
  | error error => exact ⟨m.world, ⟨rfl, fun haccepted ↦ haccepted⟩, Or.inl ⟨error, rfl⟩⟩
  | ok d =>
    have hcache : (m.provider.loaderFor d).Aloof := haloof
    have hstart := hcache.interpreter_start d m.world
    exact ⟨((m.provider.loaderFor d).start d m.world).2,
      ⟨by rw [hstart], fun haccepted ↦ by rw [hstart]; exact haccepted⟩,
      Or.inr ⟨_, _, _, rfl, rfl⟩⟩

/-! ### Requests -/

/-- Assumes: a context that is there, and another one in its place. -/
theorem view_enter_of_context {after : Context} (hcontext : (m.view a.run).context = some after)
    (home : Option Nat) (progress : Progress) :
    (m.enter a home progress).view a.run =
      { m.view a.run with
        context := some after
        frames := .node { a with progress } home :: (m.view a.run).frames } := by
  rw [view_enter, ← hcontext]

/-- A request that is answered on the spot. -/
theorem serves_answered {after : Context} {progress : Progress} {request : Behaviour}
    {written : List (String × Value)} {home : Option Nat} {changed served : Machine}
    (hconcerns : Concerns a.run m changed)
    (hchanged : changed.view a.run = { m.view a.run with context := some after })
    (hserved : served = changed.enter a home progress)
    (h : RunView.Answers base served a.run a.call.node c request after progress written) :
    Concerns a.run m served ∧
      RunView.Serves base served a.run (m.view a.run) c a home request (served.view a.run)
        written [] := by
  subst hserved
  refine ⟨hconcerns.trans (concerns_enter changed a home progress), ?_⟩
  rw [view_enter_of_context (congrArg RunView.context hchanged), hchanged]
  exact .answered h

theorem serves_load (hcontext : m.context? a.run = some c) (hbase : Later base m) (haloof : m.Aloof)
    (home : Option Nat) (form : AssetForm) (id : String)
    (next : Except ResolveError Value → Behaviour) :
    Concerns a.run m (m.serve a home (.load form id next)) ∧
      RunView.Serves base (m.serve a home (.load form id next)) a.run (m.view a.run) c a home
        (.load form id next) ((m.serve a home (.load form id next)).view a.run) [] [] := by
  obtain ⟨world, hloads, hbegin⟩ := beginFetch_cases haloof id
  have hview : ({ m with world } : Machine).view a.run =
      { m.view a.run with context := some c } := by
    rw [view_world hloads, ← hcontext]
    rfl
  rcases hbegin with ⟨error, hbegin⟩ | ⟨due, loader, fetch, hbegin, hcache⟩
  · exact serves_answered (concerns_world a.run hloads) hview (by rw [serve, hbegin])
      (.loadRefused form id next error)
  · exact serves_answered (concerns_world a.run hloads) hview (by rw [serve, hbegin])
      (.loading form id next due loader fetch (hcache.trans (congrArg _ hbase.provider_eq)))

theorem serves_find (hcontext : m.context? a.run = some c) (hbase : Later base m) (haloof : m.Aloof)
    (home : Option Nat) (id : String) (next : Except ResolveError LoadedGraph → Behaviour) :
    Concerns a.run m (m.serve a home (.find id next)) ∧
      RunView.Serves base (m.serve a home (.find id next)) a.run (m.view a.run) c a home
        (.find id next) ((m.serve a home (.find id next)).view a.run) [] [] := by
  cases hloaded : c.config.loaded.get? id with
  | some loaded =>
    have hserve : m.serve a home (.find id next) = m.enter a home (.going (next (.ok loaded))) := by
      simp [serve, hcontext, hloaded]
    exact serves_answered (.refl _ m) (by rw [← hcontext]; rfl) hserve (.found id next _)
  | none =>
    obtain ⟨world, hloads, hbegin⟩ := beginFetch_cases haloof id
    have hview : ({ m with world } : Machine).view a.run =
        { m.view a.run with context := some c } := by
      rw [view_world hloads, ← hcontext]
      rfl
    rcases hbegin with ⟨error, hbegin⟩ | ⟨due, loader, fetch, hbegin, hcache⟩
    · exact serves_answered (concerns_world a.run hloads) hview
        (by simp [serve, hcontext, hloaded, hbegin]) (.found id next (.error error))
    · exact serves_answered (concerns_world a.run hloads) hview
        (by simp [serve, hcontext, hloaded, hbegin])
        (.finding id next due loader fetch (hcache.trans (congrArg _ hbase.provider_eq)))

/-- Assumes: a request other than to run a graph on a run of its own. -/
theorem serves_serve (hbase : Later base m) (hcontext : m.context? a.run = some c)
    (hwired : ∀ active, m.world.interpreter.runs.get? a.run = some active → active.graph.Wired)
    (haloof : m.Aloof) (home : Option Nat) {request : Behaviour}
    (hrequest : ∀ graph inputs next, request ≠ .nest graph inputs next) :
    Concerns a.run m (m.serve a home request) ∧
      ∃ lost, RunView.Serves base (m.serve a home request) a.run (m.view a.run) c a home request
        ((m.serve a home request).view a.run) request.published lost := by
  have hsame : m.view a.run = { m.view a.run with context := some c } := by
    rw [← hcontext]
    rfl
  have hmodify (change : Context → Context) : (m.modifyContext a.run change).view a.run =
      { m.view a.run with context := some (change c) } := by
    rw [view_modifyContext, show (m.view a.run).context = some c from hcontext, Option.map_some]
  have hended (ending : Ending) (hending : request.ending? = some ending)
      (hserve : m.serve a home request = m.conclude a.run a.call ending)
      (hpublished : request.published = []) : Concerns a.run m (m.serve a home request) ∧
        ∃ lost, RunView.Serves base (m.serve a home request) a.run (m.view a.run) c a home request
          ((m.serve a home request).view a.run) request.published lost := by
    rw [hserve, hpublished, view_conclude]
    exact ⟨concerns_conclude m a.run a.call ending, _, .ended ending hending⟩
  have hpaused (progress : Progress) (hpause : request.pause? = some progress)
      (hserve : m.serve a home request = m.suspend { a with progress } home)
      (hpublished : request.published = []) : Concerns a.run m (m.serve a home request) ∧
        ∃ lost, RunView.Serves base (m.serve a home request) a.run (m.view a.run) c a home request
          ((m.serve a home request).view a.run) request.published lost := by
    obtain ⟨tasks, lost, hshelves, hview⟩ :=
      shelves_suspend (a := { a with progress }) hcontext home
    rw [hserve, hpublished]
    refine ⟨concerns_suspend m { a with progress } home, ?_⟩
    exact ⟨lost, hview.symm ▸ .paused hpause (shelves_of_later hshelves hbase)⟩
  have hanswered {after : RunView} {written : List (String × Value)} {served : Machine}
      (h : Concerns a.run m served ∧
        RunView.Serves base served a.run (m.view a.run) c a home request after written []) :
      Concerns a.run m served ∧
        ∃ lost, RunView.Serves base served a.run (m.view a.run) c a home request after written lost :=
    ⟨h.1, [], h.2⟩
  cases request with
  | succeed => exact hended .done rfl rfl rfl
  | fail failure => exact hended (.failed failure) rfl rfl rfl
  | panic message => exact hended (.panicked message) rfl rfl rfl
  | read node pin next =>
    refine hanswered (serves_answered (.refl _ m) hsame rfl ?_)
    rw [hcontext]
    exact .read node pin next
  | write pin value next =>
    exact hanswered (serves_answered (concerns_modifyContext m a.run _) (hmodify _) rfl
      (.write pin value next))
  | publish name value next =>
    exact hanswered (serves_answered (concerns_modifyContext m a.run _) (hmodify _) rfl
      (.publish name value next))
  | log level message next =>
    exact hanswered (serves_answered (concerns_record m a.run _) hsame rfl (.log level message next))
  | trigger pin next => exact serves_trigger hbase hcontext hwired home pin next
  | join scopes next =>
    obtain ⟨held, htickets, hheld, hall, hconcerns, hview⟩ := takeTickets_eq hcontext scopes
    refine hanswered (serves_answered hconcerns hview rfl ?_)
    rw [htickets]
    refine .join scopes next held (fun waiter hwaiter ↦ ?_) hall
    obtain ⟨hmem, hpending, hlow, hhigh⟩ := hheld waiter hwaiter
    exact ⟨hmem, hpending, Nat.le_trans hbase.nextTicket_le hlow, hhigh⟩
  | load form id next => exact hanswered (serves_load hcontext hbase haloof home form id next)
  | find id next => exact hanswered (serves_find hcontext hbase haloof home id next)
  | nest graph inputs next => exact absurd rfl (hrequest graph inputs next)
  | sleep milliseconds next =>
    exact hanswered (serves_answered (.refl _ m) hsame rfl (.sleep milliseconds _ next))
  | yield next => exact hpaused (.going next) rfl rfl rfl
  | stall => exact hpaused .stalled rfl rfl rfl

/-! ### Starting -/

/-- A context from its first start on. -/
def withInputs (m : Machine) (run : RunId) (inputs : Inputs) : Machine :=
  { m.modifyContext run fun c ↦ { c with inputs := some inputs } with executions := m.executions + 1 }

theorem start_eq (hcontext : m.context? run = some c) (hinputs : c.inputs = none)
    (inputs : Inputs) :
    m.start run inputs =
      ((m.world.interpreter.execute c.graph.handle run inputs c.bindings).outcome,
        (m.withInputs run inputs).accept run
          (m.world.interpreter.execute c.graph.handle run inputs c.bindings)) := by
  unfold start
  simp only [hcontext, hinputs, Option.getD_none]
  rfl

theorem concerns_withInputs (m : Machine) (run : RunId) (inputs : Inputs) :
    Concerns run m (m.withInputs run inputs) :=
  ⟨.of_eq rfl rfl rfl rfl rfl rfl, (concerns_modifyContext m run _).view_eq⟩

theorem view_withInputs (hcontext : m.context? run = some c) (inputs : Inputs) :
    (m.withInputs run inputs).view run =
      { m.view run with context := some { c with inputs := some inputs } } := by
  have hmodify := view_modifyContext m run fun c ↦ { c with inputs := some inputs }
  rw [show (m.view run).context = some c from hcontext] at hmodify
  exact hmodify

theorem concerns_start (hcontext : m.context? run = some c) (hinputs : c.inputs = none)
    (inputs : Inputs) :
    Concerns run m (m.start run inputs).2 := by
  rw [start_eq hcontext hinputs]
  exact (concerns_withInputs m run inputs).trans
    (concerns_accept (Interpreter.graphs_execute _ _ _ _ _)
      fun _ hother ↦ Interpreter.get?_runs_execute (Ne.symm hother) _ _ _)

/-- Assumes: a first start, and accepted graphs. -/
theorem begins_start (hbase : Later base m) (hcontext : m.context? run = some c)
    (hinputs : c.inputs = none) (haccepted : m.world.interpreter.GraphsAccepted)
    (inputs : Inputs) :
    ∃ lost, RunView.Begins base (m.start run inputs).2 run m.world.interpreter.graphs (m.view run) c
      inputs ((m.start run inputs).2.view run) lost := by
  have hview := view_withInputs hcontext inputs
  rw [start_eq hcontext hinputs]
  cases hgraph : m.world.interpreter.graphs.get? c.graph.handle with
  | none =>
    rw [Interpreter.execute, hgraph]
    simp only
    rw [view_accept_of_error rfl rfl, hview]
    exact ⟨_, .refused hgraph⟩
  | some graph =>
    have hexecutes := Interpreter.executes_execute hgraph (haccepted _ graph hgraph).wired run inputs
      c.bindings
    generalize m.world.interpreter.execute c.graph.handle run inputs c.bindings = reply at hexecutes
    cases hexecutes with
    | entered entry hentry =>
      obtain ⟨bindings, lost, hinvokes⟩ := invokes_accept
        { outcome := Except.ok rootScope
          state := { m.world.interpreter with
            runs := m.world.interpreter.runs.insert run { graph, inputs, scopes := .initial } }
          callbacks := .dispatched rootScope ::
            Interpreter.startNode inputs c.bindings entry rootScope }
        (congrArg RunView.context hview)
        (hbase.trans (concerns_withInputs m run inputs).toLater) rfl
        (fun other hother ↦ Table.get?_insert_of_ne _ (Ne.symm hother) _) rfl
      rw [hview] at hinvokes
      simp only [Table.get?_insert_self] at hinvokes
      exact ⟨lost, .entered graph entry bindings hgraph hentry hinvokes⟩
    | nodeless hnodes =>
      rw [view_accept_of_quiet (by simp), hview]
      simp only [Table.get?_insert_self]
      exact ⟨_, .nodeless graph hgraph hnodes⟩

/-- A first start succeeds exactly when the graph is loaded. -/
theorem start_fst (hcontext : m.context? run = some c) (hinputs : c.inputs = none)
    (haccepted : m.world.interpreter.GraphsAccepted) (inputs : Inputs) :
    (m.start run inputs).1 = if (m.world.interpreter.graphs.get? c.graph.handle).isSome then
      .ok rootScope else .error (.unknownGraph c.graph.handle) := by
  rw [start_eq hcontext hinputs]
  cases hgraph : m.world.interpreter.graphs.get? c.graph.handle with
  | none =>
    rw [Interpreter.execute, hgraph]
    rfl
  | some graph =>
    have hexecutes := Interpreter.executes_execute hgraph (haccepted _ graph hgraph).wired run inputs
      c.bindings
    generalize m.world.interpreter.execute c.graph.handle run inputs c.bindings = reply at hexecutes
    cases hexecutes <;> rfl

/-- A first start that fails does nothing but to keep the inputs. -/
theorem view_start_of_error {inputs : Inputs} {error : EngineError} {later : Machine}
    (hcontext : m.context? run = some c) (hinputs : c.inputs = none)
    (haccepted : m.world.interpreter.GraphsAccepted)
    (hstart : m.start run inputs = (.error error, later)) :
    m.world.interpreter.graphs.get? c.graph.handle = none ∧
      later.view run = { m.view run with context := some { c with inputs := some inputs } } := by
  have houtcome := start_fst hcontext hinputs haccepted inputs
  obtain ⟨lost, hbegins⟩ := begins_start (.refl m) hcontext hinputs haccepted inputs
  have hmissing : m.world.interpreter.graphs.get? c.graph.handle = none := by
    by_contra hloaded
    rw [if_pos (Option.isSome_iff_ne_none.mpr hloaded), hstart] at houtcome
    cases houtcome
  rw [hstart] at hbegins
  simp only at hbegins
  generalize later.view run = after at hbegins
  cases hbegins with
  | refused hgraph => exact ⟨hmissing, rfl⟩
  | entered loaded entry bindings hgraph => cases hmissing.symm.trans hgraph
  | nodeless loaded hgraph => cases hmissing.symm.trans hgraph

/-! ### Graphs on runs of their own -/

theorem concerns_open (m : Machine) (graph : GraphInstance) (config : RunConfig)
    (hasTasks : Bool) : Concerns m.nextRun m (m.open_ graph config hasTasks).2 where
  provider_eq := rfl
  now_le := Nat.le_refl _
  nextRun_le := Nat.le_succ _
  nextTask_le := Nat.le_refl _
  nextTicket_le := Nat.le_refl _
  accepted := fun haccepted ↦ haccepted
  view_eq := fun other hother ↦ by simp [view, context?, open_, Ne.symm hother]

theorem view_open (m : Machine) (graph : GraphInstance) (config : RunConfig) (hasTasks : Bool) :
    (m.open_ graph config hasTasks).2.view m.nextRun =
      { m.view m.nextRun with context := some { graph, config, hasTasks } } := by
  simp [view, context?, open_]

/-- What a node does that runs a graph on a run of its own: it waits for that run, and the run
begins. -/
structure Nests (base m m' : Machine) (a : Activity) (c : Context) (home : Option Nat)
    (graph : GraphInstance) (inputs : Inputs) (next : RunResult → Behaviour) : Prop where
  later : Later m m'
  nextRun_lt : m.nextRun < m'.nextRun
  serves : RunView.Serves base m' a.run (m.view a.run) c a home (.nest graph inputs next)
    (m'.view a.run) [] []
  begins : ∃ config lost, RunView.Begins base m' m.nextRun m.world.interpreter.graphs
    { context := some { graph, config } } { graph, config } inputs (m'.view m.nextRun) lost
  view_eq : ∀ other, other ≠ a.run → other ≠ m.nextRun → m'.view other = m.view other

/-- The machine with a new run, and a node that waits for it. -/
def waiting (m : Machine) (a : Activity) (c : Context) (home : Option Nat) (graph : GraphInstance)
    (next : RunResult → Behaviour) : Machine :=
  (m.open_ graph c.config true).2.enter a home (.nesting m.nextRun next)

section

variable {home : Option Nat} {graph : GraphInstance} {inputs : Inputs} {next : RunResult → Behaviour}
  {later : Machine} {lost : List Nat}

theorem later_waiting : Later m (m.waiting a c home graph next) :=
  (concerns_open m graph c.config true).toLater.trans (concerns_enter _ a home _).toLater

theorem view_waiting (hcontext : m.context? a.run = some c) (hne : a.run ≠ m.nextRun) :
    (m.waiting a c home graph next).view a.run = { m.view a.run with
      context := some c
      frames := .node { a with progress := .nesting m.nextRun next } home ::
        (m.view a.run).frames } := by
  rw [waiting, view_enter, (concerns_open m graph c.config true).view_eq a.run hne]
  simp [view, hcontext]

theorem view_waiting_child (hne : a.run ≠ m.nextRun) (hnew : m.view m.nextRun = {}) :
    (m.waiting a c home graph next).view m.nextRun =
      { context := some { graph, config := c.config } } := by
  rw [waiting, (concerns_enter _ a home _).view_eq _ (Ne.symm hne), view_open, hnew]

theorem view_waiting_other {other : RunId} (hother : other ≠ a.run) (hfresh : other ≠ m.nextRun) :
    (m.waiting a c home graph next).view other = m.view other :=
  ((concerns_enter _ a home _).view_eq other hother).trans
    ((concerns_open m graph c.config true).view_eq other hfresh)

theorem serve_nest_of_ok (hcontext : m.context? a.run = some c) {scope : Nat}
    (hstart : (m.waiting a c home graph next).start m.nextRun inputs = (.ok scope, later)) :
    m.serve a home (.nest graph inputs next) = later := by
  simp only [waiting, open_] at hstart
  simp only [serve, hcontext, Option.map_some, Option.getD_some, open_, hstart]

theorem serve_nest_of_error (hcontext : m.context? a.run = some c) {error : EngineError}
    (hstart : (m.waiting a c home graph next).start m.nextRun inputs = (.error error, later)) :
    m.serve a home (.nest graph inputs next) =
      ({ (later.refuse m.nextRun error).2 with frames := m.frames } : Machine).enter a home
        (.going (next (later.refuse m.nextRun error).1)) := by
  simp only [waiting, open_] at hstart
  simp only [serve, hcontext, Option.map_some, Option.getD_some, open_, hstart]

/-- Assumes: the new run was started. -/
theorem nests_of_ok (hcontext : m.context? a.run = some c) (hold : a.run < m.nextRun)
    (hconcerns : Concerns m.nextRun (m.waiting a c home graph next) later)
    (hbegins : RunView.Begins base later m.nextRun m.world.interpreter.graphs
      { context := some { graph, config := c.config } } { graph, config := c.config } inputs
      (later.view m.nextRun) lost) :
    Nests base m later a c home graph inputs next := by
  have hne : a.run ≠ m.nextRun := Nat.ne_of_lt hold
  refine ⟨later_waiting.trans hconcerns.toLater,
    Nat.lt_of_lt_of_le (Nat.lt_succ_self _) hconcerns.nextRun_le, ?_, ⟨c.config, lost, hbegins⟩,
    fun other hother hfresh ↦ ?_⟩
  · rw [hconcerns.view_eq a.run hne, view_waiting hcontext hne]
    exact .answered (.nesting graph inputs next m.nextRun hold)
  · rw [hconcerns.view_eq other hfresh, view_waiting_other hother hfresh]

/-- Assumes: the new run was refused, so that it has nothing but a context. -/
theorem nests_of_error (hcontext : m.context? a.run = some c) (hold : a.run < m.nextRun)
    (hnew : m.view m.nextRun = {})
    (hconcerns : Concerns m.nextRun (m.waiting a c home graph next) later)
    (hmissing : m.world.interpreter.graphs.get? graph.handle = none)
    (hrefused : later.view m.nextRun =
      { context := some { graph, config := c.config, inputs := some inputs } })
    (error : EngineError) :
    Nests base m (({ (later.refuse m.nextRun error).2 with frames := m.frames } : Machine).enter a home
      (.going (next (later.refuse m.nextRun error).1))) a c home graph inputs next := by
  have hne : a.run ≠ m.nextRun := Nat.ne_of_lt hold
  -- The machine after the refusal, with the frames that were there before.
  generalize hreset : ({ (later.refuse m.nextRun error).2 with frames := m.frames } : Machine) = reset
  have hviews : ∀ other, other ≠ m.nextRun →
      reset.view other = { later.view other with frames := (m.view other).frames } := by
    intro other hother
    rw [← hreset]
    simp [view, refuse, endRun, withInterpreter, Interpreter.endRun, context?, Ne.symm hother]
  have hchild : reset.view m.nextRun =
      { later.view m.nextRun with active := none, frames := (m.view m.nextRun).frames } := by
    rw [← hreset]
    simp [view, refuse, endRun, withInterpreter, Interpreter.endRun, context?]
  have hlater : Later later reset := by
    rw [← hreset]
    exact ⟨rfl, Nat.le_refl _, Nat.le_refl _, Nat.le_refl _, Nat.le_refl _, fun haccepted ↦ haccepted⟩
  have henter := concerns_enter reset a home (.going (next (later.refuse m.nextRun error).1))
  have hafter := hconcerns.toLater.trans (hlater.trans henter.toLater)
  refine ⟨later_waiting.trans hafter, Nat.lt_of_lt_of_le (Nat.lt_succ_self _) hafter.nextRun_le, ?_,
    ⟨c.config, [], ?_⟩, fun other hother hfresh ↦ ?_⟩
  · rw [view_enter, hviews a.run hne, hconcerns.view_eq a.run hne, view_waiting hcontext hne]
    exact .answered (.nestRefused graph inputs next _)
  · rw [henter.view_eq _ (Ne.symm hne), hchild, hrefused, hnew]
    exact .refused hmissing
  · rw [henter.view_eq other hother, hviews other hfresh, hconcerns.view_eq other hfresh,
      view_waiting_other hother hfresh]

/-- Assumes: the next run is new, and the node's own is not. -/
theorem nests_serve (hbase : Later base m) (hcontext : m.context? a.run = some c)
    (hold : a.run < m.nextRun) (hnew : m.view m.nextRun = {})
    (haccepted : m.world.interpreter.GraphsAccepted) (home : Option Nat) (graph : GraphInstance)
    (inputs : Inputs) (next : RunResult → Behaviour) :
    Nests base m (m.serve a home (.nest graph inputs next)) a c home graph inputs next := by
  have hchild : (m.waiting a c home graph next).view m.nextRun =
      { context := some { graph, config := c.config } } :=
    view_waiting_child (Nat.ne_of_lt hold) hnew
  have hopened : (m.waiting a c home graph next).context? m.nextRun =
      some { graph, config := c.config } := congrArg RunView.context hchild
  have hconcerns := concerns_start hopened rfl inputs
  obtain ⟨lost, hbegins⟩ := begins_start (hbase.trans later_waiting) hopened rfl haccepted inputs
  rw [hchild] at hbegins
  cases hstart : (m.waiting a c home graph next).start m.nextRun inputs with
  | mk outcome started =>
    rw [hstart] at hconcerns hbegins
    cases outcome with
    | ok scope =>
      rw [serve_nest_of_ok hcontext hstart]
      exact nests_of_ok hcontext hold hconcerns hbegins
    | error error =>
      obtain ⟨hmissing, hrefused⟩ := view_start_of_error hopened rfl haccepted hstart
      rw [serve_nest_of_error hcontext hstart]
      rw [hchild] at hrefused
      exact nests_of_error hcontext hold hnew hconcerns hmissing hrefused error

end

/-! ### Suspended activities -/

theorem ne_stalled_of_canGoOn (hcan : m.canGoOn a = true) : a.progress ≠ .stalled := by
  intro hprogress
  simp [canGoOn, hprogress] at hcan

/-- What resuming does to the machine: at most it ends the run that was waited for. -/
structure Resumed (m m' : Machine) (progress : Progress) (request : Behaviour) : Prop where
  resumes : RunView.Resumes progress request
  later : Later m m'
  nextRun_eq : m'.nextRun = m.nextRun
  view_eq : ∀ other, (∀ next, progress ≠ .nesting other next) → m'.view other = m.view other
  view_ended : ∀ child next, progress = .nesting child next →
    m'.view child = { m.view child with active := none }

/-- A graph that is fetched comes without inputs. -/
theorem inputs_of_fetched {outcome : Except ResolveError GraphInstance} {loaded : LoadedGraph}
    (h : outcome.map (fun graph ↦ ({ graph, inputs := {} } : LoadedGraph)) = .ok loaded) :
    loaded.inputs = {} := by
  cases outcome with
  | error error => cases h
  | ok graph =>
    obtain rfl := Except.ok.inj h
    rfl

theorem resumed_resume {progress : Progress} (haloof : m.Aloof)
    (hfits : progress.Fits m.provider run) (hgoes : progress ≠ .stalled) :
    Resumed m (m.resume progress).2 progress (m.resume progress).1 := by
  have hworld {world : World} {request : Behaviour}
      (hloads : Loader.Loads m.world.interpreter world.interpreter)
      (hresumes : RunView.Resumes progress request)
      (hprogress : ∀ child next, progress ≠ .nesting child next) :
      Resumed m { m with world } progress request :=
    ⟨hresumes, (concerns_world run hloads).toLater, rfl, fun other _ ↦ view_world hloads other,
      fun child next heq ↦ absurd heq (hprogress child next)⟩
  have hsame {request : Behaviour} (hresumes : RunView.Resumes progress request)
      (hprogress : ∀ child next, progress ≠ .nesting child next) :
      Resumed m m progress request :=
    ⟨hresumes, .refl m, rfl, fun _ _ ↦ rfl, fun child next heq ↦ absurd heq (hprogress child next)⟩
  cases progress with
  | going rest => exact hsame (.going rest) fun _ _ ↦ Progress.noConfusion
  | sleeping due rest => exact hsame (.sleeping due rest) fun _ _ ↦ Progress.noConfusion
  | joining tickets rest => exact hsame (.joining tickets rest) fun _ _ ↦ Progress.noConfusion
  | fetchingAsset due loader fetch form next =>
    have hloader : loader.Aloof := haloof.loader hfits
    exact hworld (hloader.finish_asset form fetch m.world) (.fetchingAsset due loader fetch form next _)
      fun _ _ ↦ Progress.noConfusion
  | fetchingGraph due loader fetch next =>
    have hloader : loader.Aloof := haloof.loader hfits
    exact hworld (hloader.finish_graph m.provider fetch m.world)
      (.fetchingGraph due loader fetch next _ fun _ ↦ inputs_of_fetched) fun _ _ ↦ Progress.noConfusion
  | nesting child next =>
    refine ⟨.nesting child next _, ?_, rfl, fun other hother ↦ ?_, fun other next' heq ↦ ?_⟩
    · exact ⟨rfl, Nat.le_refl _, Nat.le_refl _, Nat.le_refl _, Nat.le_refl _, fun haccepted ↦ haccepted⟩
    · have hne : child ≠ other := fun heq ↦ hother next (heq ▸ rfl)
      simp [resume, conclusion, view, endRun, withInterpreter, Interpreter.endRun, context?, hne]
    · obtain ⟨rfl, -⟩ := Progress.nesting.inj heq
      simp [resume, conclusion, view, endRun, withInterpreter, Interpreter.endRun, context?]
  | stalled => exact absurd rfl hgoes

/-! ### Moves -/

theorem view_pop_frame {frame : Frame} {rest : List Frame} (hframes : m.frames = frame :: rest) :
    (m.view frame.run).frames =
      frame :: (({ m with frames := rest } : Machine).view frame.run).frames := by
  simp [view, hframes]

theorem concerns_pop_frame {frame : Frame} {rest : List Frame} (hframes : m.frames = frame :: rest) :
    Concerns frame.run m { m with frames := rest } where
  toLater := .of_eq rfl rfl rfl rfl rfl rfl
  view_eq := fun other hother ↦ by simp [view, context?, hframes, Ne.symm hother]

/-- A run with a frame has a context. -/
theorem Housed.context_of_frame (h : m.Housed) {frame : Frame} {rest : List Frame}
    (hframes : m.frames = frame :: rest) : ∃ c, m.context? frame.run = some c := by
  cases hcontext : m.context? frame.run with
  | some c => exact ⟨c, rfl⟩
  | none =>
    have hempty := congrArg RunView.frames ((h.views frame.run).empty hcontext)
    rw [view_pop_frame hframes] at hempty
    cases hempty

/-- The next run is new. -/
theorem Housed.view_nextRun (h : m.Housed) : m.view m.nextRun = {} := by
  refine (h.views m.nextRun).empty ?_
  cases hcontext : (m.view m.nextRun).context with
  | none => rfl
  | some c => exact absurd (h.lt_nextRun m.nextRun c hcontext) (Nat.lt_irrefl _)

/-- A move in which one run works. -/
structure Works (m m' : Machine) (owner : RunId) (written : List (String × Value)) : Prop where
  later : Later m m'
  labour : ∃ c lost, (m.view owner).context = some c ∧
    RunView.Labour m m' owner (m.view owner) c (m'.view owner) written lost
  others : ∀ run, run ≠ owner → RunView.Changes m m' run (m.view run) (m'.view run) []

theorem works_of_concerns {m' : Machine} {owner : RunId} {written : List (String × Value)}
    (hcontext : m.context? owner = some c) (hconcerns : Concerns owner m m')
    (hlabour : ∃ lost,
      RunView.Labour m m' owner (m.view owner) c (m'.view owner) written lost) :
    Works m m' owner written where
  later := hconcerns.toLater
  labour := hlabour.elim fun lost h ↦ ⟨c, lost, hcontext, h⟩
  others := fun run hrun ↦ hconcerns.view_eq run hrun ▸ .same _

/-! The drain of a run's queue moves. -/

section

variable {owner : RunId} {rest : List Frame} {call : NodeCall} {calls : List NodeCall}

theorem advance_released (hframes : m.frames = .drain owner :: rest)
    (hcontext : m.context? owner = some c) (hcalls : c.queue.calls = []) :
    m.advance = { m.modifyContext owner fun c' ↦
      { c' with queue := { c.queue with draining := false } } with frames := rest } := by
  simp [advance, hframes, hcontext, SyncQueue.pop, hcalls]

theorem advance_skipped (hframes : m.frames = .drain owner :: rest)
    (hcontext : m.context? owner = some c) (hcalls : c.queue.calls = call :: calls)
    (hkind : m.provider.registry.get? call.kind = none) :
    m.advance = (m.modifyContext owner fun c' ↦
      { c' with queue := { c.queue with calls } }).conclude owner call (.unknownKind call.kind) := by
  simp [advance, hframes, hcontext, SyncQueue.pop, hcalls, modifyContext, hkind]

theorem advance_taken (hframes : m.frames = .drain owner :: rest)
    (hcontext : m.context? owner = some c) (hcalls : c.queue.calls = call :: calls) {kind : NodeKind}
    (hkind : m.provider.registry.get? call.kind = some kind) :
    m.advance = (m.modifyContext owner fun c' ↦ { c' with queue := { c.queue with calls } }).enter
      { run := owner, call, progress := .stalled } none (.going (kind.behaviour call)) := by
  simp [advance, hframes, hcontext, SyncQueue.pop, hcalls, modifyContext, hkind]

theorem view_withQueue (hcontext : m.context? owner = some c) (queue : SyncQueue) :
    (m.modifyContext owner fun c ↦ { c with queue }).view owner =
      { m.view owner with context := some { c with queue } } := by
  rw [view_modifyContext, show (m.view owner).context = some c from hcontext, Option.map_some]

theorem concerns_drain (hframes : m.frames = .drain owner :: rest)
    (hcontext : m.context? owner = some c) : Concerns owner m m.advance := by
  have hmodify (queue : SyncQueue) :=
    concerns_modifyContext m owner fun c ↦ { c with queue }
  cases hcalls : c.queue.calls with
  | nil =>
    have hframesQueue : (m.modifyContext owner fun c' ↦
        { c' with queue := { c.queue with draining := false } }).frames = .drain owner :: rest :=
      hframes
    rw [advance_released hframes hcontext hcalls]
    exact (hmodify _).trans (concerns_pop_frame hframesQueue)
  | cons call calls =>
    cases hkind : m.provider.registry.get? call.kind with
    | none =>
      rw [advance_skipped hframes hcontext hcalls hkind]
      exact (hmodify _).trans (concerns_conclude _ _ _ _)
    | some kind =>
      rw [advance_taken hframes hcontext hcalls hkind]
      exact (hmodify _).trans (concerns_enter _ { run := owner, call, progress := .stalled } _ _)

theorem view_released (hframes : m.frames = .drain owner :: rest)
    (hcontext : m.context? owner = some c) (hcalls : c.queue.calls = []) :
    m.advance.view owner = { m.view owner with
      context := some { c with queue := { c.queue with draining := false } }
      frames := (({ m with frames := rest } : Machine).view owner).frames } := by
  rw [advance_released hframes hcontext hcalls]
  exact congrArg (fun v : RunView ↦ { v with
    frames := (({ m with frames := rest } : Machine).view owner).frames })
    (view_withQueue hcontext { c.queue with draining := false })

theorem view_taken (hframes : m.frames = .drain owner :: rest)
    (hcontext : m.context? owner = some c) (hcalls : c.queue.calls = call :: calls) {kind : NodeKind}
    (hkind : m.provider.registry.get? call.kind = some kind) :
    m.advance.view owner = { m.view owner with
      context := some { c with queue := { c.queue with calls } }
      frames := .node { run := owner, call, progress := .going (kind.behaviour call) } none ::
        (m.view owner).frames } := by
  have hview := view_enter (m.modifyContext owner fun c' ↦
    { c' with queue := { c.queue with calls } }) { run := owner, call, progress := .stalled }
    none (.going (kind.behaviour call))
  simp only [view_withQueue hcontext] at hview
  rw [advance_taken hframes hcontext hcalls hkind, hview]

theorem works_drain (h : m.Housed) (hframes : m.frames = .drain owner :: rest) :
    Works m m.advance owner [] := by
  obtain ⟨c, hcontext⟩ := h.context_of_frame hframes
  change m.context? owner = some c at hcontext
  refine works_of_concerns hcontext (concerns_drain hframes hcontext) ⟨[], ?_⟩
  have hpop := view_pop_frame hframes
  cases hcalls : c.queue.calls with
  | nil =>
    rw [view_released hframes hcontext hcalls]
    exact .released _ hpop hcalls
  | cons call calls =>
    cases hkind : m.provider.registry.get? call.kind with
    | none =>
      rw [advance_skipped hframes hcontext hcalls hkind, view_conclude, view_withQueue hcontext]
      exact .skipped _ call calls hpop hcalls hkind
    | some kind =>
      rw [view_taken hframes hcontext hcalls hkind]
      exact .taken _ call calls kind hpop hcalls hkind

end

theorem Housed.fits_of_frame (h : m.Housed) {home : Option Nat} {rest : List Frame}
    (hframes : m.frames = .node a home :: rest) : a.progress.Fits m.provider a.run := by
  have hmem : .node a home ∈ (m.view a.run).frames := by
    rw [show (m.view a.run).frames = _ from view_pop_frame hframes]
    exact List.mem_cons_self
  exact (h.views a.run).fits a (List.mem_append_left _ (List.mem_filterMap.mpr ⟨_, hmem, rfl⟩))

/-- Only the run that was waited for changes while a node takes in what it waited for. -/
theorem Resumed.changes {home : Option Nat} {rest : List Frame} {resting later : Machine}
    {request : Behaviour} (hframes : m.frames = .node a home :: rest) (hcan : m.canGoOn a = true)
    (hresumed : Resumed { m with frames := rest } resting a.progress request) {other : RunId}
    (hne : other ≠ a.run) :
    RunView.Changes m later other (m.view other) (resting.view other) [] := by
  have hpop : ({ m with frames := rest } : Machine).view other = m.view other :=
    (concerns_pop_frame hframes).view_eq other hne
  by_cases hwaited : ∃ next, a.progress = .nesting other next
  · obtain ⟨next, hprogress⟩ := hwaited
    rw [hresumed.view_ended other next hprogress, hpop]
    have hfinished : m.isFinished other = true := by simpa [canGoOn, hprogress] using hcan
    exact .ended _ a home rest next hframes hprogress hfinished
  · rw [hresumed.view_eq other fun next heq ↦ hwaited ⟨next, heq⟩, hpop]
    exact .same _

/-- The next run is still new then. -/
theorem Resumed.view_nextRun (h : m.Housed) {home : Option Nat} {rest : List Frame}
    {resting : Machine} {request : Behaviour} (hframes : m.frames = .node a home :: rest)
    (hresumed : Resumed { m with frames := rest } resting a.progress request)
    (hown : a.run < m.nextRun) : resting.view m.nextRun = {} := by
  have hkept : ({ m with frames := rest } : Machine).view m.nextRun = {} :=
    ((concerns_pop_frame hframes).view_eq m.nextRun (Nat.ne_of_gt hown)).trans h.view_nextRun
  by_cases hwaited : ∃ next, a.progress = .nesting m.nextRun next
  · obtain ⟨next, hprogress⟩ := hwaited
    rw [hresumed.view_ended _ next hprogress, hkept]
  · rw [hresumed.view_eq _ fun next heq ↦ hwaited ⟨next, heq⟩, hkept]

/-- A node that was on top of the frames has taken in what it waited for; its request is yet to be
served. -/
structure Rests (m resting : Machine) (a : Activity) (c : Context) (rest : List Frame)
    (request : Behaviour) : Prop where
  resumed : Resumed { m with frames := rest } resting a.progress request
  view_eq : resting.view a.run = ({ m with frames := rest } : Machine).view a.run
  later : Later m resting
  context : resting.context? a.run = some c
  old : a.run < resting.nextRun
  new : resting.view resting.nextRun = {}
  accepted : resting.world.interpreter.GraphsAccepted
  wired : ∀ active, resting.world.interpreter.runs.get? a.run = some active → active.graph.Wired
  aloof : resting.Aloof

section

variable {home : Option Nat} {rest : List Frame}

theorem Housed.rests (h : m.Housed) (hframes : m.frames = .node a home :: rest)
    (hcan : m.canGoOn a = true) (hcontext : m.context? a.run = some c) :
    Rests m (({ m with frames := rest } : Machine).resume a.progress).2 a c rest
      (({ m with frames := rest } : Machine).resume a.progress).1 := by
  have hfits := h.fits_of_frame hframes
  have hresumed : Resumed { m with frames := rest } _ a.progress _ :=
    resumed_resume h.aloof hfits (ne_stalled_of_canGoOn hcan)
  -- The run itself stays as it is while the node takes in what it waited for.
  have hself : ∀ next, a.progress ≠ .nesting a.run next := fun next heq ↦ by
    rw [heq] at hfits
    exact Nat.lt_irrefl _ hfits
  have hrun := hresumed.view_eq a.run hself
  have hlater := (concerns_pop_frame hframes).toLater.trans hresumed.later
  have hown : a.run < m.nextRun := h.lt_nextRun a.run c hcontext
  have hnew := hresumed.view_nextRun h hframes hown
  have hnextRun : _ = m.nextRun := hresumed.nextRun_eq
  exact
    { resumed := hresumed
      view_eq := hrun
      later := hlater
      context := (congrArg RunView.context hrun).trans hcontext
      old := hnextRun.symm ▸ hown
      new := by rw [hnextRun, hnew]
      accepted := hlater.accepted h.accepted
      wired := fun active hactive ↦
        (h.views a.run).wired active ((congrArg RunView.active hrun).symm.trans hactive)
      aloof := fun cache hcache ↦ h.aloof cache (hlater.provider_eq ▸ hcache) }

theorem advance_served (hframes : m.frames = .node a home :: rest) (hcan : m.canGoOn a = true) :
    m.advance = (({ m with frames := rest } : Machine).resume a.progress).2.serve a home
      (({ m with frames := rest } : Machine).resume a.progress).1 := by
  rw [advance, hframes]
  simp only [hcan, ↓reduceIte]

theorem advance_shelved (hframes : m.frames = .node a home :: rest) (hcan : m.canGoOn a = false) :
    m.advance = ({ m with frames := rest } : Machine).suspend a home := by
  rw [advance, hframes]
  simp only [hcan, Bool.false_eq_true, ↓reduceIte]

/-- A node on the frames that can go on. -/
theorem works_served (h : m.Housed) (hframes : m.frames = .node a home :: rest)
    (hcan : m.canGoOn a = true) : Works m m.advance a.run (m.publishing a.run .advance) := by
  obtain ⟨c, hcontext⟩ := h.context_of_frame hframes
  change m.context? a.run = some c at hcontext
  have hrests := h.rests hframes hcan hcontext
  have hpublishing : m.publishing a.run .advance =
      (({ m with frames := rest } : Machine).resume a.progress).1.published := by
    rw [publishing, hframes]
    simp [hcan]
  rw [advance_served hframes hcan, hpublishing]
  generalize ({ m with frames := rest } : Machine).resume a.progress = resumed at hrests
  obtain ⟨request, resting⟩ := resumed
  have hresumed := hrests.resumed
  have hlater := hrests.later
  have hlabour {after : RunView} {written : List (String × Value)} {lost : List Nat}
      (hserves : RunView.Serves m (resting.serve a home request) a.run (resting.view a.run) c a home
        request after written lost) :
      RunView.Labour m (resting.serve a home request) a.run (m.view a.run) c after written lost :=
    .served a home _ (view_pop_frame hframes) hcan hresumed.resumes
      (by rw [hrests.view_eq] at hserves; exact hserves)
  by_cases hnest : ∃ graph inputs next, request = .nest graph inputs next
  · obtain ⟨graph, inputs, next, rfl⟩ := hnest
    have hnextRun : resting.nextRun = m.nextRun := hresumed.nextRun_eq
    have hnests := nests_serve hlater hrests.context hrests.old hrests.new hrests.accepted
      home graph inputs next
    refine ⟨hlater.trans hnests.later, ⟨c, [], hcontext, hlabour hnests.serves⟩, fun run hne ↦ ?_⟩
    by_cases hchild : run = m.nextRun
    · obtain ⟨config, lost, hbegins⟩ := hnests.begins
      have hnext := hnests.nextRun_lt
      rw [hnextRun, ← hchild] at hbegins hnext
      rw [hchild, h.view_nextRun, ← hchild]
      exact .begun _ graph config inputs a home rest next hframes hresumed.resumes hchild hnext
        hrests.accepted hbegins
    · rw [hnests.view_eq run hne (hnextRun ▸ hchild)]
      exact hresumed.changes hframes hcan hne
  · obtain ⟨hconcerns, lost, hserves⟩ := serves_serve hlater hrests.context hrests.wired hrests.aloof
      home fun graph inputs next heq ↦ hnest ⟨graph, inputs, next, heq⟩
    refine ⟨hlater.trans hconcerns.toLater, ⟨c, lost, hcontext, hlabour hserves⟩, fun run hne ↦ ?_⟩
    rw [hconcerns.view_eq run hne]
    exact hresumed.changes hframes hcan hne

end

/-- A node on the frames that has to wait. -/
theorem works_shelved (h : m.Housed) {home : Option Nat} {rest : List Frame}
    (hframes : m.frames = .node a home :: rest) (hcan : m.canGoOn a = false) :
    Works m m.advance a.run (m.publishing a.run .advance) := by
  obtain ⟨c, hcontext⟩ := h.context_of_frame hframes
  change m.context? a.run = some c at hcontext
  have hpop : Concerns a.run m { m with frames := rest } := concerns_pop_frame hframes
  have hpublishing : m.publishing a.run .advance = [] := by
    rw [publishing, hframes]
    simp [hcan]
  rw [advance_shelved hframes hcan, hpublishing]
  obtain ⟨tasks, lost, hshelves, hview⟩ :=
    shelves_suspend (m := { m with frames := rest }) (a := a) hcontext home
  refine works_of_concerns hcontext (hpop.trans (concerns_suspend _ a home)) ⟨lost, ?_⟩
  rw [hview]
  exact .shelved a home _ (view_pop_frame hframes) hcan (shelves_of_later hshelves hpop.toLater)

/-- What is on top works. -/
theorem works_advance (h : m.Housed) {frame : Frame} {rest : List Frame}
    (hframes : m.frames = frame :: rest) :
    Works m m.advance frame.run (m.publishing frame.run .advance) := by
  cases frame with
  | drain owner =>
    rw [publishing, hframes]
    exact works_drain h hframes
  | node a home =>
    cases hcan : m.canGoOn a with
    | true => exact works_served h hframes hcan
    | false => exact works_shelved h hframes hcan

/-- A task that is taken off stood somewhere in the list. -/
theorem takeTask_eq_some {task : Nat} {tasks rest : List (Nat × Activity)} {a : Activity}
    (h : takeTask task tasks = some (a, rest)) :
    ∃ before after, tasks = before ++ (task, a) :: after ∧ rest = before ++ after := by
  induction tasks generalizing rest with
  | nil => cases h
  | cons entry tasks ih =>
    obtain ⟨number, first⟩ := entry
    rw [takeTask] at h
    split_ifs at h with hnumber
    · obtain ⟨hfirst, hrest⟩ := Prod.mk.inj (Option.some.inj h)
      exact ⟨[], tasks, by rw [hnumber, hfirst]; rfl, hrest.symm⟩
    · obtain ⟨⟨found, left⟩, hfound, heq⟩ := Option.map_eq_some_iff.mp h
      obtain ⟨rfl, rfl⟩ := Prod.mk.inj heq
      obtain ⟨before, after, hbefore, hafter⟩ := ih hfound
      exact ⟨(number, first) :: before, after, congrArg _ hbefore, congrArg _ hafter⟩

/-! A task that can go on is put back. -/

section

variable {task : Nat} {tasks : List (Nat × Activity)}

theorem poll_eq (hframes : m.frames = []) (hfound : takeTask task m.tasks = some (a, tasks))
    (hcan : m.canGoOn a = true) : m.poll task = { m with tasks, frames := [.node a (some task)] } := by
  simp [poll, hframes, hfound, hcan]

theorem poll_of_not_ready (hready : ¬ ∃ a tasks, m.frames = [] ∧
    takeTask task m.tasks = some (a, tasks) ∧ m.canGoOn a = true) : m.poll task = m := by
  rw [poll]
  split
  · rename_i a tasks hframes hfound
    exact if_neg fun hcan ↦ hready ⟨a, tasks, hframes, hfound, hcan⟩
  · rfl

theorem concerns_poll (hframes : m.frames = []) (hfound : takeTask task m.tasks = some (a, tasks))
    (hcan : m.canGoOn a = true) : Concerns a.run m (m.poll task) := by
  obtain ⟨before, after, htasks, rfl⟩ := takeTask_eq_some hfound
  rw [poll_eq hframes hfound hcan]
  refine ⟨.of_eq rfl rfl rfl rfl rfl rfl, fun other hother ↦ ?_⟩
  simp [view, context?, hframes, htasks, Frame.run, Ne.symm hother]

theorem view_poll (hframes : m.frames = []) (hfound : takeTask task m.tasks = some (a, tasks))
    (hcan : m.canGoOn a = true) :
    ∃ before after, (m.view a.run).tasks = before ++ (task, a) :: after ∧
      (m.poll task).view a.run = { m.view a.run with
        tasks := before ++ after, frames := .node a (some task) :: (m.view a.run).frames } := by
  obtain ⟨before, after, htasks, rfl⟩ := takeTask_eq_some hfound
  refine ⟨before.filter fun entry ↦ entry.2.run == a.run, after.filter fun entry ↦
    entry.2.run == a.run, by simp [view, htasks], ?_⟩
  rw [poll_eq hframes hfound hcan]
  simp [view, context?, hframes, Frame.run]

theorem works_poll (h : m.Housed) (hframes : m.frames = [])
    (hfound : takeTask task m.tasks = some (a, tasks)) (hcan : m.canGoOn a = true) :
    Works m (m.poll task) a.run [] := by
  obtain ⟨before, after, htasks, hview⟩ := view_poll hframes hfound hcan
  obtain ⟨c, hcontext⟩ : ∃ c, m.context? a.run = some c := by
    cases hcontext : m.context? a.run with
    | some c => exact ⟨c, rfl⟩
    | none =>
      have hempty := congrArg RunView.tasks ((h.views a.run).empty hcontext)
      rw [htasks] at hempty
      simp at hempty
  refine works_of_concerns hcontext (concerns_poll hframes hfound hcan) ⟨[], ?_⟩
  rw [hview]
  exact .polled _ _ task a htasks hcan

end

/-- A move is the work of one run, or nothing but time passes. -/
theorem step_cases (h : m.Housed) (move : Move) :
    (∃ owner, Works m (m.step move) owner (m.publishing owner move) ∧
      ∀ run, run ≠ owner → m.publishing run move = []) ∨
    ((∃ now, m.now ≤ now ∧ m.step move = { m with now }) ∧ ∀ run, m.publishing run move = []) := by
  cases move with
  | advance =>
    by_cases hidle : m.frames = []
    · have hstep : m.advance = m := by simp only [advance, hidle]
      exact Or.inr ⟨⟨m.now, Nat.le_refl _, hstep⟩, fun run ↦ by rw [publishing, hidle]⟩
    · obtain ⟨frame, rest, hframes⟩ := List.exists_cons_of_ne_nil hidle
      refine Or.inl ⟨frame.run, works_advance h hframes, fun run hne ↦ ?_⟩
      rw [publishing, hframes]
      cases frame with
      | drain owner => rfl
      | node a home => simp [show a.run ≠ run from Ne.symm hne]
  | poll task =>
    by_cases hready : ∃ a tasks, m.frames = [] ∧ takeTask task m.tasks = some (a, tasks) ∧
        m.canGoOn a = true
    · obtain ⟨a, tasks, hframes, hfound, hcan⟩ := hready
      exact Or.inl ⟨a.run, works_poll h hframes hfound hcan, fun _ _ ↦ rfl⟩
    · exact Or.inr ⟨⟨m.now, Nat.le_refl _, poll_of_not_ready hready⟩, fun _ ↦ rfl⟩
  | tick moment => exact Or.inr ⟨⟨_, Nat.le_max_left _ _, rfl⟩, fun _ ↦ rfl⟩

theorem later_now {now : Nat} (hnow : m.now ≤ now) : Later m { m with now } :=
  ⟨rfl, hnow, Nat.le_refl _, Nat.le_refl _, Nat.le_refl _, fun haccepted ↦ haccepted⟩

theorem later_step (h : m.Housed) (move : Move) : Later m (m.step move) := by
  rcases step_cases h move with ⟨owner, hworks, -⟩ | ⟨⟨now, hnow, hstep⟩, -⟩
  · exact hworks.later
  · exact hstep ▸ later_now hnow

/-- Every move changes every run in one of a few ways. -/
theorem changes_step (h : m.Housed) (move : Move) (run : RunId) :
    RunView.Changes m (m.step move) run (m.view run) ((m.step move).view run)
      (m.publishing run move) := by
  rcases step_cases h move with ⟨owner, hworks, hsilent⟩ | ⟨⟨now, -, hstep⟩, hsilent⟩
  · by_cases hrun : run = owner
    · subst hrun
      obtain ⟨c, lost, hcontext, hlabour⟩ := hworks.labour
      exact .worked hcontext hlabour
    · rw [hsilent run hrun]
      exact hworks.others run hrun
  · rw [hsilent run, hstep]
    exact .same _

end Blueprint.Machine

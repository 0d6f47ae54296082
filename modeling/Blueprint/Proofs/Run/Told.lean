import Blueprint.Proofs.Run.Reach
import Blueprint.Proofs.Scope.Calls

/-!
What the interpreter tells the machine. Each call of the interpreter is answered by callbacks, and a
callback may make the machine call again before it receives the next: a node of an unknown kind is
finished at once. `Machine.told` lists the callbacks of a move in the order in which they are received.
-/

set_option autoImplicit false

namespace Blueprint.Machine

/-- A callback that is received, with the run it is for. -/
abbrev Received := RunId × Callback

/-- What is told once the node on a scope has returned. -/
def toldByFinish (m : Machine) (run : RunId) (scope : Nat) : List Received :=
  (m.world.interpreter.finish run scope).callbacks.map fun callback ↦ (run, callback)

/-- What is told while a node is asked for: nothing, unless its kind is unknown. -/
def toldByInvoke (m : Machine) (run : RunId) (call : NodeCall) : List Received :=
  match m.context? run, m.provider.registry.get? call.kind with
  | some _, none => m.toldByFinish run call.scope
  | _, _ => []

/-- What is told while a callback is received. -/
def toldByReceive (m : Machine) (run : RunId) : Callback → List Received
  | .invoke call => m.toldByInvoke run call
  | .dispatched _ | .completed _ | .bind _ _ _ => []

/-- Callbacks in turn, each followed by what is told while it is received. -/
def toldInTurn (m : Machine) (run : RunId) : List Callback → List Received
  | [] => []
  | callback :: rest =>
    (run, callback) :: (m.toldByReceive run callback ++
      (m.receive run callback).toldInTurn run rest)

/-- What is told by a reply that is taken over. -/
def toldByReply {α : Type} (m : Machine) (run : RunId) (reply : Interpreter.Reply α) :
    List Received :=
  (m.withInterpreter reply.state).toldInTurn run reply.callbacks

/-- What is told when a run is started. -/
def toldByStart (m : Machine) (run : RunId) (inputs : Inputs) : List Received :=
  match m.context? run with
  | none => []
  | some c =>
    (m.withInputs run (c.inputs.getD inputs)).toldByReply run
      (m.world.interpreter.execute c.graph.handle run (c.inputs.getD inputs) c.bindings)

/-- What is told when a request of a node is served. -/
def toldByRequest (m : Machine) (a : Activity) (home : Option Nat) : Behaviour → List Received
  | .succeed | .fail _ | .panic _ => m.toldByFinish a.run a.call.scope
  | .trigger pin next =>
    let reply := m.world.interpreter.trigger a.run a.call.scope a.call.node pin (m.bindings a.run)
    (m.enter a home (.going (next reply.outcome))).toldByReply a.run reply
  | .nest graph inputs next =>
    let config := ((m.context? a.run).map (·.config)).getD {}
    let (child, m) := m.open_ graph config true
    (m.enter a home (.nesting child next)).toldByStart child inputs
  | _ => []

/-- What is told when the topmost frame moves. -/
def toldByAdvance (m : Machine) : List Received :=
  match m.frames with
  | [] => []
  | .drain run :: _ =>
    match (m.context? run).bind fun c ↦ c.queue.pop.1 with
    | some call => m.toldByInvoke run call
    | none => []
  | .node a home :: rest =>
    if m.canGoOn a then
      let (request, below) := ({ m with frames := rest } : Machine).resume a.progress
      below.toldByRequest a home request
    else []

/-- The callbacks of a move, in the order in which they are received. -/
def told (m : Machine) : Move → List Received
  | .advance => m.toldByAdvance
  | .poll _ | .tick _ => []

/-- The callbacks of a schedule. -/
def toldAlong (m : Machine) : List Move → List Received
  | [] => []
  | move :: rest => m.told move ++ (m.step move).toldAlong rest

/-! ### The pending scopes -/

/-- What a callback makes of the number of outstanding dispatches of a scope. -/
def counted (scope : Nat) (outstanding : Nat) : Callback → Nat
  | .dispatched other => outstanding + if other = scope then 1 else 0
  | .completed other => outstanding - if other = scope then 1 else 0
  | .bind _ _ _ | .invoke _ => outstanding

/-- The callbacks that are for a run. -/
def receivedBy (run : RunId) (told : List Received) : List Callback :=
  told.filterMap fun received ↦ if received.1 = run then some received.2 else none

/-- What callbacks make of the number of outstanding dispatches of a scope of a run. -/
def countAll (run : RunId) (scope : Nat) (told : List Received) (outstanding : Nat) : Nat :=
  (receivedBy run told).foldl (counted scope) outstanding

theorem countAll_append (run : RunId) (scope : Nat) (told more : List Received)
    (outstanding : Nat) :
    countAll run scope (told ++ more) outstanding =
      countAll run scope more (countAll run scope told outstanding) := by
  rw [countAll, receivedBy, List.filterMap_append, List.foldl_append]
  rfl

theorem countAll_own (run : RunId) (scope : Nat) (callbacks : List Callback) (outstanding : Nat) :
    countAll run scope (callbacks.map fun callback ↦ (run, callback)) outstanding =
      callbacks.foldl (counted scope) outstanding := by
  have hall : receivedBy run (callbacks.map fun callback ↦ (run, callback)) = callbacks := by
    simp [receivedBy, List.filterMap_map]
  rw [countAll, hall]

theorem countAll_other {run other : RunId} (hne : run ≠ other) (scope : Nat)
    (callbacks : List Callback) (outstanding : Nat) :
    countAll other scope (callbacks.map fun callback ↦ (run, callback)) outstanding =
      outstanding := by
  have hnone : receivedBy other (callbacks.map fun callback ↦ (run, callback)) = [] := by
    simp [receivedBy, List.filterMap_map, hne]
  rw [countAll, hnone, List.foldl_nil]

/-- The number of outstanding dispatches of a scope of a run that has a context. -/
def outstanding? (m : Machine) (run : RunId) (scope : Nat) : Option Nat :=
  (m.context? run).map (·.tracker.count scope)

variable {m m' : Machine} {run : RunId} {a : Activity} {told more : List Received}

/-- All dispatches and completions between two machines are among some callbacks. -/
def Notes (m m' : Machine) (told : List Received) : Prop :=
  ∀ run scope, m'.outstanding? run scope = (m.outstanding? run scope).map (countAll run scope told)

theorem Notes.of_contexts (h : m'.contexts = m.contexts) : Notes m m' [] := by
  intro run scope
  rw [outstanding?, context?, h, ← context?, ← outstanding?]
  cases m.outstanding? run scope <;> rfl

theorem Notes.trans {later : Machine} (h : Notes m m' told) (hlater : Notes m' later more) :
    Notes m later (told ++ more) := by
  intro run scope
  rw [hlater run scope, h run scope]
  cases m.outstanding? run scope with
  | none => rfl
  | some outstanding => exact congrArg some (countAll_append run scope told more outstanding).symm

theorem Notes.kept {later : Machine} (h : Notes m m' told) (hcontexts : later.contexts = m'.contexts) :
    Notes m later told := by
  have hboth := h.trans (.of_contexts hcontexts)
  rwa [List.append_nil] at hboth

/-- Assumes: a change by which each count comes to what the callbacks make of it. -/
theorem notes_modify {change : Context → Context} (callbacks : List Callback)
    (hcontexts : m'.contexts = m.contexts.modify run change)
    (hchange : ∀ c, m.context? run = some c → ∀ scope, (change c).tracker.count scope =
      callbacks.foldl (counted scope) (c.tracker.count scope)) :
    Notes m m' (callbacks.map fun callback ↦ (run, callback)) := by
  intro other scope
  rw [outstanding?, context?, hcontexts, Table.get?_modify, outstanding?, context?]
  split_ifs with hsame
  · subst hsame
    cases hcontext : m.contexts.get? run with
    | none => rfl
    | some c =>
      exact congrArg some
        ((hchange c hcontext scope).trans (countAll_own run scope callbacks _).symm)
  · cases m.contexts.get? other with
    | none => rfl
    | some c => exact congrArg some (countAll_other hsame scope callbacks _).symm

theorem counted_note (c : Context) (scope : Nat) (callback : Callback) :
    (c.note callback).tracker.count scope = counted scope (c.tracker.count scope) callback := by
  cases callback with
  | dispatched other => exact Tracker.count_dispatch c.tracker other scope
  | completed other => exact Tracker.count_complete c.tracker other scope
  | bind node pin value => rfl
  | invoke call => rfl

theorem counted_noteAll (c : Context) (scope : Nat) (callbacks : List Callback) :
    (c.noteAll callbacks).tracker.count scope =
      callbacks.foldl (counted scope) (c.tracker.count scope) :=
  (List.foldl_hom (fun c : Context ↦ c.tracker.count scope)
    fun c callback ↦ (counted_note c scope callback).symm).symm

theorem notes_note (m : Machine) (run : RunId) (callback : Callback) :
    Notes m (m.note run callback) [(run, callback)] := by
  obtain ⟨events, hnote⟩ := note_eq m run callback
  exact notes_modify [callback] (by rw [hnote]) fun c _ scope ↦
    counted_note c scope callback

theorem notes_finishScope (m : Machine) (run : RunId) (scope : Nat) :
    Notes m (m.finishScope run scope).2 (m.toldByFinish run scope) := by
  obtain ⟨events, hnotes⟩ := noteAll_eq
    (m.withInterpreter (m.world.interpreter.finish run scope).state) run
    (m.world.interpreter.finish run scope).callbacks
  rw [finishScope_snd, hnotes]
  exact notes_modify _ rfl fun c _ scope ↦ counted_noteAll c scope _

/-- Assumes: a change that leaves the counts alone. -/
theorem notes_modifyContext (m : Machine) (run : RunId) (change : Context → Context)
    (hchange : ∀ c, m.context? run = some c → (change c).tracker.pending = c.tracker.pending) :
    Notes m (m.modifyContext run change) [] :=
  notes_modify [] rfl fun c hcontext scope ↦ by
    rw [Tracker.count, hchange c hcontext]
    rfl

theorem notes_conclude (m : Machine) (run : RunId) (call : NodeCall) (ending : Ending) :
    Notes m (m.conclude run call ending) (m.toldByFinish run call.scope) := by
  unfold conclude
  dsimp only
  split_ifs
  · exact (notes_finishScope m run call.scope).kept rfl
  · have hfailed := notes_modifyContext m run
      (fun c ↦ { c with failedBranches := c.failedBranches + 1 }) fun _ _ ↦ rfl
    exact (hfailed.trans (notes_finishScope _ run call.scope)).kept rfl

theorem contexts_spawn (m : Machine) (a : Activity) : (m.spawn a).contexts = m.contexts := by
  unfold spawn
  cases m.context? a.run with
  | none => rfl
  | some c =>
    dsimp only
    split_ifs <;> rfl

theorem notes_invoke (m : Machine) (run : RunId) (call : NodeCall) :
    Notes m (m.invoke run call) (m.toldByInvoke run call) := by
  unfold invoke toldByInvoke
  cases m.context? run with
  | none => exact .of_contexts rfl
  | some c =>
    dsimp only
    cases m.provider.registry.get? call.kind with
    | none => exact notes_conclude m run call _
    | some kind =>
      dsimp only
      cases kind.mode with
      | async => exact .of_contexts (contexts_spawn m _)
      | sync =>
        have hqueued := notes_modifyContext m run
          (fun other ↦ { other with queue := (c.queue.push call).2 }) fun _ _ ↦ rfl
        dsimp only
        split_ifs
        · exact hqueued.kept rfl
        · exact hqueued

/-- Callbacks that are received in turn. -/
theorem notes_receiveAll (run : RunId) (callbacks : List Callback) (m : Machine) :
    Notes m (callbacks.foldl (fun m callback ↦ m.receive run callback) m)
      (m.toldInTurn run callbacks) := by
  induction callbacks generalizing m with
  | nil => exact .of_contexts rfl
  | cons callback rest ih =>
    have hreceive : Notes m (m.receive run callback)
        ((run, callback) :: m.toldByReceive run callback) := by
      cases callback with
      | invoke call => exact (notes_note m run (.invoke call)).trans (notes_invoke m run call)
      | dispatched scope => exact notes_note m run (.dispatched scope)
      | completed scope => exact notes_note m run (.completed scope)
      | bind node pin value => exact notes_note m run (.bind node pin value)
    exact hreceive.trans (ih (m.receive run callback))

theorem notes_accept {α : Type} (m : Machine) (run : RunId) (reply : Interpreter.Reply α) :
    Notes m (m.accept run reply) (m.toldByReply run reply) := by
  have hstate : Notes m (m.withInterpreter reply.state) [] := .of_contexts rfl
  exact hstate.trans (notes_receiveAll run reply.callbacks _)

/-- Every dispatch and every completion of a start is told. -/
theorem notes_start (m : Machine) (run : RunId) (inputs : Inputs) :
    Notes m (m.start run inputs).2 (m.toldByStart run inputs) := by
  unfold start toldByStart
  cases m.context? run with
  | none => exact .of_contexts rfl
  | some c =>
    have hinputs : Notes m (m.withInputs run (c.inputs.getD inputs)) [] :=
      (notes_modifyContext m run (fun other ↦
        { other with inputs := some (c.inputs.getD inputs) }) fun _ _ ↦ rfl).kept rfl
    exact hinputs.trans (notes_accept _ run _)

theorem notes_takeTickets (run : RunId) (scopes : List Nat) (m : Machine) :
    Notes m (takeTickets run scopes m).2 [] := by
  induction scopes generalizing m with
  | nil => exact .of_contexts rfl
  | cons scope rest ih =>
    rw [takeTickets]
    cases hcontext : m.context? run with
    | none => exact .of_contexts rfl
    | some c =>
      -- Waiting for a scope adds a ticket, and leaves the counts alone.
      have hwait : Notes m (m.modifyContext run fun other ↦
          { other with tracker := (c.tracker.wait scope m.nextTicket).1 }) [] := by
        refine notes_modifyContext m run _ fun other hother ↦ ?_
        obtain rfl := Option.some.inj (hother.symm.trans hcontext)
        rw [wait_eq]
        split_ifs <;> rfl
      exact (hwait.kept rfl).trans (ih _)

theorem contexts_beginFetch (m : Machine) (id : String) :
    (m.beginFetch id).2.contexts = m.contexts := by
  unfold beginFetch
  cases m.provider.lookup id <;> rfl

theorem contexts_suspend (m : Machine) (a : Activity) (home : Option Nat) :
    (m.suspend a home).contexts = m.contexts := by
  cases home with
  | none => exact contexts_spawn m a
  | some task => rfl

theorem contexts_resume (m : Machine) (progress : Progress) :
    (m.resume progress).2.contexts = m.contexts := by
  cases progress <;> rfl

/-- Assumes: a request other than to run a graph on a run of its own. -/
theorem notes_serve (m : Machine) (a : Activity) (home : Option Nat) {request : Behaviour}
    (hrequest : ∀ graph inputs next, request ≠ .nest graph inputs next) :
    Notes m (m.serve a home request) (m.toldByRequest a home request) := by
  cases request with
  | succeed => exact notes_conclude m a.run a.call _
  | fail failure => exact notes_conclude m a.run a.call _
  | panic message => exact notes_conclude m a.run a.call _
  | read node pin next => exact .of_contexts rfl
  | write pin value next =>
    exact (notes_modifyContext m a.run (·.bind a.call.node pin value) fun _ _ ↦ rfl).kept rfl
  | publish name value next =>
    exact (notes_modifyContext m a.run (·.publish name value) fun _ _ ↦ rfl).kept rfl
  | log level message next => exact .of_contexts rfl
  | trigger pin next =>
    have henter (progress : Progress) : Notes m (m.enter a home progress) [] := .of_contexts rfl
    exact (henter _).trans (notes_accept _ a.run _)
  | join scopes next => exact (notes_takeTickets a.run scopes m).kept rfl
  | load form id next =>
    have hfetch := Notes.of_contexts (contexts_beginFetch m id)
    rw [serve]
    generalize m.beginFetch id = begun at hfetch
    obtain ⟨error | ⟨due, loader, fetch⟩, later⟩ := begun
    · exact hfetch.kept rfl
    · exact hfetch.kept rfl
  | find id next =>
    have hfetch := Notes.of_contexts (contexts_beginFetch m id)
    rw [serve]
    cases (m.context? a.run).bind fun c ↦ c.config.loaded.get? id with
    | some loaded => exact .of_contexts rfl
    | none =>
      dsimp only
      generalize m.beginFetch id = begun at hfetch
      obtain ⟨error | ⟨due, loader, fetch⟩, later⟩ := begun
      · exact hfetch.kept rfl
      · exact hfetch.kept rfl
  | nest graph inputs next => exact absurd rfl (hrequest graph inputs next)
  | sleep milliseconds next => exact .of_contexts rfl
  | yield next => exact .of_contexts (contexts_suspend m _ home)
  | stall => exact .of_contexts (contexts_suspend m _ home)

/-- A run that a node asks for is opened first. -/
theorem notes_serve_nest (m : Machine) (a : Activity) (home : Option Nat) (graph : GraphInstance)
    (inputs : Inputs) (next : RunResult → Behaviour) :
    Notes (m.open_ graph (((m.context? a.run).map (·.config)).getD {}) true).2
      (m.serve a home (.nest graph inputs next))
      (m.toldByRequest a home (.nest graph inputs next)) := by
  unfold serve toldByRequest
  dsimp only
  generalize m.open_ graph (((m.context? a.run).map (·.config)).getD {}) true = opened
  obtain ⟨child, opened⟩ := opened
  have henter : Notes opened (opened.enter a home (.nesting child next)) [] := .of_contexts rfl
  have hstart := henter.trans (notes_start _ child inputs)
  dsimp only
  generalize (opened.enter a home (.nesting child next)).start child inputs = started at hstart
  obtain ⟨error | scope, later⟩ := started
  · exact hstart.kept rfl
  · exact hstart

/-- The number of outstanding dispatches of a scope; a run without a context has none. -/
def outstanding (m : Machine) (run : RunId) (scope : Nat) : Nat := (m.outstanding? run scope).getD 0

theorem outstanding_of_context {c : Context} (hcontext : m.context? run = some c) (scope : Nat) :
    m.outstanding run scope = c.tracker.count scope := by
  rw [outstanding, outstanding?, hcontext]
  rfl

theorem outstanding_open (hnew : m.context? m.nextRun = none) (graph : GraphInstance)
    (config : RunConfig) (hasTasks : Bool) (run : RunId) (scope : Nat) :
    (m.open_ graph config hasTasks).2.outstanding run scope = m.outstanding run scope := by
  rw [outstanding, outstanding?, context?, open_, Table.get?_insert]
  split_ifs with hrun
  · subst hrun
    rw [outstanding, outstanding?, hnew]
    rfl
  · rfl

theorem Notes.outstanding (h : Notes m m' told) {c : Context} (hcontext : m'.context? run = some c)
    (scope : Nat) : c.tracker.count scope = countAll run scope told (m.outstanding run scope) := by
  have hnotes := h run scope
  rw [outstanding?, hcontext] at hnotes
  obtain ⟨before, hbefore, heq⟩ := Option.map_eq_some_iff.mp hnotes.symm
  rw [Machine.outstanding, hbefore]
  exact heq.symm

theorem outstanding_serve (hnew : m.context? m.nextRun = none) (a : Activity) (home : Option Nat)
    (request : Behaviour) {c : Context} (hcontext : (m.serve a home request).context? run = some c)
    (scope : Nat) : c.tracker.count scope =
      countAll run scope (m.toldByRequest a home request) (m.outstanding run scope) := by
  -- A run that is begun by the request is opened before anything is told of it.
  by_cases hnest : ∃ graph inputs next, request = .nest graph inputs next
  · obtain ⟨graph, inputs, next, rfl⟩ := hnest
    rw [← outstanding_open hnew graph (((m.context? a.run).map (·.config)).getD {}) true run scope]
    exact (notes_serve_nest m a home graph inputs next).outstanding hcontext scope
  · have hnotes := notes_serve m a home fun graph inputs next heq ↦ hnest ⟨graph, inputs, next, heq⟩
    exact hnotes.outstanding hcontext scope

theorem notes_drain {owner : RunId} {rest : List Frame} (hframes : m.frames = .drain owner :: rest) :
    Notes m m.advance m.toldByAdvance := by
  unfold advance toldByAdvance
  rw [hframes]
  dsimp only
  cases hcontext : m.context? owner with
  | none => exact .of_contexts rfl
  | some c =>
    have hpopped := notes_modifyContext m owner
      (fun other ↦ { other with queue := c.queue.pop.2 }) fun _ _ ↦ rfl
    dsimp only [Option.bind_some]
    cases c.queue.pop.1 with
    | none => exact hpopped.kept rfl
    | some call =>
      unfold toldByInvoke
      rw [hcontext]
      dsimp only
      rw [show (m.modifyContext owner _).provider = m.provider from rfl]
      cases m.provider.registry.get? call.kind with
      | none => exact hpopped.trans (notes_conclude _ owner call _)
      | some kind => exact hpopped.kept rfl

theorem contexts_poll (m : Machine) (task : Nat) : (m.poll task).contexts = m.contexts := by
  unfold poll
  split
  · split_ifs <;> rfl
  · rfl

theorem outstanding_advance (h : m.Housed) {c : Context} (hcontext : m.advance.context? run = some c)
    (scope : Nat) :
    c.tracker.count scope = countAll run scope m.toldByAdvance (m.outstanding run scope) := by
  cases hframes : m.frames with
  | nil =>
    have hsame : m.advance = m := by rw [advance, hframes]
    have htold : m.toldByAdvance = [] := by rw [toldByAdvance, hframes]
    rw [hsame] at hcontext
    rw [htold, outstanding_of_context hcontext]
    rfl
  | cons frame rest =>
    cases frame with
    | drain owner => exact (notes_drain hframes).outstanding hcontext scope
    | node a home =>
      cases hcan : m.canGoOn a with
      | false =>
        have htold : m.toldByAdvance = [] := by simp [toldByAdvance, hframes, hcan]
        rw [advance_shelved hframes hcan] at hcontext
        rw [htold]
        exact (Notes.of_contexts (contexts_suspend { m with frames := rest } a home)).outstanding
          hcontext scope
      | true =>
        obtain ⟨own, hown⟩ := h.context_of_frame hframes
        have hrests := h.rests hframes hcan hown
        have htold : m.toldByAdvance =
            (({ m with frames := rest } : Machine).resume a.progress).2.toldByRequest a home
              (({ m with frames := rest } : Machine).resume a.progress).1 := by
          simp only [toldByAdvance, hframes, hcan, ↓reduceIte]
        have hnew : (({ m with frames := rest } : Machine).resume a.progress).2.context? _ = none :=
          congrArg RunView.context hrests.new
        have hsame : (({ m with frames := rest } : Machine).resume a.progress).2.outstanding run scope =
            m.outstanding run scope := by
          rw [outstanding, outstanding?, context?, contexts_resume]
          rfl
        rw [advance_served hframes hcan] at hcontext
        rw [htold, ← hsame]
        exact outstanding_serve hnew a home _ hcontext scope

/-- Every dispatch and every completion of a move is told. -/
theorem outstanding_step (h : m.Housed) (move : Move) {c : Context}
    (hcontext : (m.step move).context? run = some c) (scope : Nat) :
    c.tracker.count scope = countAll run scope (m.told move) (m.outstanding run scope) := by
  cases move with
  | advance => exact outstanding_advance h hcontext scope
  | poll task => exact (Notes.of_contexts (contexts_poll m task)).outstanding hcontext scope
  | tick moment =>
    have htick : Notes m (m.tick moment) [] := .of_contexts rfl
    exact htick.outstanding hcontext scope

/-- The pending scopes of a run are at any time what the callbacks up to then make of those before. -/
theorem outstanding_run {history : RunId → List (String × Value)} (h : m.Sound history)
    (schedule : List Move) {before after : Context} (hbefore : m.context? run = some before)
    (hafter : (m.run schedule).context? run = some after) (scope : Nat) :
    after.tracker.count scope =
      countAll run scope (m.toldAlong schedule) (before.tracker.count scope) := by
  induction schedule generalizing m history before with
  | nil =>
    obtain rfl := Option.some.inj (hbefore.symm.trans hafter)
    rfl
  | cons move rest ih =>
    obtain ⟨c, hcontext, -⟩ := h.context_leads (.next .refl (.moved move)) hbefore
    rw [ih (h.happens (.moved move)) hcontext hafter, outstanding_step h.housed move hcontext,
      outstanding_of_context hbefore, toldAlong, countAll_append]

end Blueprint.Machine

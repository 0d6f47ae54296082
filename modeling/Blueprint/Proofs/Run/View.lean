import Blueprint.Proofs.Fetch.Aloof
import Blueprint.Proofs.Scope.Pending
import Blueprint.Run.Step

/-!
One run on the machine. `Machine.view` is all that the machine holds of a run: its context, its
entry in the interpreter, its frames and its suspended tasks.

`RunView.Labour` says what the work of a run may do to that: an activity is polled, shelved or
served, or a queued call is taken. `RunView.Begins` says what starting a run does. Of values that
nothing below depends on, such as what a fetch delivers, these relations only say that there is one;
what a node publishes is kept beside them. That the moves of the machine do nothing else is shown in
`Blueprint.Proofs.Run.Moves`.
-/

set_option autoImplicit false

namespace Blueprint

/-- The run a frame belongs to. -/
def Frame.run : Frame → RunId
  | .drain run => run
  | .node a _ => a.run

def Frame.activity? : Frame → Option Activity
  | .drain _ => none
  | .node a _ => some a

/-- What the machine holds of one run. -/
structure RunView where
  context : Option Context := none
  /-- What the interpreter keeps of the run while it is under way. -/
  active : Option ActiveRun := none
  /-- The topmost first. -/
  frames : List Frame := []
  tasks : List (Nat × Activity) := []

def Machine.view (m : Machine) (run : RunId) : RunView :=
  { context := m.context? run
    active := m.world.interpreter.runs.get? run
    frames := m.frames.filter fun frame ↦ frame.run == run
    tasks := m.tasks.filter fun entry ↦ entry.2.run == run }

namespace Behaviour

/-- How the invocation ends, when it ends here. -/
def ending? : Behaviour → Option Ending
  | .succeed => some .done
  | .fail failure => some (.failed failure)
  | .panic message => some (.panicked message)
  | _ => none

/-- How the activity is left, when it gives way to others. -/
def pause? : Behaviour → Option Progress
  | .yield next => some (.going next)
  | .stall => some .stalled
  | _ => none

/-- The blueprint output that is set, with its value. -/
def published : Behaviour → List (String × Value)
  | .publish name value _ => [(name, value)]
  | _ => []

end Behaviour

/-- A suspended activity of a run fetches through the cache of the provider, and waits for later runs
only. -/
def Progress.Fits (provider : Provider) (run : RunId) : Progress → Prop
  | .fetchingAsset _ loader _ _ _ | .fetchingGraph _ loader _ _ => loader.cache = provider.cache
  | .nesting child _ => run < child
  | _ => True

namespace RunView

/-- The activities on the frames and on tasks. -/
def activities (v : RunView) : List Activity :=
  v.frames.filterMap Frame.activity? ++ v.tasks.map (·.2)

/-- What every run on a machine keeps to. A run without a context has nothing at all. -/
structure Housed (provider : Provider) (run : RunId) (v : RunView) : Prop where
  empty : v.context = none → v = {}
  wired : ∀ active, v.active = some active → active.graph.Wired
  fits : ∀ a ∈ v.activities, a.progress.Fits provider run

/-- The node on a scope has returned: the interpreter closes scopes and reports them. -/
def finish (v : RunView) (scope : Nat) : RunView :=
  match v.active with
  | none => v
  | some active =>
    match active.scopes.finish scope with
    | none => v
    | some (closed, scopes) =>
      { v with
        active := some { active with scopes }
        context := v.context.map fun c ↦ { c with tracker := c.tracker.completeAll closed } }

/-- An invocation has ended. -/
def conclude (v : RunView) (call : NodeCall) (ending : Ending) : RunView :=
  let v :=
    if ending.isDone then v
    else { v with context := v.context.map fun c ↦ { c with failedBranches := c.failedBranches + 1 } }
  v.finish call.scope

/-- What a suspended activity goes on with once it can. -/
inductive Resumes : Progress → Behaviour → Prop
  | going (rest : Behaviour) : Resumes (.going rest) rest
  | sleeping (due : Nat) (rest : Behaviour) : Resumes (.sleeping due rest) rest
  | joining (tickets : List Nat) (rest : Behaviour) : Resumes (.joining tickets rest) rest
  | fetchingAsset (due : Nat) (loader : Loader) (fetch : Fetch) (form : AssetForm)
      (next : Except ResolveError Value → Behaviour) (outcome : Except ResolveError Value) :
      Resumes (.fetchingAsset due loader fetch form next) (next outcome)
  | fetchingGraph (due : Nat) (loader : Loader) (fetch : Fetch)
      (next : Except ResolveError LoadedGraph → Behaviour)
      (outcome : Except ResolveError LoadedGraph)
      (hinputs : ∀ loaded, outcome = .ok loaded → loaded.inputs = {}) :
      Resumes (.fetchingGraph due loader fetch next) (next outcome)
  | nesting (child : RunId) (next : RunResult → Behaviour) (result : RunResult) :
      Resumes (.nesting child next) (next result)

/-! In the relations below `m` is the machine before a move and `m'` the one after it; they bound
the numbers that are given out. The last list of each names the scopes whose work is lost, for want
of a place for tasks. -/

/-- An activity that has to wait goes to its task, to a new one, or nowhere. -/
inductive Shelves (m m' : Machine) (c : Context) (a : Activity) (tasks : List (Nat × Activity)) :
    Option Nat → List (Nat × Activity) → List Nat → Prop
  | back (task : Nat) : Shelves m m' c a tasks (some task) (tasks ++ [(task, a)]) []
  | spawned (task : Nat) (htasks : c.hasTasks = true) (hold : m.nextTask ≤ task)
      (hnew : task < m'.nextTask) : Shelves m m' c a tasks none (tasks ++ [(task, a)]) []
  | lost (htasks : c.hasTasks = false) : Shelves m m' c a tasks none tasks [a.call.scope]

/-- What becomes of a request to run a node. -/
inductive Invokes (m m' : Machine) (run : RunId) (call : NodeCall) (v : RunView) (c : Context) :
    RunView → List Nat → Prop
  | unknown (hkind : m.provider.registry.get? call.kind = none) :
      Invokes m m' run call v c (v.conclude call (.unknownKind call.kind)) []
  | spawned (kind : NodeKind) (task : Nat) (hkind : m.provider.registry.get? call.kind = some kind)
      (hmode : kind.mode = .async) (htasks : c.hasTasks = true) (hold : m.nextTask ≤ task)
      (hnew : task < m'.nextTask) :
      Invokes m m' run call v c
        { v with
          tasks := v.tasks ++ [(task, { run, call, progress := .going (kind.behaviour call) })] } []
  | lost (kind : NodeKind) (hkind : m.provider.registry.get? call.kind = some kind)
      (hmode : kind.mode = .async) (htasks : c.hasTasks = false) :
      Invokes m m' run call v c v [call.scope]
  /-- Somebody drains the queue already. -/
  | queued (kind : NodeKind) (hkind : m.provider.registry.get? call.kind = some kind)
      (hmode : kind.mode = .sync) (hdraining : c.queue.draining = true) :
      Invokes m m' run call v c
        { v with
          context := some { c with queue := { c.queue with calls := c.queue.calls ++ [call] } } } []
  | drained (kind : NodeKind) (hkind : m.provider.registry.get? call.kind = some kind)
      (hmode : kind.mode = .sync) (hdraining : c.queue.draining = false) :
      Invokes m m' run call v c
        { v with
          context := some { c with queue := { calls := c.queue.calls ++ [call], draining := true } }
          frames := .drain run :: v.frames } []

/-- How a request is answered that leaves the node on the frames: the context after it, how far the
activity is then, and what was published. -/
inductive Answers (m m' : Machine) (run : RunId) (node : String) (c : Context) :
    Behaviour → Context → Progress → List (String × Value) → Prop
  | read (other pin : String) (next : Option Value → Behaviour) :
      Answers m m' run node c (.read other pin next) c (.going (next (c.read? other pin))) []
  | write (pin : String) (value : Value) (next : Behaviour) :
      Answers m m' run node c (.write pin value next) (c.bind node pin value) (.going next) []
  | publish (name : String) (value : Value) (next : Behaviour) :
      Answers m m' run node c (.publish name value next) (c.publish name value) (.going next)
        [(name, value)]
  | log (level : LogLevel) (message : String) (next : Behaviour) :
      Answers m m' run node c (.log level message next) c (.going next) []
  /-- The interpreter refuses a trigger. -/
  | refused (pin : String) (next : Except EngineError Nat → Behaviour) (error : EngineError) :
      Answers m m' run node c (.trigger pin next) c (.going (next (.error error))) []
  /-- A ticket is taken for each of the scopes that is pending. -/
  | join (scopes : List Nat) (next : Behaviour) (held : List (Nat × Nat))
      (hheld : ∀ waiter ∈ held, waiter.1 ∈ scopes ∧ c.tracker.isPending waiter.1 = true ∧
        m.nextTicket ≤ waiter.2 ∧ waiter.2 < m'.nextTicket)
      (hall : ∀ scope ∈ scopes, c.tracker.isPending scope = true →
        ∃ waiter ∈ held, waiter.1 = scope) :
      Answers m m' run node c (.join scopes next)
        { c with tracker := { c.tracker with waiters := c.tracker.waiters ++ held } }
        (.joining (held.map (·.2)) next) []
  | loadRefused (form : AssetForm) (id : String) (next : Except ResolveError Value → Behaviour)
      (error : ResolveError) :
      Answers m m' run node c (.load form id next) c (.going (next (.error error))) []
  | loading (form : AssetForm) (id : String) (next : Except ResolveError Value → Behaviour)
      (due : Nat) (loader : Loader) (fetch : Fetch) (hcache : loader.cache = m.provider.cache) :
      Answers m m' run node c (.load form id next) c (.fetchingAsset due loader fetch form next) []
  | found (id : String) (next : Except ResolveError LoadedGraph → Behaviour)
      (outcome : Except ResolveError LoadedGraph) :
      Answers m m' run node c (.find id next) c (.going (next outcome)) []
  | finding (id : String) (next : Except ResolveError LoadedGraph → Behaviour)
      (due : Nat) (loader : Loader) (fetch : Fetch) (hcache : loader.cache = m.provider.cache) :
      Answers m m' run node c (.find id next) c (.fetchingGraph due loader fetch next) []
  | nestRefused (graph : GraphInstance) (inputs : Inputs) (next : RunResult → Behaviour)
      (result : RunResult) :
      Answers m m' run node c (.nest graph inputs next) c (.going (next result)) []
  | nesting (graph : GraphInstance) (inputs : Inputs) (next : RunResult → Behaviour)
      (child : RunId) (hchild : run < child) :
      Answers m m' run node c (.nest graph inputs next) c (.nesting child next) []
  | sleep (milliseconds due : Nat) (next : Behaviour) :
      Answers m m' run node c (.sleep milliseconds next) c (.sleeping due next) []

/-- How a request of an activity is served that has been taken off the frames `v`. -/
inductive Serves (m m' : Machine) (run : RunId) (v : RunView) (c : Context) (a : Activity)
    (home : Option Nat) : Behaviour → RunView → List (String × Value) → List Nat → Prop
  | ended {request : Behaviour} (ending : Ending) (hending : request.ending? = some ending) :
      Serves m m' run v c a home request (v.conclude a.call ending) [] []
  | answered {request : Behaviour} {after : Context} {progress : Progress}
      {written : List (String × Value)}
      (h : Answers m m' run a.call.node c request after progress written) :
      Serves m m' run v c a home request
        { v with context := some after, frames := .node { a with progress } home :: v.frames } written
        []
  | paused {request : Behaviour} {progress : Progress} {tasks : List (Nat × Activity)}
      {lost : List Nat} (hpause : request.pause? = some progress)
      (h : Shelves m m' c { a with progress } v.tasks home tasks lost) :
      Serves m m' run v c a home request { v with tasks } [] lost
  /-- A trigger of a pin that leads nowhere. -/
  | unwired (pin : String) (next : Except EngineError Nat → Behaviour) (active : ActiveRun)
      (hactive : v.active = some active)
      (hpin : active.graph.target? a.call.node pin = some none) :
      Serves m m' run v c a home (.trigger pin next)
        { v with
          context := some { c with
            tracker := ((c.tracker.dispatch active.scopes.next).complete active.scopes.next).tracker }
          active := some { active with scopes := active.scopes.openNext false a.call.scope }
          frames :=
            .node { a with progress := .going (next (.ok active.scopes.next)) } home :: v.frames } []
        []
  | wired (pin : String) (next : Except EngineError Nat → Behaviour) (active : ActiveRun)
      (target : NodeDocument) (bindings : Bindings) {after : RunView} {lost : List Nat}
      (hactive : v.active = some active)
      (hpin : active.graph.target? a.call.node pin = some (some target.id))
      (htarget : target ∈ active.graph.nodes)
      (h : Invokes m m' run
        { scope := active.scopes.next, node := target.id, kind := target.kind
          params := target.params }
        { v with
          context := some { c with tracker := c.tracker.dispatch active.scopes.next, bindings }
          active := some { active with scopes := active.scopes.openNext true a.call.scope }
          frames :=
            .node { a with progress := .going (next (.ok active.scopes.next)) } home :: v.frames }
        { c with tracker := c.tracker.dispatch active.scopes.next, bindings } after lost) :
      Serves m m' run v c a home (.trigger pin next) after [] lost

/-- What the work of a run does in one move. -/
inductive Labour (m m' : Machine) (run : RunId) (v : RunView) (c : Context) :
    RunView → List (String × Value) → List Nat → Prop
  | polled (before after : List (Nat × Activity)) (task : Nat) (a : Activity)
      (htasks : v.tasks = before ++ (task, a) :: after) (hcan : m.canGoOn a = true) :
      Labour m m' run v c
        { v with tasks := before ++ after, frames := .node a (some task) :: v.frames } [] []
  | shelved (a : Activity) (home : Option Nat) (rest : List Frame) {tasks : List (Nat × Activity)}
      {lost : List Nat} (hframes : v.frames = .node a home :: rest) (hcan : m.canGoOn a = false)
      (h : Shelves m m' c a v.tasks home tasks lost) :
      Labour m m' run v c { v with frames := rest, tasks } [] lost
  | served (a : Activity) (home : Option Nat) (rest : List Frame) {request : Behaviour}
      {after : RunView} {written : List (String × Value)} {lost : List Nat}
      (hframes : v.frames = .node a home :: rest) (hcan : m.canGoOn a = true)
      (hresumes : Resumes a.progress request)
      (h : Serves m m' run { v with frames := rest } c a home request after written lost) :
      Labour m m' run v c after written lost
  /-- The queue is empty. -/
  | released (rest : List Frame) (hframes : v.frames = .drain run :: rest)
      (hcalls : c.queue.calls = []) :
      Labour m m' run v c
        { v with
          context := some { c with queue := { c.queue with draining := false } }
          frames := rest } [] []
  | taken (rest : List Frame) (call : NodeCall) (calls : List NodeCall) (kind : NodeKind)
      (hframes : v.frames = .drain run :: rest) (hcalls : c.queue.calls = call :: calls)
      (hkind : m.provider.registry.get? call.kind = some kind) :
      Labour m m' run v c
        { v with
          context := some { c with queue := { c.queue with calls } }
          frames :=
            .node { run, call, progress := .going (kind.behaviour call) } none :: v.frames } [] []
  | skipped (rest : List Frame) (call : NodeCall) (calls : List NodeCall)
      (hframes : v.frames = .drain run :: rest) (hcalls : c.queue.calls = call :: calls)
      (hkind : m.provider.registry.get? call.kind = none) :
      Labour m m' run v c
        (RunView.conclude { v with context := some { c with queue := { c.queue with calls } } } call
          (.unknownKind call.kind)) [] []

/-- What starting does to a run that has a context, with some loaded graphs. -/
inductive Begins (m m' : Machine) (run : RunId) (graphs : Table Nat Graph) (v : RunView)
    (c : Context) (inputs : Inputs) : RunView → List Nat → Prop
  /-- The graph is not loaded. -/
  | refused (hgraph : graphs.get? c.graph.handle = none) :
      Begins m m' run graphs v c inputs
        { v with context := some { c with inputs := some inputs } } []
  | entered (graph : Graph) (entry : NodeDocument) (bindings : Bindings) {after : RunView}
      {lost : List Nat}
      (hgraph : graphs.get? c.graph.handle = some graph) (hentry : entry ∈ graph.nodes)
      (h : Invokes m m' run
        { scope := rootScope, node := entry.id, kind := entry.kind, params := entry.params }
        { v with
          context := some
            { c with inputs := some inputs, tracker := c.tracker.dispatch rootScope, bindings }
          active := some { graph, inputs, scopes := .initial } }
        { c with inputs := some inputs, tracker := c.tracker.dispatch rootScope, bindings } after
        lost) :
      Begins m m' run graphs v c inputs after lost
  /-- The graph has no nodes. -/
  | nodeless (graph : Graph) (hgraph : graphs.get? c.graph.handle = some graph)
      (hnodes : graph.nodes = []) :
      Begins m m' run graphs v c inputs
        { v with
          context := some { c with
            inputs := some inputs
            tracker := ((c.tracker.dispatch rootScope).complete rootScope).tracker }
          active := some { graph, inputs, scopes := { next := rootScope + 1, entries := {} } } } []

/-- How a move changes what the machine has of one run, and what the run publishes by it. -/
inductive Changes (m m' : Machine) (run : RunId) :
    RunView → RunView → List (String × Value) → Prop
  | same (v : RunView) : Changes m m' run v v []
  | worked {v after : RunView} {c : Context} {written : List (String × Value)} {lost : List Nat}
      (hcontext : v.context = some c) (h : Labour m m' run v c after written lost) :
      Changes m m' run v after written
  /-- A node that waited for the run to finish goes on. -/
  | ended (v : RunView) (a : Activity) (home : Option Nat) (rest : List Frame)
      (next : RunResult → Behaviour) (hframes : m.frames = .node a home :: rest)
      (hprogress : a.progress = .nesting run next) (hfinished : m.isFinished run = true) :
      Changes m m' run v { v with active := none } []
  /-- A node runs a graph on a run of its own. -/
  | begun {after : RunView} {lost : List Nat} (graphs : Table Nat Graph) (graph : GraphInstance)
      (config : RunConfig) (inputs : Inputs) (a : Activity) (home : Option Nat) (rest : List Frame)
      (next : RunResult → Behaviour) (hframes : m.frames = .node a home :: rest)
      (hresumes : Resumes a.progress (.nest graph inputs next)) (hrun : run = m.nextRun)
      (hnext : run < m'.nextRun)
      (hgraphs : ∀ handle g, graphs.get? handle = some g → g.Accepted)
      (h : Begins m m' run graphs { context := some { graph, config } } { graph, config } inputs
        after lost) :
      Changes m m' run {} after []

end RunView

namespace Machine

/-- The cache of the provider, if there is one, leaves the interpreter alone. -/
def Aloof (m : Machine) : Prop := ∀ cache, m.provider.cache = some cache → cache.Aloof

theorem Aloof.loader {m : Machine} (h : m.Aloof) {loader : Loader}
    (hcache : loader.cache = m.provider.cache) : loader.Aloof :=
  fun cache hsome ↦ h cache (hcache ▸ hsome)

/-- What every machine keeps to. -/
structure Housed (m : Machine) : Prop where
  views : ∀ run, (m.view run).Housed m.provider run
  lt_nextRun : ∀ run c, m.context? run = some c → run < m.nextRun
  accepted : m.world.interpreter.GraphsAccepted
  aloof : m.Aloof

/-- What a move publishes for one run. -/
def publishing (m : Machine) (run : RunId) : Move → List (String × Value)
  | .advance =>
    match m.frames with
    | .node a _ :: rest =>
      if a.run == run && m.canGoOn a then
        ({ m with frames := rest }.resume a.progress).1.published
      else []
    | _ => []
  | _ => []

end Machine

end Blueprint

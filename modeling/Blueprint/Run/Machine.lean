import Blueprint.Provider.Basic
import Blueprint.Run.Context

/-!
The machine that runs blueprints: all runs, the tasks of their nodes, and a clock. This module
holds its state and what happens when the interpreter calls back.

Node work is done by activities. An activity runs on a task of its own, or inline on top of whatever
asked for it; the activities and queue drains on top of each other are the frames. Only the topmost
frame moves.
-/

set_option autoImplicit false

namespace Blueprint

/-- How far an activity is. -/
inductive Progress where
  /-- It goes on at once. -/
  | going (rest : Behaviour)
  | sleeping (until_ : Nat) (rest : Behaviour)
  /-- It waits until its tickets are let go. -/
  | joining (tickets : List Nat) (rest : Behaviour)
  | fetchingAsset (until_ : Nat) (loader : Loader) (fetch : Fetch) (form : AssetForm)
      (next : Except ResolveError Value → Behaviour)
  | fetchingGraph (until_ : Nat) (loader : Loader) (fetch : Fetch)
      (next : Except ResolveError LoadedGraph → Behaviour)
  /-- It waits until a run of its own has finished. -/
  | nesting (child : RunId) (next : RunResult → Behaviour)
  /-- It never goes on. -/
  | stalled

/-- The work of one node invocation. -/
structure Activity where
  run : RunId
  call : NodeCall
  progress : Progress

/-- What is under way on top of what. -/
inductive Frame where
  /-- Takes the sync calls of a run one after another. -/
  | drain (run : RunId)
  /-- A node at work, on a task or inline. -/
  | node (activity : Activity) (task : Option Nat)

/-- How an invocation ends. -/
inductive Ending where
  | done
  | failed (failure : Failure)
  | panicked (message : String)
  /-- The runtime does not know the kind of node. -/
  | unknownKind (kind : String)

namespace Ending

def isDone : Ending → Bool
  | .done => true
  | _ => false

/-- What is reported of an invocation that did not succeed. -/
def report : Ending → String
  | .done => ""
  | .failed failure => failure.report
  | .panicked message => s!"panic: {message}"
  | .unknownKind kind => s!"no implementation for kind {kind}"

end Ending

/-- What happened. -/
inductive Event where
  | logged (run : RunId) (node : String) (level : LogLevel) (message : String)
  /-- An invocation has ended; the interpreter has accepted that or not. -/
  | ended (run : RunId) (call : NodeCall) (ending : Ending) (accepted : Bool)
  /-- A completion handler has run; the outputs are those it saw. -/
  | fired (run : RunId) (firing : Firing) (outputs : Inputs)

structure Machine where
  provider : Provider
  world : World := {}
  contexts : Table RunId Context := {}
  /-- Suspended activities, with the numbers of their tasks, the longest waiting first. -/
  tasks : List (Nat × Activity) := []
  /-- The topmost first. -/
  frames : List Frame := []
  /-- Milliseconds since the start. -/
  now : Nat := 0
  /-- Everything that happened, the last first. -/
  events : List Event := []
  /-- How many runs have been asked of the interpreter. -/
  executions : Nat := 0
  nextRun : RunId := 1
  nextTask : Nat := 0
  nextTicket : Nat := 0

namespace Machine

def context? (m : Machine) (run : RunId) : Option Context := m.contexts.get? run

def modifyContext (m : Machine) (run : RunId) (change : Context → Context) : Machine :=
  { m with contexts := m.contexts.modify run change }

def record (m : Machine) (event : Event) : Machine := { m with events := event :: m.events }

def withInterpreter (m : Machine) (interpreter : Interpreter) : Machine :=
  { m with world := { m.world with interpreter } }

/-- What the pins of a run hold. -/
def bindings (m : Machine) (run : RunId) : Bindings :=
  ((m.context? run).map (·.bindings)).getD {}

/-- Puts an activity on a task of its own. Without a place for tasks it is lost. -/
def spawn (m : Machine) (activity : Activity) : Machine :=
  match m.context? activity.run with
  | none => m
  | some c =>
    if c.hasTasks then
      { m with tasks := m.tasks ++ [(m.nextTask, activity)], nextTask := m.nextTask + 1 }
    else m

/-! ### Callbacks -/

/-- A scope of a run has been dispatched. -/
def dispatched (m : Machine) (run : RunId) (scope : Nat) : Machine :=
  m.modifyContext run fun c ↦ { c with tracker := c.tracker.dispatch scope }

/-- A scope of a run has completed. -/
def completed (m : Machine) (run : RunId) (scope : Nat) : Machine :=
  match m.context? run with
  | none => m
  | some c =>
    let completion := c.tracker.complete scope
    let m := m.modifyContext run fun c ↦ { c with tracker := completion.tracker }
    match completion.firing with
    | some firing => m.record (.fired run firing c.outputs)
    | none => m

/-- Sets the completion handler of a run, which runs at once when the run has finished. -/
def onComplete (m : Machine) (run : RunId) (handler : CompletionHandler) : Machine :=
  match m.context? run with
  | none => m
  | some c =>
    let (tracker, firing) := c.tracker.onComplete handler
    let m := m.modifyContext run fun c ↦ { c with tracker }
    match firing with
    | some firing => m.record (.fired run firing c.outputs)
    | none => m

/-- Callbacks that do not start a node. -/
def note (m : Machine) (run : RunId) : Callback → Machine
  | .dispatched scope => m.dispatched run scope
  | .completed scope => m.completed run scope
  | .bind node pin value => m.modifyContext run (·.bind node pin value)
  | .invoke _ => m

/-- Tells the interpreter that the node on a scope has returned; says whether it accepts. -/
def finishScope (m : Machine) (run : RunId) (scope : Nat) : Bool × Machine :=
  let reply := m.world.interpreter.finish run scope
  let m := reply.callbacks.foldl (fun m callback ↦ m.note run callback)
    (m.withInterpreter reply.state)
  match reply.outcome with
  | .ok () => (true, m)
  | .error _ => (false, m)

/-- An invocation has ended. What fails, fails only its own branch. -/
def conclude (m : Machine) (run : RunId) (call : NodeCall) (ending : Ending) : Machine :=
  let m :=
    if ending.isDone then m
    else m.modifyContext run fun c ↦ { c with failedBranches := c.failedBranches + 1 }
  let (accepted, m) := m.finishScope run call.scope
  m.record (.ended run call ending accepted)

/-- Runs a node: on a task when it is async, else after the sync calls that are queued already. -/
def invoke (m : Machine) (run : RunId) (call : NodeCall) : Machine :=
  match m.context? run with
  | none => m
  | some c =>
    match m.provider.registry.get? call.kind with
    | none => m.conclude run call (.unknownKind call.kind)
    | some kind =>
      match kind.mode with
      | .async => m.spawn { run, call, progress := .going (kind.behaviour call) }
      | .sync =>
        let (drains, queue) := c.queue.push call
        let m := m.modifyContext run fun c ↦ { c with queue }
        if drains then { m with frames := .drain run :: m.frames } else m

/-- A callback of the interpreter. -/
def receive (m : Machine) (run : RunId) : Callback → Machine
  | .invoke call => m.invoke run call
  | callback => m.note run callback

/-- Takes over what the interpreter replies in a call for a run. -/
def accept {α : Type} (m : Machine) (run : RunId) (reply : Interpreter.Reply α) : Machine :=
  reply.callbacks.foldl (fun m callback ↦ m.receive run callback) (m.withInterpreter reply.state)

/-! ### Runs -/

/-- Makes a context for a run of a graph. -/
def open_ (m : Machine) (graph : GraphInstance) (config : RunConfig) (hasTasks : Bool) :
    RunId × Machine :=
  (m.nextRun, { m with
    contexts := m.contexts.insert m.nextRun { graph, config, hasTasks }
    nextRun := m.nextRun + 1 })

/-- Hands a run's graph to the interpreter. The inputs of the first start are kept for good. -/
def start (m : Machine) (run : RunId) (inputs : Inputs) : Except EngineError Nat × Machine :=
  match m.context? run with
  | none => (.error (.unknownRun run), m)
  | some c =>
    let inputs := c.inputs.getD inputs
    let m := m.modifyContext run fun c ↦ { c with inputs := some inputs }
    let m := { m with executions := m.executions + 1 }
    let reply := m.world.interpreter.execute c.graph.handle run inputs c.bindings
    (reply.outcome, m.accept run reply)

/-- Starts the branch behind an exec pin. -/
def trigger (m : Machine) (run : RunId) (scope : Nat) (node pin : String) :
    Except EngineError Nat × Machine :=
  let reply := m.world.interpreter.trigger run scope node pin (m.bindings run)
  (reply.outcome, m.accept run reply)

/-- Forgets a run in the interpreter. -/
def endRun (m : Machine) (run : RunId) : Machine :=
  m.withInterpreter (m.world.interpreter.endRun run)

/-- Whether a run has finished. -/
def isFinished (m : Machine) (run : RunId) : Bool :=
  match m.context? run with
  | some c => c.tracker.finished
  | none => false

/-- The end of a run that could not be started. -/
def refuse (m : Machine) (run : RunId) (e : EngineError) : RunResult × Machine :=
  (.failed run e.message, m.endRun run)

/-- The end of a run whose root scope has cleared. -/
def conclusion (m : Machine) (run : RunId) : RunResult × Machine :=
  let result := match m.context? run with
    | some c => c.result run
    | none => .failed run ""
  (result, m.endRun run)

end Machine

end Blueprint

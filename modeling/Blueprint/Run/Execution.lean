import Blueprint.Run.Clock

/-!
Executions: a root blueprint is resolved, run and waited for. Graphs asked for ahead are loaded
first; one that cannot be loaded is left out. Afterwards the graphs that nothing holds any more are
released.
-/

set_option autoImplicit false

namespace Blueprint

/-- What an execution is asked for. -/
structure ExecutionData where
  rootParent : Nat := 0
  /-- Graphs to load ahead, with the inputs they run with. -/
  preload : List (String × Inputs) := []
  /-- Inputs of the root graph. -/
  inputs : Inputs := {}

namespace Machine

/-- A wait that never ends; `unfinished` steps count as one too. -/
inductive Endless where
  | endless
deriving DecidableEq

/-- Some work on the machine that may never end. -/
abbrev Work (α : Type) := Except Endless α × Machine

/-- Resolves a blueprint while the tasks go on. -/
def resolveGraph (steps : Nat) (m : Machine) (id : String) :
    Work (Except ResolveError GraphInstance) :=
  match m.beginFetch id with
  | (.error e, m) => (.ok (.error e), m)
  | (.ok (due, loader, fetch), m) =>
    match m.await (fun m ↦ due ≤ m.now) (some due) steps with
    | (.reached, m) =>
      let (outcome, world) := loader.finish m.provider.blueprints fetch m.world
      (.ok outcome, { m with world })
    | (_, m) => (.error .endless, m)

/-- Loads graphs ahead in order; of two for one id the later counts. -/
def loadAhead (steps : Nat) : List (String × Inputs) → RunConfig → Machine → Work RunConfig
  | [], config, m => (.ok config, m)
  | (id, inputs) :: rest, config, m =>
    match m.resolveGraph steps id with
    | (.error e, m) => (.error e, m)
    | (.ok (.ok graph), m) =>
      loadAhead steps rest { config with loaded := config.loaded.insert id { graph, inputs } } m
    | (.ok (.error _), m) => loadAhead steps rest config m

/-- What a run is given besides its inputs. -/
def materialize (steps : Nat) (m : Machine) (data : ExecutionData) : Work RunConfig :=
  loadAhead steps data.preload { rootParent := data.rootParent } m

/-- Text of a list of numbers. -/
def listText (numbers : List Nat) : String :=
  "[" ++ String.intercalate ", " (numbers.map toString) ++ "]"

/-- The end of a run that took too long. -/
def lateResult (m : Machine) (run : RunId) : RunResult × Machine :=
  let pending := ((m.context? run).map (·.tracker.pendingScopes)).getD []
  (.failed run ("root scope did not clear in time; pending scopes " ++ listText pending),
    m.endRun run)

/-- Starts a run and waits for its root scope to clear. -/
def runToEnd (steps : Nat) (m : Machine) (run : RunId) (inputs : Inputs) (timeout : Option Nat) :
    Work RunResult :=
  match m.start run inputs with
  | (.error e, m) =>
    let (result, m) := m.refuse run e
    (.ok result, m)
  | (.ok _, m) =>
    match m.await (·.isFinished run) (timeout.map (m.now + ·)) steps with
    | (.reached, m) =>
      let (result, m) := m.conclusion run
      (.ok result, m)
    | (.late, m) =>
      let (result, m) := m.lateResult run
      (.ok result, m)
    | (_, m) => (.error .endless, m)

/-! ### Release -/

/-- Whether something still refers to a context: a run under way, or a task. -/
def isHeld (m : Machine) (run : RunId) : Bool :=
  m.world.interpreter.runs.contains run || m.tasks.any fun (_, a) ↦
    a.run == run ||
      match a.progress with
      | .nesting child _ => child == run
      | _ => false

/-- The handles that values hold. -/
def handlesOf (values : Inputs) : List Nat :=
  values.entries.filterMap fun (_, value) ↦ value.asBlueprint?.map (·.handle)

/-- The handles that a run's configuration holds. -/
def configHandles (config : RunConfig) : List Nat :=
  config.loaded.entries.flatMap fun (_, loaded) ↦ loaded.graph.handle :: handlesOf loaded.inputs

/-- The handles that a context holds. -/
def contextHandles (c : Context) : List Nat :=
  c.graph.handle :: configHandles c.config ++ handlesOf (c.inputs.getD {}) ++
    handlesOf c.outputs ++ c.bindings.entries.filterMap fun (_, value) ↦
      value.asBlueprint?.map (·.handle)

/-- Drops contexts that nothing refers to, and releases graphs that no context holds. -/
def collect (m : Machine) : Machine :=
  let contexts : Table RunId Context :=
    ⟨m.contexts.entries.filter fun (run, _) ↦ m.isHeld run⟩
  let held := contexts.entries.flatMap fun (_, c) ↦ contextHandles c
  let interpreter := m.world.interpreter.graphs.keys.foldl
    (fun (e : Interpreter) handle ↦ if held.contains handle then e else e.release handle)
    m.world.interpreter
  { m with contexts }.withInterpreter interpreter

/-! ### Executions -/

/-- Values under the same names give way to others. -/
def override (inputs others : Inputs) : Inputs :=
  others.entries.foldl (fun inputs (name, value) ↦ inputs.insert name value) inputs

/-- The root graph and the inputs it brings: one loaded ahead, else the one of the catalog. -/
def chooseRoot (steps : Nat) (m : Machine) (config : RunConfig) (root : String) :
    Work (Except ResolveError LoadedGraph) :=
  match config.loaded.get? root with
  | some loaded => (.ok (.ok loaded), m)
  | none =>
    match m.resolveGraph steps root with
    | (.ok outcome, m) => (.ok (outcome.map fun graph ↦ { graph, inputs := {} }), m)
    | (.error e, m) => (.error e, m)

/-- The end of an execution whose root cannot be resolved. -/
def rootFailure (root : String) (e : ResolveError) : RunResult :=
  .failed nilRun s!"failed to resolve root graph '{root}': {e.message}"

/-- Runs a root blueprint to its end. -/
def execute (steps : Nat) (m : Machine) (data : ExecutionData) (root : String)
    (timeout : Option Nat) : Work RunResult :=
  match m.materialize steps data with
  | (.error e, m) => (.error e, m)
  | (.ok config, m) =>
    match m.chooseRoot steps config root with
    | (.error e, m) => (.error e, m)
    | (.ok (.error e), m) => (.ok (rootFailure root e), m.collect)
    | (.ok (.ok loaded), m) =>
      let (run, m) := m.open_ loaded.graph config true
      let (result, m) := m.runToEnd steps run (override loaded.inputs data.inputs) timeout
      (result, m.collect)

end Machine

end Blueprint

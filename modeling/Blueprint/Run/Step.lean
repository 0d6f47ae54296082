import Blueprint.Run.Machine

/-!
The moves of the machine. `Machine.advance` moves the topmost frame by one request; when no frame is
left, `Machine.poll` puts a suspended activity that can go on back on top. Which one is polled is
left open: a list of moves is a schedule.
-/

set_option autoImplicit false

namespace Blueprint.Machine

/-- Whether an activity can go on. -/
def canGoOn (m : Machine) (a : Activity) : Bool :=
  match a.progress with
  | .going _ => true
  | .sleeping due _ | .fetchingAsset due _ _ _ _ | .fetchingGraph due _ _ _ => due ≤ m.now
  | .joining tickets _ =>
    match m.context? a.run with
    | some c => tickets.all fun ticket ↦ !c.tracker.isWaiting ticket
    | none => false
  | .nesting child _ => m.isFinished child
  | .stalled => false

/-- What an activity that can go on does next. What it waited for is taken in first. -/
def resume (m : Machine) : Progress → Behaviour × Machine
  | .going rest | .sleeping _ rest | .joining _ rest => (rest, m)
  | .fetchingAsset _ loader fetch form next =>
    let (outcome, world) := loader.finish (Provider.assetDecoder form) fetch m.world
    (next outcome, { m with world })
  | .fetchingGraph _ loader fetch next =>
    let (outcome, world) := loader.finish m.provider.blueprints fetch m.world
    (next (outcome.map fun graph ↦ { graph, inputs := {} }), { m with world })
  | .nesting child next =>
    let (result, m) := m.conclusion child
    (next result, m)
  | .stalled => (.stall, m)

/-- Puts an activity that has to wait on its task, or on a new one when it is inline. -/
def suspend (m : Machine) (a : Activity) (home : Option Nat) : Machine :=
  match home with
  | some task => { m with tasks := m.tasks ++ [(task, a)] }
  | none => m.spawn a

/-- Puts a node on top of the frames. -/
def enter (m : Machine) (a : Activity) (home : Option Nat) (progress : Progress) : Machine :=
  { m with frames := .node { a with progress } home :: m.frames }

/-- Takes a ticket for each scope that is pending. -/
def takeTickets (run : RunId) : List Nat → Machine → List Nat × Machine
  | [], m => ([], m)
  | scope :: rest, m =>
    match m.context? run with
    | none => ([], m)
    | some c =>
      let (tracker, held) := c.tracker.wait scope m.nextTicket
      let ticket := m.nextTicket
      let m := m.modifyContext run fun c ↦ { c with tracker }
      let (tickets, m) := takeTickets run rest { m with nextTicket := ticket + 1 }
      (if held then ticket :: tickets else tickets, m)

/-- Begins to fetch the resource of an id. -/
def beginFetch (m : Machine) (id : String) : Except ResolveError (Nat × Loader × Fetch) × Machine :=
  match m.provider.lookup id with
  | .error e => (.error e, m)
  | .ok d =>
    let loader := m.provider.loaderFor d
    let (fetch, world) := loader.start d m.world
    (.ok (m.now + loader.wait fetch, loader, fetch), { m with world })

/-- Serves a request of a node that has been taken off the frames. -/
def serve (m : Machine) (a : Activity) (home : Option Nat) : Behaviour → Machine
  | .succeed => m.conclude a.run a.call .done
  | .fail failure => m.conclude a.run a.call (.failed failure)
  | .panic message => m.conclude a.run a.call (.panicked message)
  | .read node pin next =>
    m.enter a home (.going (next ((m.context? a.run).bind (·.read? node pin))))
  | .write pin value next =>
    (m.modifyContext a.run (·.bind a.call.node pin value)).enter a home (.going next)
  | .publish name value next =>
    (m.modifyContext a.run (·.publish name value)).enter a home (.going next)
  | .log level message next =>
    (m.record (.logged a.run a.call.node level message)).enter a home (.going next)
  | .trigger pin next =>
    let reply := m.world.interpreter.trigger a.run a.call.scope a.call.node pin (m.bindings a.run)
    (m.enter a home (.going (next reply.outcome))).accept a.run reply
  | .join scopes next =>
    let (tickets, m) := takeTickets a.run scopes m
    m.enter a home (.joining tickets next)
  | .load form id next =>
    match m.beginFetch id with
    | (.error e, m) => m.enter a home (.going (next (.error e)))
    | (.ok (due, loader, fetch), m) => m.enter a home (.fetchingAsset due loader fetch form next)
  | .find id next =>
    match (m.context? a.run).bind fun c ↦ c.config.loaded.get? id with
    | some loaded => m.enter a home (.going (next (.ok loaded)))
    | none =>
      match m.beginFetch id with
      | (.error e, m) => m.enter a home (.going (next (.error e)))
      | (.ok (due, loader, fetch), m) => m.enter a home (.fetchingGraph due loader fetch next)
  | .nest graph inputs next =>
    let config := ((m.context? a.run).map (·.config)).getD {}
    let (child, m) := m.open_ graph config true
    let below := m.frames
    match (m.enter a home (.nesting child next)).start child inputs with
    | (.ok _, m) => m
    | (.error e, m) =>
      let (result, m) := m.refuse child e
      { m with frames := below }.enter a home (.going (next result))
  | .sleep milliseconds next => m.enter a home (.sleeping (m.now + milliseconds) next)
  | .yield next => m.suspend { a with progress := .going next } home
  | .stall => m.suspend { a with progress := .stalled } home

/-- Moves the topmost frame. -/
def advance (m : Machine) : Machine :=
  match m.frames with
  | [] => m
  | .drain run :: rest =>
    match m.context? run with
    | none => { m with frames := rest }
    | some c =>
      let (next, queue) := c.queue.pop
      let m := m.modifyContext run fun c ↦ { c with queue }
      match next with
      | none => { m with frames := rest }
      | some call =>
        match m.provider.registry.get? call.kind with
        | none => m.conclude run call (.unknownKind call.kind)
        | some kind => m.enter { run, call, progress := .stalled } none (.going (kind.behaviour call))
  | .node a home :: rest =>
    let below := { m with frames := rest }
    if m.canGoOn a then
      let (behaviour, below) := below.resume a.progress
      below.serve a home behaviour
    else below.suspend a home

/-- Takes a task off the suspended ones. -/
def takeTask (task : Nat) : List (Nat × Activity) → Option (Activity × List (Nat × Activity))
  | [] => none
  | (n, a) :: rest =>
    if n = task then some (a, rest)
    else (takeTask task rest).map fun (found, rest) ↦ (found, (n, a) :: rest)

/-- Puts a suspended activity back on top, if it can go on and nothing else is under way. -/
def poll (m : Machine) (task : Nat) : Machine :=
  match m.frames, takeTask task m.tasks with
  | [], some (a, tasks) =>
    if m.canGoOn a then { m with tasks, frames := [.node a (some task)] } else m
  | _, _ => m

/-- Lets time pass. -/
def tick (m : Machine) (moment : Nat) : Machine := { m with now := max m.now moment }

/-- One move. -/
inductive Move where
  | advance
  | poll (task : Nat)
  | tick (moment : Nat)
deriving DecidableEq

def step (m : Machine) : Move → Machine
  | .advance => m.advance
  | .poll task => m.poll task
  | .tick moment => m.tick moment

/-- The machine after a schedule. -/
def run (m : Machine) (schedule : List Move) : Machine := schedule.foldl step m

end Blueprint.Machine

import Blueprint.Proofs.Run.Reach

/-!
The journal of a run. The machine keeps what the pins of a run hold and which nodes are at work, but
not how that came about; the journal says so. It is written beside the machine, from what the
interpreter tells in a move and what the node that moves asks for (`Machine.deeds`), and it is not
read by anything that runs. `Machine.Records` strings together whatever may happen, with the journal
of every run.
-/

set_option autoImplicit false

namespace Blueprint

/-- What is told of a run. -/
inductive Deed where
  /-- The interpreter has bound pins of a node, and asks for the node to be run. -/
  | invoked (call : NodeCall) (bound : List (String × Value))
  | read (call : NodeCall) (node pin : String) (answer : Option Value)
  | wrote (call : NodeCall) (pin : String) (value : Value)
  | triggered (call : NodeCall) (pin : String) (outcome : Except EngineError Nat)
  | nested (call : NodeCall) (graph : GraphInstance) (inputs : Inputs)
  /-- The interpreter was told that the node has returned, and has accepted that or not. -/
  | ended (call : NodeCall) (ending : Ending) (accepted : Bool)
  /-- The interpreter has forgotten the run. -/
  | closed

namespace Deed

/-- The scope of the node that does it. -/
def scope? : Deed → Option Nat
  | read call _ _ _ | wrote call _ _ | triggered call _ _ | nested call _ _ => some call.scope
  | invoked _ _ | ended _ _ _ | closed => none

/-- What is put on pins. -/
def puts : Deed → List ((String × String) × Value)
  | invoked call bound => bound.map fun pin ↦ ((call.node, pin.1), pin.2)
  | wrote call pin value => [((call.node, pin), value)]
  | _ => []

def invoked? : Deed → Option NodeCall
  | invoked call _ => some call
  | _ => none

/-- How an invocation has ended, and whether that was accepted. -/
def ended? : Deed → Option (NodeCall × Ending × Bool)
  | ended call ending accepted => some (call, ending, accepted)
  | _ => none

end Deed

/-- The pin that is bound, with its value. -/
def Callback.bound? : Callback → Option (String × Value)
  | .bind _ pin value => some (pin, value)
  | _ => none

/-- The node that is to be run. -/
def Callback.call? : Callback → Option NodeCall
  | .invoke call => some call
  | _ => none

/-- The nodes that the interpreter asks for, with the pins that it has bound. -/
def begun (callbacks : List Callback) : List Deed :=
  (callbacks.filterMap Callback.call?).map fun call ↦
    .invoked call (callbacks.filterMap Callback.bound?)

/-- Puts values on pins in order. -/
def Bindings.putAll (b : Bindings) (writes : List ((String × String) × Value)) : Bindings :=
  writes.foldl (fun b write ↦ b.insert write.1 write.2) b

/-- The value that was put last on a pin. -/
def lastPut (node pin : String) (journal : List Deed) : Option Value :=
  ((journal.flatMap Deed.puts).reverse.find? fun write ↦ write.1 == (node, pin)).map (·.2)

namespace Machine

/-- The endings of a run's invocations so far, in order. -/
def endings (m : Machine) (run : RunId) : List (NodeCall × Ending × Bool) :=
  m.events.reverse.filterMap fun
    | .ended other call ending accepted =>
        if other = run then some (call, ending, accepted) else none
    | _ => none

/-- What has ended of a run between one machine and a later one: invocations, or the run. -/
def since (m m' : Machine) (run : RunId) : List Deed :=
  ((m'.endings run).drop (m.endings run).length).map (fun e ↦ .ended e.1 e.2.1 e.2.2) ++
    if (m.world.interpreter.runs.get? run).isSome &&
        (m'.world.interpreter.runs.get? run).isNone then
      [.closed]
    else []

/-- What a node does by a request. -/
def doing (m : Machine) (a : Activity) : Behaviour → List Deed
  | .read node pin _ => [.read a.call node pin ((m.context? a.run).bind (·.read? node pin))]
  | .write pin value _ => [.wrote a.call pin value]
  | .trigger pin _ =>
    let reply := m.world.interpreter.trigger a.run a.call.scope a.call.node pin (m.bindings a.run)
    .triggered a.call pin reply.outcome :: begun reply.callbacks
  | .nest graph inputs _ => [.nested a.call graph inputs]
  | _ => []

/-- What a request of a node tells of a run, its own or one that it begins. -/
def asking (m : Machine) (run : RunId) (a : Activity) (request : Behaviour) : List Deed :=
  if a.run = run then m.doing a request
  else
    match request with
    | .nest graph inputs _ =>
      if run = m.nextRun then
        begun (m.world.interpreter.execute graph.handle run inputs {}).callbacks
      else []
    | _ => []

/-- What a move tells of a run. -/
def deeds (m : Machine) (run : RunId) (move : Move) : List Deed :=
  (match move, m.frames with
    | .advance, .node a _ :: rest =>
      if m.canGoOn a then
        let resumed := ({ m with frames := rest } : Machine).resume a.progress
        resumed.2.asking run a resumed.1
      else []
    | _, _ => []) ++ m.since (m.step move) run

/-- What may happen next, with what is told of each run. -/
inductive Occurs (m : Machine) : Machine → (RunId → List Deed) → Prop
  | moved (move : Move) : Occurs m (m.step move) fun run ↦ m.deeds run move
  | opened (graph : GraphInstance) (config : RunConfig) (hasTasks : Bool) :
      Occurs m (m.open_ graph config hasTasks).2 fun _ ↦ []
  /-- The first start of a context. -/
  | started (run : RunId) (c : Context) (inputs : Inputs) (hcontext : m.context? run = some c)
      (hinputs : c.inputs = none) :
      Occurs m (m.start run inputs).2 fun other ↦
        (if other = run then
          begun (m.world.interpreter.execute c.graph.handle run inputs c.bindings).callbacks
        else []) ++ m.since (m.start run inputs).2 other
  | ended (run : RunId) : Occurs m (m.endRun run) fun other ↦ m.since (m.endRun run) other
  | handled (run : RunId) (handler : CompletionHandler) :
      Occurs m (m.onComplete run handler) fun _ ↦ []
  /-- Something else changes: resources, or the loaded graphs. -/
  | changed (world : World) (hruns : world.interpreter.runs = m.world.interpreter.runs)
      (haccepted : world.interpreter.GraphsAccepted) : Occurs m { m with world } fun _ ↦ []

/-- What happens in some order, with the journal of each run. -/
inductive Records (m : Machine) : Machine → (RunId → List Deed) → Prop
  | refl : Records m m fun _ ↦ []
  | next {middle later : Machine} {journal more : RunId → List Deed}
      (h : Records m middle journal) (hnext : Occurs middle later more) :
      Records m later fun run ↦ journal run ++ more run

variable {m m' : Machine} {journal more : RunId → List Deed}

theorem Occurs.happens (h : Occurs m m' more) : ∃ written, Happens m m' written := by
  cases h with
  | moved move => exact ⟨_, .moved move⟩
  | opened graph config hasTasks => exact ⟨_, .opened graph config hasTasks⟩
  | started run c inputs hcontext hinputs => exact ⟨_, .started run c inputs hcontext hinputs⟩
  | ended run => exact ⟨_, .ended run⟩
  | handled run handler => exact ⟨_, .handled run handler⟩
  | changed world hruns haccepted => exact ⟨_, .changed world hruns haccepted⟩

theorem Records.leads (h : Records m m' journal) : ∃ history, Leads m m' history := by
  induction h with
  | refl => exact ⟨_, .refl⟩
  | next _ hnext ih =>
    obtain ⟨history, hleads⟩ := ih
    obtain ⟨written, hhappens⟩ := hnext.happens
    exact ⟨_, hleads.next hhappens⟩

theorem Records.trans {later : Machine} (h : Records m m' journal)
    (hlater : Records m' later more) :
    Records m later fun run ↦ journal run ++ more run := by
  induction hlater with
  | refl =>
    simp only [List.append_nil]
    exact h
  | next _ hnext ih =>
    simp only [← List.append_assoc]
    exact ih.next hnext

/-- The journal of a schedule. -/
def journalOf (m : Machine) (run : RunId) : List Move → List Deed
  | [] => []
  | move :: rest => m.deeds run move ++ journalOf (m.step move) run rest

theorem records_run (m : Machine) (schedule : List Move) :
    Records m (m.run schedule) fun run ↦ m.journalOf run schedule := by
  induction schedule generalizing m with
  | nil => exact .refl
  | cons move rest ih =>
    have hfirst := (Records.refl.next (.moved move)).trans (ih (m.step move))
    exact hfirst

end Machine

end Blueprint

import Blueprint.Proofs.Run.Journal
import Mathlib.Data.Multiset.AddSub

/-!
How a run stands. A `Standing` holds of a run what its invocations come to: what its pins hold, how
many invocations have failed, which are under way and how far, and how many scopes there are while
the interpreter knows the run. `Standing.Step` lists all that can become of it, with what the
journal says of each step: a node acts, an invocation begins or ends, the run begins or is closed.

Whatever happens on a machine will be shown to be, for each run, some such steps that tell just what
the journal of the run tells. So facts about the invocations of a run can be shown of standings and
their few steps.
-/

set_option autoImplicit false

namespace Blueprint

/-- An invocation with how far its activity is, or with nothing as long as its call is queued. -/
abbrev Work := NodeCall × Option Progress

structure Standing where
  config : RunConfig := {}
  /-- Async nodes can be given tasks. -/
  hasTasks : Bool := true
  started : Bool := false
  /-- How many scopes there are, while the run is under way. -/
  next? : Option Nat := none
  bindings : Bindings := {}
  failures : Nat := 0
  working : Multiset Work := 0
  /-- The invocations that have ended. -/
  endings : List (NodeCall × Ending × Bool) := []

/-- A graph that is looked up was loaded ahead, or it comes without inputs. -/
def RunConfig.Finds (config : RunConfig) (id : String)
    (outcome : Except ResolveError LoadedGraph) : Prop :=
  ∀ loaded, outcome = .ok loaded →
    config.loaded.get? id = some loaded ∨ (config.loaded.get? id = none ∧ loaded.inputs = {})

/-- What a node does by a request that does not end it, and how far it is then. -/
inductive Behaviour.Asks (config : RunConfig) (bindings : Bindings) (call : NodeCall) :
    Behaviour → List Deed → Progress → Prop
  | read (node pin : String) (next : Option Value → Behaviour) :
      Asks config bindings call (.read node pin next)
        [.read call node pin (bindings.get? (node, pin))]
        (.going (next (bindings.get? (node, pin))))
  | write (pin : String) (value : Value) (next : Behaviour) :
      Asks config bindings call (.write pin value next) [.wrote call pin value] (.going next)
  | publish (name : String) (value : Value) (next : Behaviour) :
      Asks config bindings call (.publish name value next) [] (.going next)
  | log (level : LogLevel) (message : String) (next : Behaviour) :
      Asks config bindings call (.log level message next) [] (.going next)
  | trigger (pin : String) (next : Except EngineError Nat → Behaviour)
      (outcome : Except EngineError Nat) :
      Asks config bindings call (.trigger pin next) [.triggered call pin outcome]
        (.going (next outcome))
  | join (scopes : List Nat) (next : Behaviour) (tickets : List Nat) :
      Asks config bindings call (.join scopes next) [] (.joining tickets next)
  | loadRefused (form : AssetForm) (id : String) (next : Except ResolveError Value → Behaviour)
      (error : ResolveError) :
      Asks config bindings call (.load form id next) [] (.going (next (.error error)))
  | loading (form : AssetForm) (id : String) (next : Except ResolveError Value → Behaviour)
      (due : Nat) (loader : Loader) (fetch : Fetch) :
      Asks config bindings call (.load form id next) [] (.fetchingAsset due loader fetch form next)
  | found (id : String) (next : Except ResolveError LoadedGraph → Behaviour)
      (outcome : Except ResolveError LoadedGraph) (hfinds : config.Finds id outcome) :
      Asks config bindings call (.find id next) [] (.going (next outcome))
  | finding (id : String) (next : Except ResolveError LoadedGraph → Behaviour)
      (due : Nat) (loader : Loader) (fetch : Fetch) (hloaded : config.loaded.get? id = none) :
      Asks config bindings call (.find id next) [] (.fetchingGraph due loader fetch next)
  | nestRefused (graph : GraphInstance) (inputs : Inputs) (next : RunResult → Behaviour)
      (result : RunResult) :
      Asks config bindings call (.nest graph inputs next) [.nested call graph inputs]
        (.going (next result))
  | nesting (graph : GraphInstance) (inputs : Inputs) (next : RunResult → Behaviour)
      (child : RunId) :
      Asks config bindings call (.nest graph inputs next) [.nested call graph inputs]
        (.nesting child next)
  | sleep (milliseconds due : Nat) (next : Behaviour) :
      Asks config bindings call (.sleep milliseconds next) [] (.sleeping due next)
  | yield (next : Behaviour) : Asks config bindings call (.yield next) [] (.going next)
  | stall : Asks config bindings call .stall [] .stalled

/-- How an invocation ends that is so far. -/
inductive NodeCall.Returns (registry : Registry) (call : NodeCall) : Option Progress → Ending → Prop
  | ended {progress : Progress} {request : Behaviour} {ending : Ending}
      (hresumes : RunView.Resumes progress request) (hending : request.ending? = some ending) :
      Returns registry call (some progress) ending
  | unknown (hkind : registry.get? call.kind = none) :
      Returns registry call none (.unknownKind call.kind)

namespace Standing

/-- What can become of a run, with what is told of it. -/
inductive Step (registry : Registry) (s : Standing) : List Deed → Standing → Prop
  /-- A context is made. -/
  | opened (config : RunConfig) (hasTasks : Bool) (hstarted : s.started = false) :
      Step registry s [] { s with config, hasTasks }
  /-- The run is started; the interpreter may not know its graph. -/
  | begun (next? : Option Nat) (hstarted : s.started = false) (hnext : ∀ n ∈ next?, n = rootScope) :
      Step registry s [] { s with started := true, next? }
  | invoked (call : NodeCall) (bound : List (String × Value)) (hnext : s.next? = some call.scope) :
      Step registry s [.invoked call bound] { s with
        next? := some (call.scope + 1)
        bindings := s.bindings.putAll (Deed.invoked call bound).puts
        working := (call, none) ::ₘ s.working }
  /-- A scope is used up for a pin that leads nowhere, or a graph without nodes. -/
  | skipped (next : Nat) (hnext : s.next? = some next) :
      Step registry s [] { s with next? := some (next + 1) }
  | taken (call : NodeCall) (kind : NodeKind) (rest : Multiset Work)
      (hworking : s.working = (call, none) ::ₘ rest)
      (hkind : registry.get? call.kind = some kind) :
      Step registry s []
        { s with working := (call, some (.going (kind.behaviour call))) ::ₘ rest }
  | acted (call : NodeCall) (rest : Multiset Work) {progress later : Progress} {request : Behaviour}
      {told : List Deed} (hworking : s.working = (call, some progress) ::ₘ rest)
      (hresumes : RunView.Resumes progress request)
      (hasks : request.Asks s.config s.bindings call told later) :
      Step registry s told { s with
        bindings := s.bindings.putAll (told.flatMap Deed.puts)
        working := (call, some later) ::ₘ rest }
  | ended (call : NodeCall) (stage : Option Progress) (ending : Ending) (rest : Multiset Work)
      (hworking : s.working = (call, stage) ::ₘ rest)
      (hreturns : call.Returns registry stage ending) :
      Step registry s [.ended call ending s.next?.isSome] { s with
        failures := s.failures + if ending.isDone then 0 else 1
        working := rest
        endings := s.endings ++ [(call, ending, s.next?.isSome)] }
  /-- Work is lost for want of a place for tasks. -/
  | lost (work : Work) (rest : Multiset Work) (hworking : s.working = work ::ₘ rest)
      (htasks : s.hasTasks = false) : Step registry s [] { s with working := rest }
  | closed (hnext : s.next?.isSome = true) : Step registry s [.closed] { s with next? := none }

/-- Some steps after another. -/
inductive Steps (registry : Registry) : Standing → List Deed → Standing → Prop
  | refl (s : Standing) : Steps registry s [] s
  | next {s middle later : Standing} {told more : List Deed} (h : Steps registry s told middle)
      (hstep : Step registry middle more later) : Steps registry s (told ++ more) later

variable {registry : Registry} {s middle later : Standing} {told more : List Deed}

theorem Step.steps (h : Step registry s told later) : Steps registry s told later :=
  Steps.next (.refl s) h

theorem Steps.trans (h : Steps registry s told middle) (hlater : Steps registry middle more later) :
    Steps registry s (told ++ more) later := by
  induction hlater with
  | refl => exact (List.append_nil told).symm ▸ h
  | next _ hstep ih => exact List.append_assoc told _ _ ▸ ih.next hstep

theorem Steps.of_eq (h : s = later) : Steps registry s [] later := h ▸ .refl s

end Standing

namespace RunView

/-- The invocations of a run that are under way. -/
def works (v : RunView) : Multiset Work :=
  ((v.queued.map fun call ↦ (call, none)) ++ v.activities.map fun a ↦ (a.call, some a.progress) :
    List Work)

/-- How a run stands, with work in hand. -/
def standing (v : RunView) (hand : Multiset Work) (endings : List (NodeCall × Ending × Bool)) :
    Standing where
  config := (v.context.map (·.config)).getD {}
  hasTasks := (v.context.map (·.hasTasks)).getD true
  started := (v.context.map (·.inputs.isSome)).getD false
  next? := v.active.map (·.scopes.next)
  bindings := (v.context.map (·.bindings)).getD {}
  failures := (v.context.map (·.failedBranches)).getD 0
  working := hand + v.works
  endings

variable {v : RunView} {c : Context}

theorem works_push_node (v : RunView) (a : Activity) (home : Option Nat) :
    ({ v with frames := .node a home :: v.frames } : RunView).works =
      (a.call, some a.progress) ::ₘ v.works :=
  Multiset.coe_eq_coe.mpr List.perm_middle

theorem works_push_task (v : RunView) (task : Nat) (a : Activity) :
    ({ v with tasks := v.tasks ++ [(task, a)] } : RunView).works =
      (a.call, some a.progress) ::ₘ v.works := by
  have hactivities : ({ v with tasks := v.tasks ++ [(task, a)] } : RunView).activities =
      v.activities ++ [a] := by
    simp [activities]
  refine Multiset.coe_eq_coe.mpr ?_
  rw [hactivities, List.map_append, ← List.append_assoc]
  exact List.perm_append_singleton _ _

/-- Assumes: another context with the same queue. -/
theorem works_of_queue (later : Context) (hcontext : v.context = some c)
    (hcalls : later.queue.calls = c.queue.calls) (active : Option ActiveRun) :
    ({ v with context := some later, active } : RunView).works = v.works := by
  simp only [works, queued, hcontext, Option.map_some, hcalls]
  rfl

theorem works_push_call (later : Context) {call : NodeCall} (hcontext : v.context = some c)
    (hcalls : later.queue.calls = c.queue.calls ++ [call]) :
    ({ v with context := some later } : RunView).works = (call, none) ::ₘ v.works := by
  refine Multiset.coe_eq_coe.mpr ?_
  simp only [queued, hcontext, Option.map_some, hcalls, Option.getD_some, List.map_append,
    List.map_singleton, List.append_assoc]
  exact List.perm_middle

theorem works_pop_call {later : Context} {call : NodeCall} {calls : List NodeCall}
    (hcontext : v.context = some c) (hcalls : c.queue.calls = call :: calls)
    (hlater : later.queue.calls = calls) :
    v.works = (call, none) ::ₘ ({ v with context := some later } : RunView).works := by
  simp only [works, queued, hcontext, Option.map_some, hcalls, hlater, Option.getD_some,
    List.map_cons]
  rfl

theorem queued_finish (v : RunView) (scope : Nat) : (v.finish scope).queued = v.queued := by
  unfold RunView.finish
  split
  · rfl
  · split
    · rfl
    · simp only [queued, Option.map_map]
      rfl

/-- The interpreter accepts that the node on a scope has returned. -/
def Accepts (v : RunView) (scope : Nat) : Prop :=
  ∀ active, v.active = some active → (active.scopes.finish scope).isSome = true

theorem Balanced.accepts {hand lost : List Nat} {scope : Nat}
    (h : v.Balanced (scope :: hand) lost) : v.Accepts scope := by
  intro active hactive
  obtain ⟨closed, scopes, hfinish⟩ := ScopeTable.finish_of_awaits (h.awaits hactive)
  rw [hfinish, Option.isSome_some]

theorem next_finish {scopes later : ScopeTable} {scope : Nat} {closed : List Nat}
    (h : scopes.finish scope = some (closed, later)) : later.next = scopes.next := by
  unfold ScopeTable.finish at h
  split at h
  · split_ifs at h
    obtain rfl := (Prod.mk.inj (Option.some.inj h)).2
    rfl
  · cases h

theorem standing_finish (v : RunView) (scope : Nat) (hand : Multiset Work)
    (endings : List (NodeCall × Ending × Bool)) :
    (v.finish scope).standing hand endings = v.standing hand endings := by
  have hworks : (v.finish scope).works = v.works := by
    rw [works, works, queued_finish, finish_activities]
  rw [standing, hworks]
  unfold RunView.finish
  split
  · rfl
  · rename_i active hactive
    split
    · rfl
    · rename_i closed scopes hfinish
      simp only [standing, Option.map_map, Function.comp_def, hactive, Option.map_some,
        next_finish hfinish]

/-- An invocation that ends, with work that is not its own. -/
theorem standing_conclude (hcontext : v.context = some c) (call : NodeCall) (ending : Ending)
    (hand : Multiset Work) (endings : List (NodeCall × Ending × Bool)) :
    (v.conclude call ending).standing hand endings = { v.standing hand endings with
      failures := (v.standing hand endings).failures + if ending.isDone then 0 else 1 } := by
  rw [conclude, standing_finish]
  split_ifs with hdone
  · rfl
  · have hworks :=
      works_of_queue { c with failedBranches := c.failedBranches + 1 } hcontext rfl v.active
    simp only [standing, hcontext, Option.map_some] at hworks ⊢
    rw [hworks]
    rfl

end RunView

/-- Contexts that nothing but pins, the queue and the tracker tell apart. -/
structure Context.Alike (c later : Context) : Prop where
  config : later.config = c.config
  hasTasks : later.hasTasks = c.hasTasks
  inputs : later.inputs = c.inputs
  failedBranches : later.failedBranches = c.failedBranches

namespace Machine

/-- How a run stands on a machine, with work in hand. -/
def standing (m : Machine) (run : RunId) (hand : Multiset Work) : Standing :=
  (m.view run).standing hand (m.endings run)

variable {m m' : Machine} {run : RunId} {a : Activity} {c : Context}

theorem standing_eq (hcontext : m.context? run = some c) (hand : Multiset Work) :
    m.standing run hand = {
      config := c.config, hasTasks := c.hasTasks, started := c.inputs.isSome
      next? := (m.view run).active.map (·.scopes.next), bindings := c.bindings
      failures := c.failedBranches, working := hand + (m.view run).works
      endings := m.endings run } := by
  have hview : (m.view run).context = some c := hcontext
  simp only [standing, RunView.standing, hview, Option.map_some, Option.getD_some]

theorem standing_congr (hview : m'.view run = m.view run)
    (hendings : m'.endings run = m.endings run) (hand : Multiset Work) :
    m'.standing run hand = m.standing run hand := by
  rw [standing, hview, hendings, standing]

/-- Work that neither the context nor the interpreter's scopes have to do with stays. -/
theorem works_of_view {later : Context} {active : Option ActiveRun}
    (hcontext : m.context? run = some c)
    (hview : m'.view run = { m.view run with context := some later, active })
    (hcalls : later.queue.calls = c.queue.calls) : (m'.view run).works = (m.view run).works := by
  rw [hview]
  exact RunView.works_of_queue later hcontext hcalls active

/-- Assumes: the same run with other work, and nothing of it that has ended. -/
theorem standing_of_view {later : Context} (hcontext : m.context? run = some c)
    (hlater : (m'.view run).context = some later)
    (hactive : (m'.view run).active = (m.view run).active)
    (hendings : m'.endings run = m.endings run)
    (halike : c.Alike later) (hand : Multiset Work) :
    m'.standing run hand = { m.standing run hand with
      bindings := later.bindings, working := hand + (m'.view run).works } := by
  have hview : (m.view run).context = some c := hcontext
  simp only [standing, RunView.standing, hlater, hview, Option.map_some, Option.getD_some, hactive,
    hendings, halike.config, halike.hasTasks, halike.inputs, halike.failedBranches]

theorem standing_cons (m : Machine) (run : RunId) (work : Work) (hand : Multiset Work) :
    m.standing run (work ::ₘ hand) =
      { m.standing run hand with working := work ::ₘ (m.standing run hand).working } := by
  simp only [standing, RunView.standing, Multiset.cons_add]

theorem bindings_standing (hcontext : m.context? run = some c) (hand : Multiset Work) :
    (m.standing run hand).bindings = c.bindings := by
  rw [standing_eq hcontext]

/-- Assumes: nothing but the work of a run, and what does not count, is different. -/
theorem standing_of_works {later : Context} {work : Work} (hcontext : m.context? run = some c)
    (hlater : (m'.view run).context = some later)
    (hactive : (m'.view run).active = (m.view run).active)
    (hendings : m'.endings run = m.endings run)
    (halike : c.Alike later) (hbindings : later.bindings = c.bindings)
    (hworks : (m'.view run).works = work ::ₘ (m.view run).works) (hand : Multiset Work) :
    m'.standing run hand = m.standing run (work ::ₘ hand) := by
  rw [standing_of_view hcontext hlater hactive hendings halike, hworks, hbindings, standing_cons,
    Multiset.add_cons, ← bindings_standing hcontext hand]
  rfl

/-- Assumes: the same run with the same work, and what does not count is different. -/
theorem standing_of_works_eq {later : Context} (hcontext : m.context? run = some c)
    (hlater : (m'.view run).context = some later)
    (hactive : (m'.view run).active = (m.view run).active)
    (hendings : m'.endings run = m.endings run)
    (halike : c.Alike later) (hbindings : later.bindings = c.bindings)
    (hworks : (m'.view run).works = (m.view run).works) (hand : Multiset Work) :
    m'.standing run hand = m.standing run hand := by
  rw [standing_of_view hcontext hlater hactive hendings halike, hworks, hbindings,
    ← bindings_standing hcontext hand]
  rfl

end Machine

end Blueprint

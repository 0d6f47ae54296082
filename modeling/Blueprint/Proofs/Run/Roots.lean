import Blueprint.Proofs.Run.Executions
import Blueprint.Proofs.Run.Handles

/-!
Which graph an execution runs, and with which inputs. The requests to load graphs ahead are resolved
in order (`Machine.resolveEach`). The execution runs the graph of the last one for the root that was
resolved (`Machine.lastResolved`), with the inputs of that request, and it asks the catalog only if
there is none; its own inputs go before those of the request. Without a graph it fails, and no run is
started for it (`Machine.rooted_of_execute`).

While graphs are resolved the tasks of other runs go on (`Machine.Resolving`). They do not come by the
graphs that were loaded for the execution, so all of those are released when it fails.
-/

set_option autoImplicit false

namespace Blueprint

namespace Machine

variable {blank m m' : Machine} {history : RunId → List (String × Value)} {steps : Nat}
  {graphs : List GraphInstance}

/-! ### Requests -/

/-- Resolves blueprints one after another, and answers what each came to. -/
def resolveEach (steps : Nat) :
    List String → Machine → Work (List (Except ResolveError GraphInstance))
  | [], m => (.ok [], m)
  | id :: ids, m =>
    match m.resolveGraph steps id with
    | (.error e, m) => (.error e, m)
    | (.ok outcome, m) =>
      match resolveEach steps ids m with
      | (.error e, m) => (.error e, m)
      | (.ok outcomes, m) => (.ok (outcome :: outcomes), m)

/-- What a request for an id came to, if it was resolved. -/
def resolvedFor (id : String) :
    (String × Inputs) × Except ResolveError GraphInstance → Option LoadedGraph
  | ((asked, inputs), .ok graph) => if asked = id then some { graph, inputs } else none
  | (_, .error _) => none

/-- The graph of the last request for an id that was resolved, with the inputs of that request. -/
def lastResolved (id : String) (requests : List (String × Inputs))
    (outcomes : List (Except ResolveError GraphInstance)) : Option LoadedGraph :=
  ((requests.zip outcomes).filterMap (resolvedFor id)).getLast?

theorem lastResolved_cons (id : String) (request : String × Inputs) (requests : List (String × Inputs))
    (outcome : Except ResolveError GraphInstance)
    (outcomes : List (Except ResolveError GraphInstance)) :
    lastResolved id (request :: requests) (outcome :: outcomes) =
      (lastResolved id requests outcomes).or (resolvedFor id (request, outcome)) := by
  rw [lastResolved, List.zip_cons_cons, List.filterMap_cons]
  cases resolvedFor id (request, outcome) with
  | none => exact Option.or_none.symm
  | some loaded =>
    dsimp only
    rw [List.getLast?_cons, lastResolved]
    cases ((requests.zip outcomes).filterMap (resolvedFor id)).getLast? <;> rfl

theorem mem_of_lastResolved {id : String} {requests : List (String × Inputs)}
    {outcomes : List (Except ResolveError GraphInstance)} {loaded : LoadedGraph}
    (h : lastResolved id requests outcomes = some loaded) :
    loaded.graph ∈ outcomes.filterMap (·.toOption) := by
  obtain ⟨⟨⟨asked, inputs⟩, outcome⟩, hmem, hfor⟩ := List.mem_filterMap.mp (List.mem_of_getLast? h)
  cases outcome with
  | error error => cases hfor
  | ok graph =>
    rw [resolvedFor] at hfor
    split_ifs at hfor
    obtain rfl := Option.some.inj hfor
    exact List.mem_filterMap.mpr ⟨_, (List.of_mem_zip hmem).2, rfl⟩

/-- The configuration with what a request came to. -/
def withOutcome (config : RunConfig) (request : String × Inputs) :
    Except ResolveError GraphInstance → RunConfig
  | .ok graph =>
    { config with loaded := config.loaded.insert request.1 { graph, inputs := request.2 } }
  | .error _ => config

theorem get?_withOutcome (config : RunConfig) (request : String × Inputs)
    (outcome : Except ResolveError GraphInstance) (id : String) :
    (withOutcome config request outcome).loaded.get? id =
      (resolvedFor id (request, outcome)).or (config.loaded.get? id) := by
  cases outcome with
  | error error => rfl
  | ok graph =>
    rw [withOutcome, Table.get?_insert, resolvedFor]
    split_ifs <;> rfl

theorem loadAhead_cons (steps : Nat) (request : String × Inputs) (rest : List (String × Inputs))
    (config : RunConfig) (m : Machine) :
    loadAhead steps (request :: rest) config m =
      match m.resolveGraph steps request.1 with
      | (.error e, m) => (.error e, m)
      | (.ok outcome, m) => loadAhead steps rest (withOutcome config request outcome) m := by
  rw [loadAhead]
  generalize m.resolveGraph steps request.1 = work
  obtain ⟨e | error | graph, later⟩ := work <;> rfl

/-- Loading ahead takes as long as resolving the requests does. Of the graphs that are loaded then,
the one for an id is that of the last request for it that was resolved. -/
theorem loadAhead_eq (steps : Nat) (requests : List (String × Inputs)) (config : RunConfig)
    (m : Machine) :
    ∃ later : RunConfig,
      loadAhead steps requests config m =
        ((resolveEach steps (requests.map (·.1)) m).1.map fun _ ↦ later,
          (resolveEach steps (requests.map (·.1)) m).2) ∧
      ∀ outcomes, (resolveEach steps (requests.map (·.1)) m).1 = .ok outcomes →
        ∀ id, later.loaded.get? id = (lastResolved id requests outcomes).or (config.loaded.get? id) := by
  induction requests generalizing m config with
  | nil =>
    refine ⟨config, rfl, fun outcomes houtcomes id ↦ ?_⟩
    obtain rfl := Except.ok.inj houtcomes
    rfl
  | cons request rest ih =>
    rw [List.map_cons, resolveEach, loadAhead_cons]
    generalize m.resolveGraph steps request.1 = work
    obtain ⟨ending | outcome, resolved⟩ := work
    · exact ⟨config, rfl, fun _ houtcomes ↦ by cases houtcomes⟩
    · obtain ⟨later, hload, htable⟩ := ih (withOutcome config request outcome) resolved
      dsimp only
      rw [hload]
      generalize resolveEach steps (rest.map (·.1)) resolved = work at htable
      obtain ⟨ending | others, last⟩ := work
      · exact ⟨later, rfl, fun _ houtcomes ↦ by cases houtcomes⟩
      · refine ⟨later, rfl, fun outcomes houtcomes id ↦ ?_⟩
        obtain rfl := Except.ok.inj houtcomes
        rw [htable others rfl, get?_withOutcome, lastResolved_cons, Option.or_assoc]

/-! ### Inputs -/

/-- Assumes: values under distinct names. They go before the others. -/
theorem get?_override {inputs others : Inputs} (hdistinct : others.Distinct) (name : String) :
    (override inputs others).get? name = (others.get? name).or (inputs.get? name) := by
  obtain ⟨entries⟩ := others
  change (entries.map (·.1)).Nodup at hdistinct
  change (entries.foldl (fun inputs entry ↦ inputs.insert entry.1 entry.2) inputs).get? name =
    (Table.find name entries).or (inputs.get? name)
  induction entries generalizing inputs with
  | nil => rfl
  | cons entry rest ih =>
    obtain ⟨key, value⟩ := entry
    rw [List.map_cons, List.nodup_cons] at hdistinct
    rw [List.foldl_cons, ih hdistinct.2, Table.get?_insert, Table.find]
    split_ifs with hkey
    · have hnone : Table.find name rest = none :=
        Table.get?_eq_none_iff (t := ⟨rest⟩).mpr (hkey ▸ hdistinct.1)
      rw [hnone]
      rfl
    · rfl

/-! ### While graphs are resolved -/

/-- What becomes of a machine while graphs are resolved, and the graphs that come of it: the tasks go
on, and fetches begin and end. No run is opened or started but by the tasks. -/
inductive Resolving (m : Machine) : List GraphInstance → Machine → Prop
  | refl : Resolving m [] m
  | moved {graphs : List GraphInstance} {m' : Machine} (h : Resolving m graphs m') (move : Move) :
      Resolving m graphs (m'.step move)
  | begun {graphs : List GraphInstance} {m' : Machine} (h : Resolving m graphs m') (id : String) :
      Resolving m graphs (m'.beginFetch id).2
  | landed {graphs : List GraphInstance} {m' : Machine} (h : Resolving m graphs m') (loader : Loader)
      (fetch : Fetch) (hcache : loader.cache = m'.provider.cache) :
      Resolving m
        (graphs ++ (loader.finish m'.provider.blueprints fetch m'.world).1.toOption.toList)
        { m' with world := (loader.finish m'.provider.blueprints fetch m'.world).2 }

namespace Resolving

theorem await (h : Resolving m graphs m') (holds : Machine → Bool) (limit : Option Nat) (steps : Nat) :
    Resolving m graphs (m'.await holds limit steps).2 := by
  induction steps generalizing m' with
  | zero => exact h
  | succ steps ih =>
    rw [Machine.await]
    split_ifs
    · exact h
    · exact h
    · split
      · exact ih (h.moved _)
      · exact h

theorem accounted (h : Resolving m graphs m') (hfirst : m.Sound history) (hplaced : m.Placed)
    (hframes : m.frames = []) : Accounted m none m' := by
  induction h with
  | refl => exact accounted_start hfirst hplaced hframes
  | moved _ move ih => exact ih.step hfirst move
  | begun _ id ih =>
    obtain ⟨_, hsound⟩ := ih.sound hfirst
    obtain ⟨world, hloads, ⟨error, hbegin⟩ | ⟨due, loader, fetch, hbegin, -⟩⟩ :=
      beginFetch_cases hsound.aloof id
    all_goals
      rw [hbegin]
      exact ih.changed hloads.1 (hloads.2 hsound.accepted)
  | @landed graphs later _ loader fetch hcache ih =>
    obtain ⟨_, hsound⟩ := ih.sound hfirst
    have hloads := (hsound.aloof.loader hcache).finish_graph later.provider fetch later.world
    exact ih.changed hloads.1 (hloads.2 hsound.accepted)

variable (hfirst : m.Sound history) (hplaced : m.Placed) (hframes : m.frames = [])
include hfirst hplaced hframes

theorem sound (h : Resolving m graphs m') : ∃ history, m'.Sound history :=
  (h.accounted hfirst hplaced hframes).sound hfirst

theorem provider_eq (h : Resolving m graphs m') : m'.provider = m.provider :=
  (h.accounted hfirst hplaced hframes).leads.elim fun _ hleads ↦
    (later_of_leads hfirst hleads).provider_eq

theorem brings (h : Resolving m graphs m') {loader : Loader} (hcache : loader.cache = m'.provider.cache)
    (fetch : Fetch) :
    Loader.Brings m'.world.interpreter (loader.finish m'.provider.blueprints fetch m'.world).1
      (loader.finish m'.provider.blueprints fetch m'.world).2.interpreter := by
  obtain ⟨_, hsound⟩ := h.sound hfirst hplaced hframes
  exact (hsound.aloof.loader hcache).brings_finish m'.provider fetch m'.world

/-- Assumes: nothing holds a handle that was not given out before. No run comes by the graphs. -/
theorem reserved (h : Resolving m graphs m') (hhonest : m.provider.registry.Honest)
    (hheld : m.DrawnFrom { handle | handle ≤ m.lastHandle }) : m'.Reserved graphs := by
  induction h with
  | refl => exact ⟨List.forall_mem_nil _, hheld.mono fun _ hle ↦ ⟨hle, List.forall_mem_nil _⟩⟩
  | moved h move ih =>
    obtain ⟨_, hsound⟩ := h.sound hfirst hplaced hframes
    exact ih.step hsound.housed (h.provider_eq hfirst hplaced hframes ▸ hhonest) move
  | begun h id ih =>
    obtain ⟨_, hsound⟩ := h.sound hfirst hplaced hframes
    exact ih.beginFetch hsound.aloof id
  | landed h loader fetch hcache ih => exact ih.landed (h.brings hfirst hplaced hframes hcache fetch)

/-- The graphs are loaded under new handles, and stay loaded. -/
theorem loaded (h : Resolving m graphs m') :
    m.lastHandle ≤ m'.lastHandle ∧ ∀ g ∈ graphs, m.lastHandle < g.handle ∧ g.handle ≤ m'.lastHandle ∧
      ∃ graph, m'.world.interpreter.graphs.get? g.handle = some graph := by
  have hload (g : GraphInstance) (last : Nat) (graphs : Table Nat Graph) (other : Graph)
      (hloaded : g.handle ≤ last ∧ ∃ graph, graphs.get? g.handle = some graph) :
      g.handle ≤ last + 1 ∧ ∃ graph, (graphs.insert (last + 1) other).get? g.handle = some graph := by
    obtain ⟨hle, graph, hget⟩ := hloaded
    refine ⟨Nat.le_succ_of_le hle, graph, ?_⟩
    rw [Table.get?_insert_of_ne _ (Nat.lt_succ_of_le hle).ne', hget]
  induction h with
  | refl => exact ⟨Nat.le_refl _, List.forall_mem_nil _⟩
  | moved h move ih =>
    obtain ⟨_, hsound⟩ := h.sound hfirst hplaced hframes
    refine ⟨ih.1.trans (hsound.housed.lastHandle_le_step move), fun g hg ↦ ⟨(ih.2 g hg).1, ?_⟩⟩
    exact hsound.housed.holds_step (Interpreter.closed_of_graphs _ (hload g)) (ih.2 g hg).2 move
  | begun h id ih =>
    obtain ⟨_, hsound⟩ := h.sound hfirst hplaced hframes
    refine ⟨ih.1.trans (lastHandle_beginFetch hsound.aloof id).ge, fun g hg ↦ ⟨(ih.2 g hg).1, ?_⟩⟩
    exact holds_beginFetch (P := fun e ↦ g.handle ≤ e.lastHandle ∧
      ∃ graph, e.graphs.get? g.handle = some graph) hsound.aloof (ih.2 g hg).2 id
  | landed h loader fetch hcache ih =>
    have hbrings := h.brings hfirst hplaced hframes hcache fetch
    simp only [lastHandle] at ih ⊢
    generalize loader.finish _ fetch _ = reply at hbrings
    obtain ⟨outcome, world⟩ := reply
    dsimp only at hbrings ⊢
    generalize world.interpreter = e at hbrings ⊢
    cases hbrings with
    | refused error =>
      exact ⟨ih.1, fun g hg ↦ ih.2 g ((List.mem_append.mp hg).resolve_right List.not_mem_nil)⟩
    | loaded own graph hhandle =>
      refine ⟨Nat.le_succ_of_le ih.1, fun g hg ↦ ?_⟩
      rcases List.mem_append.mp hg with hold | hnew
      · exact ⟨(ih.2 g hold).1, hload g _ _ graph (ih.2 g hold).2⟩
      · obtain rfl := List.mem_singleton.mp hnew
        exact ⟨hhandle ▸ Nat.lt_succ_of_le ih.1, hhandle.le, graph,
          by rw [hhandle, Table.get?_insert_self]⟩

theorem resolveGraph (h : Resolving m graphs m') {id : String}
    {outcome : Except ResolveError GraphInstance} {later : Machine}
    (hresolve : m'.resolveGraph steps id = (.ok outcome, later)) :
    Resolving m (graphs ++ outcome.toOption.toList) later := by
  obtain ⟨_, hsound⟩ := h.sound hfirst hplaced hframes
  have hbegun := h.begun id
  rw [Machine.resolveGraph] at hresolve
  obtain ⟨world, -, ⟨error, hbegin⟩ | ⟨due, loader, fetch, hbegin, hcache⟩⟩ :=
    beginFetch_cases hsound.aloof id
  all_goals rw [hbegin] at hresolve hbegun
  · obtain ⟨houtcome, rfl⟩ := Prod.mk.inj hresolve
    obtain rfl := Except.ok.inj houtcome
    exact (List.append_nil graphs).symm ▸ hbegun
  · dsimp only at hresolve hbegun
    have hawaited := hbegun.await (fun m ↦ due ≤ m.now) (some due) steps
    generalize ({ m' with world } : Machine).await (fun m ↦ due ≤ m.now) (some due) steps = waited
      at hresolve hawaited
    obtain ⟨ends, awaited⟩ := waited
    cases ends with
    | reached =>
      obtain ⟨houtcome, rfl⟩ := Prod.mk.inj hresolve
      obtain rfl := Except.ok.inj houtcome
      refine hawaited.landed loader fetch (hcache.trans ?_)
      rw [h.provider_eq hfirst hplaced hframes, hawaited.provider_eq hfirst hplaced hframes]
    | late | stuck | unfinished => cases hresolve

theorem resolveEach (h : Resolving m graphs m') {ids : List String}
    {outcomes : List (Except ResolveError GraphInstance)} {later : Machine}
    (hresolve : Machine.resolveEach steps ids m' = (.ok outcomes, later)) :
    Resolving m (graphs ++ outcomes.filterMap (·.toOption)) later := by
  induction ids generalizing graphs m' outcomes with
  | nil =>
    obtain ⟨houtcomes, rfl⟩ := Prod.mk.inj hresolve
    obtain rfl := Except.ok.inj houtcomes
    exact (List.append_nil graphs).symm ▸ h
  | cons id ids ih =>
    rw [Machine.resolveEach] at hresolve
    cases hfirst' : m'.resolveGraph steps id with
    | mk ending resolved =>
      rw [hfirst'] at hresolve
      cases ending with
      | error ending => cases hresolve
      | ok outcome =>
        dsimp only at hresolve
        have hresolving := h.resolveGraph hfirst hplaced hframes hfirst'
        cases hrest : Machine.resolveEach steps ids resolved with
        | mk ending last =>
          rw [hrest] at hresolve
          cases ending with
          | error ending => cases hresolve
          | ok others =>
            obtain ⟨houtcomes, rfl⟩ := Prod.mk.inj hresolve
            obtain rfl := Except.ok.inj houtcomes
            have hlater := ih hresolving hrest
            rw [List.append_assoc] at hlater
            cases outcome <;> exact hlater

end Resolving

/-! ### With nothing else under way -/

/-- Nothing is under way, and nothing was started. -/
structure Idles (m m' : Machine) : Prop where
  tasks : m'.tasks = []
  frames : m'.frames = []
  contexts : m'.contexts = m.contexts
  runs : m'.world.interpreter.runs = m.world.interpreter.runs
  executions : m'.executions = m.executions
  nextRun : m'.nextRun = m.nextRun

theorem Idles.step (h : Idles m m') (move : Move) : Idles m (m'.step move) := by
  cases move with
  | advance =>
    rw [Machine.step, advance, h.frames]
    exact h
  | poll task =>
    rw [Machine.step, poll_of_not_ready]
    · exact h
    · rintro ⟨a, tasks, -, hfound, -⟩
      rw [h.tasks] at hfound
      cases hfound
  | tick moment => exact ⟨h.tasks, h.frames, h.contexts, h.runs, h.executions, h.nextRun⟩

theorem Idles.changed (h : Idles m m') {world : World}
    (hruns : world.interpreter.runs = m'.world.interpreter.runs) : Idles m { m' with world } :=
  ⟨h.tasks, h.frames, h.contexts, hruns.trans h.runs, h.executions, h.nextRun⟩

/-- With no task and nothing on the frames, a moment is waited for in two steps. -/
theorem reached_of_idle (htasks : m.tasks = []) (hframes : m.frames = []) (due : Nat)
    (hsteps : 2 ≤ steps) : (m.await (fun m ↦ due ≤ m.now) (some due) steps).1 = .reached := by
  obtain ⟨rest, rfl⟩ := Nat.exists_eq_add_of_le' hsteps
  by_cases hdue : due ≤ m.now
  · simp [Machine.await, hframes, hdue]
  · have hmove : m.nextMove (some due) = some (.tick due) := by
      simp [nextMove, hframes, nextReady, htasks, nextDue, earlier]
    have hlater : due ≤ (m.step (.tick due)).now := Nat.le_max_right m.now due
    have hnothing : (m.step (.tick due)).frames = [] := hframes
    rw [Machine.await]
    simp [hframes, hdue, hmove, Machine.await, hnothing, hlater]

section

variable (hfirst : m.Sound history) (hplaced : m.Placed) (hframes : m.frames = [])
  (htasks : m.tasks = [])
include hfirst hplaced hframes htasks

theorem Resolving.idles (h : Resolving m graphs m') : Idles m m' := by
  induction h with
  | refl => exact ⟨htasks, hframes, rfl, rfl, rfl, rfl⟩
  | moved _ move ih => exact ih.step move
  | begun h id ih =>
    obtain ⟨_, hsound⟩ := h.sound hfirst hplaced hframes
    obtain ⟨world, hloads, ⟨error, hbegin⟩ | ⟨due, loader, fetch, hbegin, -⟩⟩ :=
      beginFetch_cases hsound.aloof id
    all_goals
      rw [hbegin]
      exact ih.changed hloads.1
  | @landed graphs later h loader fetch hcache ih =>
    obtain ⟨_, hsound⟩ := h.sound hfirst hplaced hframes
    have hloader := hsound.aloof.loader hcache
    exact ih.changed (hloader.finish_graph later.provider fetch later.world).1

/-- A blueprint is resolved, or refused. -/
theorem Resolving.returns_resolveGraph (h : Resolving m graphs m') (hsteps : 2 ≤ steps) (id : String) :
    ∃ outcome later, m'.resolveGraph steps id = (.ok outcome, later) := by
  obtain ⟨_, hsound⟩ := h.sound hfirst hplaced hframes
  have hidles := h.idles hfirst hplaced hframes htasks
  rw [Machine.resolveGraph]
  obtain ⟨world, -, ⟨error, hbegin⟩ | ⟨due, loader, fetch, hbegin, -⟩⟩ :=
    beginFetch_cases hsound.aloof id
  · rw [hbegin]
    exact ⟨.error error, _, rfl⟩
  · rw [hbegin]
    dsimp only
    have hreached := reached_of_idle (m := { m' with world }) hidles.tasks hidles.frames due hsteps
    generalize ({ m' with world } : Machine).await (fun m ↦ due ≤ m.now) (some due) steps = waited
      at hreached
    obtain ⟨ends, awaited⟩ := waited
    obtain rfl := hreached
    exact ⟨_, _, rfl⟩

theorem Resolving.returns_resolveEach (h : Resolving m graphs m') (hsteps : 2 ≤ steps)
    (ids : List String) : ∃ outcomes later, Machine.resolveEach steps ids m' = (.ok outcomes, later) := by
  induction ids generalizing graphs m' with
  | nil => exact ⟨[], m', rfl⟩
  | cons id ids ih =>
    obtain ⟨outcome, resolved, hresolved⟩ :=
      h.returns_resolveGraph hfirst hplaced hframes htasks hsteps id
    obtain ⟨outcomes, later, hrest⟩ := ih (h.resolveGraph hfirst hplaced hframes hresolved)
    refine ⟨outcome :: outcomes, later, ?_⟩
    rw [Machine.resolveEach, hresolved]
    dsimp only
    rw [hrest]

end

/-! ### The run of an execution -/

/-- How the run of an execution begins: it is a run of a graph, with the inputs of the execution over
those that the graph brings. -/
structure Launches (m : Machine) (loaded : LoadedGraph) (own : Inputs)
    (launched : Except EngineError Nat × Machine) : Prop where
  accepted : launched.1 = .ok rootScope
  context : ∃ c, launched.2.context? m.nextRun = some c ∧ c.graph = loaded.graph ∧
    ∀ name, c.input? name = (own.get? name).or (loaded.inputs.get? name)
  active : ∃ active, launched.2.world.interpreter.runs.get? m.nextRun = some active ∧
    m.world.interpreter.graphs.get? loaded.graph.handle = some active.graph ∧
    ∀ name, active.inputs.get? name = (own.get? name).or (loaded.inputs.get? name)

/-- Assumes: a graph that is loaded. -/
theorem launches_start (hsound : m.Sound history) {loaded : LoadedGraph} {own : Inputs}
    (hdistinct : own.Distinct) {g : Graph}
    (hgraph : m.world.interpreter.graphs.get? loaded.graph.handle = some g) (config : RunConfig) :
    Launches m loaded own
      ((m.open_ loaded.graph config true).2.start m.nextRun (override loaded.inputs own)) := by
  have hview := view_open m loaded.graph config true
  rw [hsound.housed.view_nextRun] at hview
  have hcontext : (m.open_ loaded.graph config true).2.context? m.nextRun =
      some { graph := loaded.graph, config } := congrArg RunView.context hview
  have haccepted : (m.open_ loaded.graph config true).2.world.interpreter.GraphsAccepted :=
    hsound.accepted
  have hopened : (m.open_ loaded.graph config true).2.world.interpreter.graphs.get?
      loaded.graph.handle = some g := hgraph
  have hvalue (name : String) : (override loaded.inputs own).get? name =
      (own.get? name).or (loaded.inputs.get? name) := get?_override hdistinct name
  generalize override loaded.inputs own = inputs at hvalue
  generalize (m.open_ loaded.graph config true).2 = opened at hview hcontext haccepted hopened
  obtain ⟨lost, hbegins⟩ := begins_start (.refl opened) hcontext rfl haccepted inputs
  constructor
  case accepted =>
    rw [start_fst hcontext rfl haccepted, if_pos]
    exact Option.isSome_iff_exists.mpr ⟨g, hopened⟩
  case context =>
    obtain ⟨⟨c, hc, hcontinues⟩, -⟩ := hbegins.keeps (by rw [hview])
    refine ⟨c, hc, hcontinues.graph_eq, fun name ↦ ?_⟩
    rw [Context.input?, hcontinues.inputs_eq, Option.bind_some, hvalue]
  case active =>
    have hheld : (opened.start m.nextRun inputs).2.Holds fun e ↦
        ∃ active, e.runs.get? m.nextRun = some active ∧ active.graph = g ∧ active.inputs = inputs := by
      rw [start_eq hcontext rfl]
      have hexecutes := Interpreter.executes_execute hopened (haccepted _ g hopened).wired m.nextRun
        inputs {}
      refine holds_accept (fun e other scope h ↦ ?_) ?_
      · obtain ⟨active, hactive, hsame⟩ := h
        obtain ⟨scopes, hlater⟩ := Interpreter.get?_runs_finish_of_some hactive other scope
        exact ⟨_, hlater, hsame⟩
      · generalize opened.world.interpreter.execute _ m.nextRun inputs _ = reply at hexecutes
        cases hexecutes <;> exact ⟨_, Table.get?_insert_self .., rfl, rfl⟩
    obtain ⟨active, hactive, rfl, rfl⟩ := hheld
    exact ⟨active, hactive, hgraph, hvalue⟩

/-- What comes of an execution is what comes of a run of a graph, that is begun on a machine on which
the requests have been resolved. -/
def RunsRoot (steps : Nat) (m : Machine) (data : ExecutionData)
    (outcomes : List (Except ResolveError GraphInstance)) (loaded : LoadedGraph)
    (timeout : Option Nat) (work : Work RunResult) : Prop :=
  ∃ config : RunConfig,
    (∀ id, config.loaded.get? id = lastResolved id data.preload outcomes) ∧
    Launches m loaded data.inputs ((m.open_ loaded.graph config true).2.start m.nextRun
      (override loaded.inputs data.inputs)) ∧
    work = match (m.open_ loaded.graph config true).2.runToEnd steps m.nextRun
        (override loaded.inputs data.inputs) timeout with
      | (result, m) => (result, m.collect)

/-- An execution fails without a root graph: the root has been asked for on a machine, after the
requests, and nothing more is done than to drop what is not needed any longer. -/
structure FailsRoot (first m : Machine) (outcomes : List (Except ResolveError GraphInstance))
    (root : String) (error : ResolveError) (work : Work RunResult) : Prop where
  work_eq : work = (.ok (rootFailure root error), m.collect)
  failed : (rootFailure root error).success = false
  outputs : (rootFailure root error).outputs = {}
  /-- Only fetches have begun and ended, besides what the tasks have done. -/
  resolving : Resolving first (outcomes.filterMap (·.toOption)) m
  /-- A run that is new was begun by a node, on behalf of an older run. -/
  descends : ∀ run, first.nextRun ≤ run → m.collect.world.interpreter.runs.get? run ≠ none →
    ∃ elder < first.nextRun, Relation.TransGen m.collect.Attends elder run
  /-- Without tasks nothing was asked of the interpreter but to load graphs. -/
  idle : first.tasks = [] → m.collect.executions = first.executions ∧
    m.collect.nextRun = first.nextRun ∧
    m.collect.world.interpreter.runs = first.world.interpreter.runs
  /-- The graphs that were loaded ahead are released, as no node makes up their handles. -/
  released : first.provider.registry.Honest →
    first.DrawnFrom { handle | handle ≤ first.lastHandle } → ∀ graph, .ok graph ∈ outcomes →
      m.collect.world.interpreter.graphs.get? graph.handle = none
  /-- Without tasks no node does anything, whatever the registry. -/
  released_idle : first.tasks = [] →
    first.contexts.All (Context.DrawnFrom { handle | handle ≤ first.lastHandle }) →
      ∀ graph, .ok graph ∈ outcomes → m.collect.world.interpreter.graphs.get? graph.handle = none

/-- Which graph an execution runs, and with which inputs. -/
structure Rooted (steps : Nat) (m : Machine) (data : ExecutionData) (root : String)
    (timeout : Option Nat) : Prop where
  /-- An execution that ends has resolved its requests. -/
  resolved : ∀ result later, m.execute steps data root timeout = (.ok result, later) →
    ∃ outcomes ahead, resolveEach steps (data.preload.map (·.1)) m = (.ok outcomes, ahead)
  /-- Without tasks the requests and the root are resolved, or refused. -/
  returns : m.tasks = [] → 2 ≤ steps → ∃ outcomes ahead outcome chosen,
    resolveEach steps (data.preload.map (·.1)) m = (.ok outcomes, ahead) ∧
      ahead.resolveGraph steps root = (.ok outcome, chosen)
  /-- The last request for the root counts. -/
  preloaded : ∀ outcomes ahead loaded,
    resolveEach steps (data.preload.map (·.1)) m = (.ok outcomes, ahead) →
    lastResolved root data.preload outcomes = some loaded →
      RunsRoot steps ahead data outcomes loaded timeout (m.execute steps data root timeout)
  /-- Without one the catalog is asked. -/
  found : ∀ outcomes ahead graph chosen,
    resolveEach steps (data.preload.map (·.1)) m = (.ok outcomes, ahead) →
    lastResolved root data.preload outcomes = none →
    ahead.resolveGraph steps root = (.ok (.ok graph), chosen) →
      RunsRoot steps chosen data outcomes { graph, inputs := {} } timeout
        (m.execute steps data root timeout)
  missing : ∀ outcomes ahead error chosen,
    resolveEach steps (data.preload.map (·.1)) m = (.ok outcomes, ahead) →
    lastResolved root data.preload outcomes = none →
    ahead.resolveGraph steps root = (.ok (.error error), chosen) →
      FailsRoot m chosen outcomes root error (m.execute steps data root timeout)

theorem materialize_eq (steps : Nat) (m : Machine) (data : ExecutionData) :
    ∃ config : RunConfig,
      m.materialize steps data =
        ((resolveEach steps (data.preload.map (·.1)) m).1.map fun _ ↦ config,
          (resolveEach steps (data.preload.map (·.1)) m).2) ∧
      ∀ outcomes, (resolveEach steps (data.preload.map (·.1)) m).1 = .ok outcomes →
        ∀ id, config.loaded.get? id = lastResolved id data.preload outcomes := by
  obtain ⟨config, hload, htable⟩ := loadAhead_eq steps data.preload { rootParent := data.rootParent } m
  refine ⟨config, hload, fun outcomes houtcomes id ↦ ?_⟩
  rw [htable outcomes houtcomes]
  exact Option.or_none

section

variable (hfirst : m.Sound history) (hplaced : m.Placed) (hframes : m.frames = [])
include hfirst hplaced hframes

/-- A graph that came of resolving is still loaded, so a run of it starts. -/
theorem Resolving.launches (h : Resolving m graphs m') {loaded : LoadedGraph}
    (hmem : loaded.graph ∈ graphs) {own : Inputs} (hdistinct : own.Distinct) (config : RunConfig) :
    Launches m' loaded own
      ((m'.open_ loaded.graph config true).2.start m'.nextRun (override loaded.inputs own)) := by
  obtain ⟨_, hsound⟩ := h.sound hfirst hplaced hframes
  obtain ⟨-, -, g, hgraph⟩ := (h.loaded hfirst hplaced hframes).2 loaded.graph hmem
  exact launches_start hsound hdistinct hgraph config

theorem Resolving.failsRoot {outcomes : List (Except ResolveError GraphInstance)}
    (h : Resolving m (outcomes.filterMap (·.toOption)) m') (root : String) (error : ResolveError) :
    FailsRoot m m' outcomes root error (.ok (rootFailure root error), m'.collect) := by
  have hmem {graph : GraphInstance} (hgraph : .ok graph ∈ outcomes) :
      graph ∈ outcomes.filterMap (·.toOption) := List.mem_filterMap.mpr ⟨_, hgraph, rfl⟩
  constructor
  case work_eq => rfl
  case failed => rfl
  case outputs => rfl
  case resolving => exact h
  case descends =>
    intro run hnew hactive
    rw [runs_collect] at hactive
    obtain ⟨elder, helder | hnone, hchain⟩ := (h.accounted hfirst hplaced hframes).descends hfirst hnew
      (fun heq ↦ by cases heq) hactive
    · exact ⟨elder, helder, hchain⟩
    · cases hnone
  case idle =>
    intro htasks
    have hidles := h.idles hfirst hplaced hframes htasks
    exact ⟨hidles.executions, hidles.nextRun, (runs_collect m').trans hidles.runs⟩
  case released =>
    intro hhonest hheld graph hgraph
    exact (h.reserved hfirst hplaced hframes hhonest hheld).released (hmem hgraph)
  case released_idle =>
    intro htasks hheld graph hgraph
    have hnew := ((h.loaded hfirst hplaced hframes).2 graph (hmem hgraph)).1
    rw [← (h.idles hfirst hplaced hframes htasks).contexts] at hheld
    exact released_of_contexts hheld (Nat.not_le.mpr hnew)

end

/-- Assumes: inputs under distinct names. An execution runs the graph of the last request for the root
that was resolved, else that of the catalog, with its own inputs over those of the request; with
neither it fails, starts no run, and what was loaded for it is released. -/
theorem rooted_of_execute (hblank : blank.Blank) (hreaches : Reaches blank m)
    (hframes : m.frames = []) {data : ExecutionData} (hdistinct : data.inputs.Distinct)
    (steps : Nat) (root : String) (timeout : Option Nat) : Rooted steps m data root timeout := by
  obtain ⟨⟨history, hfirst⟩, -⟩ := hreaches.sound hblank
  have hplaced := hreaches.placed hblank hframes
  obtain ⟨config, hmaterialize, htable⟩ := materialize_eq steps m data
  have hfetching {outcomes : List (Except ResolveError GraphInstance)} {ahead : Machine}
      (hresolve : resolveEach steps (data.preload.map (·.1)) m = (.ok outcomes, ahead)) :
      Resolving m (outcomes.filterMap (·.toOption)) ahead :=
    Resolving.refl.resolveEach hfirst hplaced hframes hresolve
  have hexecute {outcomes : List (Except ResolveError GraphInstance)} {ahead : Machine}
      (hresolve : resolveEach steps (data.preload.map (·.1)) m = (.ok outcomes, ahead)) :
      m.materialize steps data = (.ok config, ahead) ∧
        ∀ id, config.loaded.get? id = lastResolved id data.preload outcomes := by
    rw [hresolve] at hmaterialize htable
    exact ⟨hmaterialize, htable outcomes rfl⟩
  constructor
  case resolved =>
    intro result later hend
    generalize resolveEach steps (data.preload.map (·.1)) m = work at hmaterialize
    obtain ⟨ending | outcomes, ahead⟩ := work
    · rw [execute, hmaterialize] at hend
      cases hend
    · exact ⟨outcomes, ahead, rfl⟩
  case returns =>
    intro htasks hsteps
    obtain ⟨outcomes, ahead, hresolve⟩ := Resolving.refl.returns_resolveEach hfirst hplaced hframes
      htasks hsteps (data.preload.map (·.1))
    obtain ⟨outcome, chosen, hroot⟩ := (hfetching hresolve).returns_resolveGraph hfirst hplaced
      hframes htasks hsteps root
    exact ⟨outcomes, ahead, outcome, chosen, hresolve, hroot⟩
  case preloaded =>
    intro outcomes ahead loaded hresolve hlast
    obtain ⟨hmaterialized, hall⟩ := hexecute hresolve
    have hchosen : ahead.chooseRoot steps config root = (.ok (.ok loaded), ahead) := by
      rw [chooseRoot, hall, hlast]
    refine ⟨config, hall, (hfetching hresolve).launches hfirst hplaced hframes
      (mem_of_lastResolved hlast) hdistinct config, ?_⟩
    rw [execute, hmaterialized]
    dsimp only
    rw [hchosen]
    rfl
  case found =>
    intro outcomes ahead graph chosen hresolve hlast hroot
    obtain ⟨hmaterialized, hall⟩ := hexecute hresolve
    have hresolving := (hfetching hresolve).resolveGraph hfirst hplaced hframes hroot
    have hchosen :
        ahead.chooseRoot steps config root = (.ok (.ok { graph, inputs := {} }), chosen) := by
      rw [chooseRoot, hall, hlast, hroot]
      rfl
    refine ⟨config, hall, hresolving.launches hfirst hplaced hframes
      (List.mem_append_right _ List.mem_cons_self) hdistinct config, ?_⟩
    rw [execute, hmaterialized]
    dsimp only
    rw [hchosen]
    rfl
  case missing =>
    intro outcomes ahead error chosen hresolve hlast hroot
    obtain ⟨hmaterialized, hall⟩ := hexecute hresolve
    have hresolving := (hfetching hresolve).resolveGraph hfirst hplaced hframes hroot
    have hchosen : ahead.chooseRoot steps config root = (.ok (.error error), chosen) := by
      rw [chooseRoot, hall, hlast, hroot]
      rfl
    have hwork : m.execute steps data root timeout = (.ok (rootFailure root error), chosen.collect) := by
      rw [execute, hmaterialized]
      dsimp only
      rw [hchosen]
    rw [show (Except.error error : Except ResolveError GraphInstance).toOption.toList = [] from rfl,
      List.append_nil] at hresolving
    exact hwork ▸ hresolving.failsRoot hfirst hplaced hframes root error

/-- A machine with a graph that is published. -/
def greeting : Machine where
  provider :=
    { catalog :=
        { version := ⟨1, 0, 0⟩
          entries := [{ id := ⟨"greet", by decide⟩, uri := "mem:greet", kind := .blueprint }]
          index := .ofList [("greet", 0)] }
      fallback := .published "mem" none 0 }
  world :=
    { published := .ofList [("mem:greet", soleNode "set_output" [("name", .string "said")])] }

theorem greeting_blank : greeting.Blank where
  context := fun _ ↦ rfl
  active := fun _ ↦ rfl
  frames := rfl
  tasks := rfl
  accepted := fun _ _ hget ↦ by cases hget
  aloof := fun _ hcache ↦ by cases hcache

/-- The graph is asked for twice, and one that there is not. -/
def greetings : ExecutionData where
  preload := [("greet", .ofList [("who", .string "first")]), ("missing", {}),
    ("greet", .ofList [("who", .string "second"), ("tone", .string "low")]), ("missing", {})]
  inputs := .ofList [("tone", .string "high")]

/-- The graph is run with the inputs of the second request for it; for the one that is missing nothing
is run, and both graphs are released. -/
theorem rooted_of_greeting : ∃ outcomes ahead loaded error chosen,
    resolveEach 8 ["greet", "missing", "greet", "missing"] greeting = (.ok outcomes, ahead) ∧
      (outcomes.filterMap (·.toOption)).map (·.handle) = [1, 2] ∧
      loaded.graph.handle = 2 ∧ (loaded.inputs.get? "who").bind Value.asString? = some "second" ∧
      RunsRoot 8 ahead greetings outcomes loaded none (greeting.execute 8 greetings "greet" none) ∧
      FailsRoot greeting chosen outcomes "missing" error
        (greeting.execute 8 greetings "missing" none) ∧
      ∀ graph, .ok graph ∈ outcomes →
        chosen.collect.world.interpreter.graphs.get? graph.handle = none := by
  have hrooted (root : String) : Rooted 8 greeting greetings root none :=
    rooted_of_execute greeting_blank .refl rfl (Table.distinct_empty.insert "tone" _) 8 root none
  obtain ⟨outcomes, ahead, outcome, chosen, hresolve, hroot⟩ :=
    (hrooted "missing").returns rfl (by decide)
  have hseen : (resolveEach 8 (greetings.preload.map (·.1)) greeting).1.toOption.map (fun outcomes ↦
      ((outcomes.filterMap (·.toOption)).map (·.handle),
        (lastResolved "greet" greetings.preload outcomes).map fun loaded ↦
          (loaded.graph.handle, (loaded.inputs.get? "who").bind Value.asString?),
        (lastResolved "missing" greetings.preload outcomes).isNone)) =
      some ([1, 2], some (2, some "second"), true) := by
    decide +kernel
  have hrefused : ((resolveEach 8 (greetings.preload.map (·.1)) greeting).2.resolveGraph 8
      "missing").1.toOption.map (·.toOption.isNone) = some true := by
    decide +kernel
  rw [hresolve] at hseen hrefused
  dsimp only at hrefused
  rw [hroot] at hrefused
  obtain ⟨hhandles, hseen⟩ := Prod.mk.inj (Option.some.inj hseen)
  obtain ⟨hgreet, hmissing⟩ := Prod.mk.inj hseen
  obtain ⟨loaded, hloaded, hwho⟩ := Option.map_eq_some_iff.mp hgreet
  obtain ⟨hhandle, hsecond⟩ := Prod.mk.inj hwho
  cases outcome with
  | ok graph => cases hrefused
  | error error =>
    have hfails := (hrooted "missing").missing outcomes ahead error chosen hresolve
      (Option.isNone_iff_eq_none.mp hmissing) hroot
    exact ⟨outcomes, ahead, loaded, error, chosen, hresolve, hhandles, hhandle, hsecond,
      (hrooted "greet").preloaded outcomes ahead loaded hresolve hloaded, hfails,
      hfails.released Registry.honest_standard greeting_blank.drawnFrom⟩

end Machine

end Blueprint

import Blueprint.Proofs.Run.Continuity
import Blueprint.Proofs.Run.Moves

/-!
Everything that may happen to a machine. Besides the moves, by which nodes act, its host opens
contexts, starts each of them once, sets completion handlers and ends runs; and the world changes,
where graphs are loaded that are accepted. `Machine.Leads` strings such happenings together, in any
order, with the outputs that each run publishes on the way.

Whatever happens alters a run in one of a few ways (`RunView.Alters`, `alters_of_happens`). So all
runs of a machine stay sound (`Sound.happens`, `Sound.leads`), and those of a machine that nothing was
done with are (`Blank.sound`). In every machine that can be reached the tracker of a run and the
interpreter agree on what is running (`pending_eq_of_leads`).
-/

set_option autoImplicit false

namespace Blueprint

namespace RunView

/-- How a run is altered by what happens, and what it publishes. -/
inductive Alters (m m' : Machine) (run : RunId) :
    RunView → RunView → List (String × Value) → Prop
  | changed {v after : RunView} {written : List (String × Value)}
      (h : Changes m m' run v after written) : Alters m m' run v after written
  | opened (graph : GraphInstance) (config : RunConfig) (hasTasks : Bool) (hrun : run < m'.nextRun) :
      Alters m m' run {} { context := some { graph, config, hasTasks } } []
  | started {v after : RunView} {c : Context} {lost : List Nat} (graphs : Table Nat Graph)
      (inputs : Inputs) (hcontext : v.context = some c) (hinputs : c.inputs = none)
      (hgraphs : ∀ handle g, graphs.get? handle = some g → g.Accepted)
      (h : Begins m m' run graphs v c inputs after lost) : Alters m m' run v after []
  | ended (v : RunView) : Alters m m' run v { v with active := none } []
  | handled (v : RunView) (handler : CompletionHandler) :
      Alters m m' run v { v with
        context := v.context.map fun c ↦
          { c with tracker := (c.tracker.onComplete handler).1 } } []

variable {m m' : Machine} {run : RunId} {v after : RunView} {c : Context}
  {history written : List (String × Value)}

/-- A run stays sound. -/
theorem Sound.alters (h : Sound m.provider run history v)
    (halters : Alters m m' run v after written) :
    Sound m.provider run (history ++ written) after := by
  cases halters with
  | changed hchanges => exact h.changes hchanges
  | opened graph config hasTasks hrun =>
    obtain rfl := h.silent fun _ hcontext ↦ nomatch hcontext
    refine Unstarted.sound (c := { graph, config, hasTasks }) ?_ fun _ ↦ rfl
    exact ⟨rfl, rfl, rfl, rfl, ⟨fun _ ↦ rfl, rfl, rfl, rfl⟩, rfl, rfl⟩
  | started graphs inputs hcontext hinputs hgraphs hbegins =>
    rw [List.append_nil]
    exact (h.unstarted _ hcontext hinputs).sound_begins hgraphs (h.recorded _ hcontext) hbegins
  | ended => exact (List.append_nil history).symm ▸ h.ended
  | handled _ handler => exact (List.append_nil history).symm ▸ h.handled handler

/-- A run that has a context afterwards was given its number. -/
theorem Alters.lt_nextRun (h : Alters m m' run v after written) (hnext : m.nextRun ≤ m'.nextRun)
    (hold : ∀ c, v.context = some c → run < m.nextRun) (hcontext : after.context = some c) :
    run < m'.nextRun := by
  have hkept {before : Context} (hbefore : v.context = some before) : run < m'.nextRun :=
    Nat.lt_of_lt_of_le (hold before hbefore) hnext
  cases h with
  | changed hchanges =>
    cases hchanges with
    | same => exact hkept hcontext
    | worked hbefore => exact hkept hbefore
    | ended => exact hkept hcontext
    | begun graphs graph config inputs a home rest next hframes hresumes hrun hnext => exact hnext
  | opened graph config hasTasks hrun => exact hrun
  | started graphs inputs hbefore => exact hkept hbefore
  | ended => exact hkept hcontext
  | handled _ handler =>
    obtain ⟨before, hbefore, -⟩ := Option.map_eq_some_iff.mp hcontext
    exact hkept hbefore

/-- A context stays, with its graph. -/
theorem Alters.context (h : Alters m m' run v after written) (hcontext : v.context = some c)
    (hunstarted : c.inputs = none → v.active = none) :
    ∃ later, after.context = some later ∧ later.graph = c.graph ∧ later.hasTasks = c.hasTasks := by
  cases h with
  | changed hchanges =>
    cases hchanges with
    | same => exact ⟨c, hcontext, rfl, rfl⟩
    | worked hbefore hlabour =>
      obtain ⟨later, hlater, hcontinues⟩ := (hlabour.keeps hbefore).context c hcontext
      exact ⟨later, hlater, hcontinues.graph_eq, hcontinues.hasTasks_eq⟩
    | ended => exact ⟨c, hcontext, rfl, rfl⟩
    | begun => cases hcontext
  | opened => cases hcontext
  | started graphs inputs hbefore hinputs hgraphs hbegins =>
    obtain rfl := Option.some.inj (hcontext.symm.trans hbefore)
    obtain ⟨⟨later, hlater, hcontinues⟩, -⟩ := hbegins.keeps (hunstarted hinputs)
    exact ⟨later, hlater, hcontinues.graph_eq, hcontinues.hasTasks_eq⟩
  | ended => exact ⟨c, hcontext, rfl, rfl⟩
  | handled _ handler =>
    exact ⟨{ c with tracker := (c.tracker.onComplete handler).1 }, congrArg (Option.map _) hcontext,
      rfl, rfl⟩

end RunView

namespace Machine

variable {m m' : Machine} {history written : RunId → List (String × Value)} {run : RunId}

/-- A machine that nothing was done with. -/
structure Blank (m : Machine) : Prop where
  context : ∀ run, m.context? run = none
  active : ∀ run, m.world.interpreter.runs.get? run = none
  frames : m.frames = []
  tasks : m.tasks = []
  accepted : m.world.interpreter.GraphsAccepted
  aloof : m.Aloof

/-- What may happen next, with the outputs that are published for each run. -/
inductive Happens (m : Machine) : Machine → (RunId → List (String × Value)) → Prop
  | moved (move : Move) : Happens m (m.step move) fun run ↦ m.publishing run move
  | opened (graph : GraphInstance) (config : RunConfig) (hasTasks : Bool) :
      Happens m (m.open_ graph config hasTasks).2 fun _ ↦ []
  /-- The first start of a context. -/
  | started (run : RunId) (c : Context) (inputs : Inputs) (hcontext : m.context? run = some c)
      (hinputs : c.inputs = none) : Happens m (m.start run inputs).2 fun _ ↦ []
  | ended (run : RunId) : Happens m (m.endRun run) fun _ ↦ []
  | handled (run : RunId) (handler : CompletionHandler) :
      Happens m (m.onComplete run handler) fun _ ↦ []
  /-- Something else changes: resources, or the loaded graphs. -/
  | changed (world : World) (hruns : world.interpreter.runs = m.world.interpreter.runs)
      (haccepted : world.interpreter.GraphsAccepted) : Happens m { m with world } fun _ ↦ []

/-- What happens in some order. -/
inductive Leads (m : Machine) : Machine → (RunId → List (String × Value)) → Prop
  | refl : Leads m m fun _ ↦ []
  | next {middle later : Machine} {history written : RunId → List (String × Value)}
      (h : Leads m middle history) (hnext : Happens middle later written) :
      Leads m later fun run ↦ history run ++ written run

/-- All runs are sound, with what each of them has published. -/
structure Sound (m : Machine) (history : RunId → List (String × Value)) : Prop where
  views : ∀ run, RunView.Sound m.provider run (history run) (m.view run)
  lt_nextRun : ∀ run c, m.context? run = some c → run < m.nextRun
  accepted : m.world.interpreter.GraphsAccepted
  aloof : m.Aloof

theorem Sound.housed (h : m.Sound history) : m.Housed :=
  ⟨fun run ↦ (h.views run).toHoused, h.lt_nextRun, h.accepted, h.aloof⟩

theorem Blank.sound (h : m.Blank) : m.Sound fun _ ↦ [] where
  views := fun run ↦ by
    have hempty : m.view run = {} := by
      simp [view, h.context run, h.active run, h.frames, h.tasks]
    exact hempty ▸ RunView.sound_empty m.provider run
  lt_nextRun := fun run c hcontext ↦ nomatch (h.context run).symm.trans hcontext
  accepted := h.accepted
  aloof := h.aloof

theorem view_endRun (m : Machine) (run : RunId) :
    (m.endRun run).view run = { m.view run with active := none } := by
  simp [view, endRun, withInterpreter, Interpreter.endRun, context?]

theorem concerns_endRun (m : Machine) (run : RunId) : Concerns run m (m.endRun run) := by
  refine ⟨⟨rfl, Nat.le_refl _, Nat.le_refl _, Nat.le_refl _, Nat.le_refl _, id⟩, fun other hother ↦ ?_⟩
  simp [view, endRun, withInterpreter, Interpreter.endRun, context?, Ne.symm hother]

/-- Setting a handler changes nothing else that is seen. -/
theorem onComplete_eq (m : Machine) (run : RunId) (handler : CompletionHandler) :
    ∃ events, m.onComplete run handler =
      { m.modifyContext run fun c ↦ { c with tracker := (c.tracker.onComplete handler).1 } with
        events } := by
  unfold onComplete
  split
  · rename_i hcontext
    refine ⟨m.events, ?_⟩
    rw [modifyContext, Table.modify_of_none hcontext]
  · rename_i c hcontext
    have hmodify : m.modifyContext run
        (fun c' ↦ { c' with tracker := (c.tracker.onComplete handler).1 }) =
        m.modifyContext run fun c' ↦ { c' with tracker := (c'.tracker.onComplete handler).1 } := by
      rw [modifyContext, modifyContext, Table.modify_of_some hcontext, Table.modify_of_some hcontext]
    simp only [hmodify]
    split
    · exact ⟨_, rfl⟩
    · exact ⟨m.events, rfl⟩

theorem view_onComplete (m : Machine) (run : RunId) (handler : CompletionHandler) :
    (m.onComplete run handler).view run = { m.view run with
      context := (m.view run).context.map fun c ↦
        { c with tracker := (c.tracker.onComplete handler).1 } } := by
  obtain ⟨events, hevents⟩ := onComplete_eq m run handler
  rw [hevents]
  exact view_modifyContext m run fun c ↦ { c with tracker := (c.tracker.onComplete handler).1 }

theorem concerns_onComplete (m : Machine) (run : RunId) (handler : CompletionHandler) :
    Concerns run m (m.onComplete run handler) := by
  obtain ⟨events, hevents⟩ := onComplete_eq m run handler
  rw [hevents]
  have hmodify := concerns_modifyContext m run
    fun c ↦ { c with tracker := (c.tracker.onComplete handler).1 }
  exact ⟨.of_eq rfl rfl rfl rfl rfl rfl, hmodify.view_eq⟩

theorem later_of_happens (h : m.Housed) (hnext : Happens m m' written) : Later m m' := by
  cases hnext with
  | moved move => exact later_step h move
  | opened graph config hasTasks => exact (concerns_open m graph config hasTasks).toLater
  | started run c inputs hcontext hinputs =>
    exact (concerns_start hcontext hinputs inputs).toLater
  | ended run => exact (concerns_endRun m run).toLater
  | handled run handler => exact (concerns_onComplete m run handler).toLater
  | changed world hruns haccepted =>
    exact ⟨rfl, Nat.le_refl _, Nat.le_refl _, Nat.le_refl _, Nat.le_refl _, fun _ ↦ haccepted⟩

/-- Whatever happens alters every run in one of a few ways. -/
theorem alters_of_happens (h : m.Housed) (hnext : Happens m m' written) (run : RunId) :
    RunView.Alters m m' run (m.view run) (m'.view run) (written run) := by
  have hother {owner : RunId} {after : Machine} (hconcerns : Concerns owner m after)
      (hne : run ≠ owner) : RunView.Alters m after run (m.view run) (after.view run) [] :=
    hconcerns.view_eq run hne ▸ .changed (.same _)
  cases hnext with
  | moved move => exact .changed (changes_step h move run)
  | opened graph config hasTasks =>
    by_cases hrun : run = m.nextRun
    · subst hrun
      rw [view_open, h.view_nextRun]
      exact .opened graph config hasTasks (Nat.lt_succ_self m.nextRun)
    · exact hother (concerns_open m graph config hasTasks) hrun
  | started owner c inputs hcontext hinputs =>
    by_cases hrun : run = owner
    · subst hrun
      obtain ⟨lost, hbegins⟩ := begins_start (.refl m) hcontext hinputs h.accepted inputs
      exact .started _ inputs hcontext hinputs h.accepted hbegins
    · exact hother (concerns_start hcontext hinputs inputs) hrun
  | ended owner =>
    by_cases hrun : run = owner
    · subst hrun
      exact view_endRun m run ▸ .ended _
    · exact hother (concerns_endRun m owner) hrun
  | handled owner handler =>
    by_cases hrun : run = owner
    · subst hrun
      exact view_onComplete m run handler ▸ .handled _ handler
    · exact hother (concerns_onComplete m owner handler) hrun
  | changed world hruns haccepted =>
    have hview : ({ m with world } : Machine).view run = m.view run := by
      simp [view, context?, hruns]
    exact hview ▸ .changed (.same _)

/-- Whatever happens, all runs stay sound. -/
theorem Sound.happens (h : m.Sound history) (hnext : Happens m m' written) :
    m'.Sound fun run ↦ history run ++ written run where
  views := fun run ↦ by
    rw [(later_of_happens h.housed hnext).provider_eq]
    exact (h.views run).alters (alters_of_happens h.housed hnext run)
  lt_nextRun := fun run c hcontext ↦ (alters_of_happens h.housed hnext run).lt_nextRun
    (later_of_happens h.housed hnext).nextRun_le (h.lt_nextRun run) hcontext
  accepted := (later_of_happens h.housed hnext).accepted h.accepted
  aloof := fun cache hcache ↦
    h.aloof cache ((later_of_happens h.housed hnext).provider_eq ▸ hcache)

theorem Sound.leads (h : m.Sound history) (hleads : Leads m m' written) :
    m'.Sound fun run ↦ history run ++ written run := by
  induction hleads with
  | refl =>
    simp only [List.append_nil]
    exact h
  | @next middle later before written _ hnext ih =>
    have happens := ih.happens hnext
    simp only [List.append_assoc] at happens
    exact happens

theorem later_of_leads (h : m.Sound history) (hleads : Leads m m' written) : Later m m' := by
  induction hleads with
  | refl => exact .refl m
  | next hleads hnext ih => exact ih.trans (later_of_happens (h.leads hleads).housed hnext)

theorem Blank.leads (h : m.Blank) (hleads : Leads m m' history) : m'.Sound history :=
  h.sound.leads hleads

theorem Leads.trans {later : Machine} (h : Leads m m' history) (hlater : Leads m' later written) :
    Leads m later fun run ↦ history run ++ written run := by
  induction hlater with
  | refl =>
    simp only [List.append_nil]
    exact h
  | @next middle later before written _ hnext ih =>
    simp only [← List.append_assoc]
    exact ih.next hnext

/-- A schedule is one order in which nodes act. -/
theorem leads_run (m : Machine) (schedule : List Move) :
    ∃ written, Leads m (m.run schedule) written := by
  induction schedule generalizing m with
  | nil => exact ⟨_, .refl⟩
  | cons move rest ih =>
    obtain ⟨written, hrest⟩ := ih (m.step move)
    exact ⟨_, (Leads.refl.next (.moved move)).trans hrest⟩

/-- A context stays, with its graph. -/
theorem Sound.context_leads {c : Context} (h : m.Sound history) (hleads : Leads m m' written)
    (hcontext : m.context? run = some c) :
    ∃ later, m'.context? run = some later ∧ later.graph = c.graph ∧ later.hasTasks = c.hasTasks := by
  induction hleads with
  | refl => exact ⟨c, hcontext, rfl, rfl⟩
  | next hleads hnext ih =>
    obtain ⟨between, hbetween, hgraph, htasks⟩ := ih
    have hsound := h.leads hleads
    obtain ⟨later, hlater, hgraph', htasks'⟩ :=
      (alters_of_happens hsound.housed hnext run).context hbetween fun hinputs ↦
        ((hsound.views run).unstarted between hbetween hinputs).active
    exact ⟨later, hlater, hgraph'.trans hgraph, htasks'.trans htasks⟩

/-! ### A small machine -/

/-- A machine on which a small graph is loaded. -/
def forked : Machine where
  provider := { fallback := .file none }
  world := { interpreter := { graphs := .ofList [(1, .forked)] } }

theorem forked_blank : forked.Blank where
  context := fun _ ↦ rfl
  active := fun _ ↦ rfl
  frames := rfl
  tasks := rfl
  accepted := by
    intro handle g hget
    obtain ⟨-, rfl⟩ := Prod.mk.inj (List.mem_singleton.mp (Table.mem_of_get? hget))
    exact Graph.forked_accepted
  aloof := fun _ hcache ↦ nomatch hcache

/-- The loaded graph, as runs know it. -/
def forkedInstance : GraphInstance where
  id := ⟨"forked", by decide⟩
  handle := 1
  inputs := []
  outputs := Graph.forked.outputs

/-- The same machine with a run that was opened. -/
def forkedOpened : Machine := (forked.open_ forkedInstance {} true).2

/-- The same machine with a run that was started. -/
def forkedStarted : Machine := (forkedOpened.start 1 {}).2

theorem leads_forkedOpened : Leads forked forkedOpened fun _ ↦ [] :=
  .next .refl (.opened _ _ _)

theorem leads_forkedStarted : Leads forked forkedStarted fun _ ↦ [] :=
  leads_forkedOpened.next (.started 1 _ {} rfl rfl)

/-! ### The two books on a run -/

/-- In every machine that can be reached, and for every run that the interpreter has under way, the
scopes that are pending are the open ones, each of them once, and the run has finished just when its
root is not open. -/
theorem pending_eq_of_leads {c : Context} {active : ActiveRun} (hblank : m.Blank)
    (hleads : Leads m m' history) (hcontext : m'.context? run = some c)
    (hactive : m'.world.interpreter.runs.get? run = some active) :
    (∀ scope, c.tracker.pending.get? scope = (active.scopes.entries.get? scope).map fun _ ↦ 1) ∧
      (c.tracker.finished = true ↔ active.scopes.entries.get? rootScope = none) := by
  obtain ⟨lost, hbalanced⟩ := ((hblank.leads hleads).views run).balanced
  have hagrees := hbalanced.agrees c active hcontext hactive
  exact ⟨hagrees.pending, hagrees.finished_iff⟩

/-- The second branch of the sequence is at work while the sequence goes on. -/
theorem pending_eq_of_forked :
    let m := forkedStarted.run (.poll 0 :: List.replicate 9 .advance)
    ∃ c active, m.context? 1 = some c ∧ m.world.interpreter.runs.get? 1 = some active ∧
      c.tracker.pending.keys = [0, 3] ∧
      (∀ scope, c.tracker.pending.get? scope = (active.scopes.entries.get? scope).map fun _ ↦ 1) ∧
      (c.tracker.finished = true ↔ active.scopes.entries.get? rootScope = none) := by
  intro m
  obtain ⟨written, hrun⟩ := leads_run forkedStarted (.poll 0 :: List.replicate 9 .advance)
  obtain ⟨c, hcontext⟩ := Option.isSome_iff_exists.mp (show (m.context? 1).isSome = true from rfl)
  obtain ⟨active, hactive⟩ := Option.isSome_iff_exists.mp
    (show (m.world.interpreter.runs.get? 1).isSome = true from rfl)
  have hpending : (m.context? 1).map (·.tracker.pending.keys) = some [0, 3] := rfl
  rw [hcontext] at hpending
  exact ⟨c, active, hcontext, hactive, Option.some.inj hpending,
    pending_eq_of_leads forked_blank (leads_forkedStarted.trans hrun) hcontext hactive⟩

end Machine

end Blueprint

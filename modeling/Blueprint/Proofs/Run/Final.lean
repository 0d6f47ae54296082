import Blueprint.Proofs.Run.Reach
import Blueprint.Run.Execution

/-!
The result of a run is final. When the root scope of a run has completed, nothing of the run is left:
no scope is pending or open, no call is queued and no node is at work (`RunView.Sound.over`). From
then on nothing that may happen changes what the run has come to (`Sound.rests`). So the outputs of a
successful result are the declared outputs that were set, each with the value it was set to last
(`final_of_leads`).
-/

set_option autoImplicit false

namespace Blueprint

/-! ### Declared outputs -/

theorem get?_ofDeclared (outputs : Inputs) (name : String) (decls : List PinDecl) (found : Inputs) :
    ((decls.filterMap fun decl ↦ (outputs.get? decl.name).map fun value ↦ (decl.name, value)).foldl
      (fun (t : Inputs) (write : String × Value) ↦ t.insert write.1 write.2) found).get? name =
      if name ∈ decls.map (·.name) then (outputs.get? name).or (found.get? name)
      else found.get? name := by
  induction decls generalizing found with
  | nil => rfl
  | cons decl rest ih =>
    by_cases hname : decl.name = name
    · subst hname
      cases hvalue : outputs.get? decl.name with
      | none => simp [hvalue, ih]
      | some value => simp [hvalue, ih]
    · cases hvalue : outputs.get? decl.name with
      | none => simp [hvalue, ih, Ne.symm hname]
      | some value => simp [hvalue, ih, hname, Ne.symm hname]

/-- The declared outputs are those of the outputs that are set whose names are declared. -/
theorem Context.get?_declaredOutputs (c : Context) (name : String) :
    c.declaredOutputs.get? name =
      if name ∈ c.graph.outputs.map (·.name) then c.outputs.get? name else none := by
  have hdeclared := get?_ofDeclared c.outputs name c.graph.outputs .empty
  rw [Table.get?_empty, Option.or_none] at hdeclared
  exact hdeclared

namespace RunView

variable {v after : RunView} {c : Context} {provider : Provider} {run : RunId}
  {history written : List (String × Value)}

/-- Where there is no work, there is no node at work and no call queued. -/
theorem eq_nil_of_workOn (h : ∀ scope, v.workOn scope = 0) : v.activities = [] ∧ v.queued = [] := by
  refine ⟨List.eq_nil_iff_forall_not_mem.mpr fun a ha ↦ ?_,
    List.eq_nil_iff_forall_not_mem.mpr fun call hcall ↦ ?_⟩
  · exact absurd (h a.call.scope) (Nat.ne_of_gt (workOn_pos_of_mem ha))
  · have hnone := h call.scope
    have hsome : 0 < v.queued.countP (·.scope == call.scope) :=
      List.countP_pos_iff.mpr ⟨_, hcall, by simp⟩
    rw [workOn] at hnone
    omega

/-- Nothing is left of a run. -/
structure Over (v : RunView) (c : Context) : Prop where
  context : v.context = some c
  finished : c.tracker.finished = true
  pending : ∀ scope, c.tracker.pending.get? scope = none
  closed : ∀ active, v.active = some active → ∀ scope, active.scopes.entries.get? scope = none
  activities : v.activities = []
  calls : c.queue.calls = []

/-- Nothing is left of a run that has finished. -/
theorem Sound.over (h : Sound provider run history v) (hcontext : v.context = some c)
    (hfinished : c.tracker.finished = true) : v.Over c := by
  obtain ⟨lost, hbalanced⟩ := h.balanced
  obtain ⟨hnone, hpending⟩ := hbalanced.ended.finished c hcontext rfl hfinished
  obtain ⟨hactivities, hqueued⟩ := eq_nil_of_workOn (v := v) fun scope ↦
    Nat.eq_zero_of_add_eq_zero_right (hnone scope)
  rw [queued, hcontext] at hqueued
  refine ⟨hcontext, hfinished, hpending, fun active hactive scope ↦ ?_, hactivities, hqueued⟩
  have hagrees := (hbalanced.agrees c active hcontext hactive).pending scope
  rw [hpending scope] at hagrees
  exact Option.map_eq_none_iff.mp hagrees.symm

/-- What a run has come to stays: its books, its outputs and its failures. -/
structure Rests (v after : RunView) : Prop where
  context : ∀ c, v.context = some c → ∃ later, after.context = some later ∧
    later.graph = c.graph ∧ later.tracker.pending = c.tracker.pending ∧
    later.tracker.finished = c.tracker.finished ∧ later.outputs = c.outputs ∧
    later.failedBranches = c.failedBranches
  active : after.active = v.active ∨ after.active = none

theorem Rests.refl (v : RunView) : Rests v v :=
  ⟨fun c hcontext ↦ ⟨c, hcontext, rfl, rfl, rfl, rfl, rfl⟩, Or.inl rfl⟩

theorem Rests.trans {middle : RunView} (h : Rests v middle) (hafter : Rests middle after) :
    Rests v after := by
  refine ⟨fun c hcontext ↦ ?_, ?_⟩
  · obtain ⟨between, hbetween, hgraph, hpending, hfinished, houtputs, hfailed⟩ := h.context c hcontext
    obtain ⟨later, hlater, hgraph', hpending', hfinished', houtputs', hfailed'⟩ :=
      hafter.context between hbetween
    exact ⟨later, hlater, hgraph'.trans hgraph, hpending'.trans hpending,
      hfinished'.trans hfinished, houtputs'.trans houtputs, hfailed'.trans hfailed⟩
  · rcases hafter.active with hsame | hnone
    · exact h.active.imp hsame.trans hsame.trans
    · exact Or.inr hnone

/-- Only the drain of its queue is left to move. -/
theorem Over.rests_changes {m m' : Machine} (h : v.Over c)
    (hchanges : Changes m m' run v after written) : Rests v after ∧ written = [] := by
  cases hchanges with
  | same => exact ⟨.refl v, rfl⟩
  | ended =>
    exact ⟨⟨(Rests.refl v).context, Or.inr rfl⟩, rfl⟩
  | begun graphs graph config inputs a home rest next hframes => cases h.context
  | worked hcontext hlabour =>
    obtain rfl := Option.some.inj (h.context.symm.trans hcontext)
    have hidle : ∀ a, a ∉ v.activities := fun a ha ↦ by simp [h.activities] at ha
    cases hlabour with
    | polled before rest task a htasks =>
      exact absurd (mem_activities.mpr (Or.inr ⟨task, by simp [htasks]⟩)) (hidle a)
    | shelved a home rest hframes | served a home rest hframes =>
      exact absurd (mem_activities.mpr (Or.inl ⟨home, by simp [hframes]⟩)) (hidle a)
    | released rest hframes hcalls =>
      refine ⟨⟨fun c' hcontext' ↦ ?_, Or.inl rfl⟩, rfl⟩
      obtain rfl := Option.some.inj (hcontext.symm.trans hcontext')
      exact ⟨_, rfl, rfl, rfl, rfl, rfl, rfl⟩
    | taken rest call calls kind hframes hcalls | skipped rest call calls hframes hcalls =>
      cases h.calls.symm.trans hcalls

/-- Assumes: the run has finished. It rests, whatever happens. -/
theorem Sound.rests_alters {m m' : Machine} (h : Sound m.provider run history v)
    (hcontext : v.context = some c) (hfinished : c.tracker.finished = true)
    (halters : Alters m m' run v after written) : Rests v after ∧ written = [] := by
  cases halters with
  | changed hchanges => exact (h.over hcontext hfinished).rests_changes hchanges
  | opened => cases hcontext
  | started graphs inputs hcontext' hinputs =>
    obtain rfl := Option.some.inj (hcontext.symm.trans hcontext')
    have hunused := (h.unstarted c hcontext hinputs).tracker
    cases hunused.finished.symm.trans hfinished
  | ended => exact ⟨⟨(Rests.refl v).context, Or.inr rfl⟩, rfl⟩
  | handled _ handler =>
    refine ⟨⟨fun c' hcontext' ↦ ?_, Or.inl rfl⟩, rfl⟩
    have hextends := c'.tracker.extends_onComplete handler
    exact ⟨{ c' with tracker := (c'.tracker.onComplete handler).1 },
      congrArg (Option.map _) hcontext', rfl, hextends.pending_eq, hextends.finished_eq, rfl, rfl⟩

end RunView

namespace Machine

variable {m m' : Machine} {run : RunId} {c : Context} {history written : RunId → List (String × Value)}

/-- A node of a run is at work, on the frames or on a task. -/
def AtWork (m : Machine) (run : RunId) (a : Activity) : Prop :=
  a.run = run ∧ ((∃ home, .node a home ∈ m.frames) ∨ ∃ task, (task, a) ∈ m.tasks)

theorem mem_activities_view {a : Activity} : a ∈ (m.view run).activities ↔ m.AtWork run a := by
  rw [RunView.mem_activities]
  simp only [view, List.mem_filter, AtWork, beq_iff_eq, Frame.run]
  constructor
  · rintro (⟨home, hframe, hrun⟩ | ⟨task, htask, hrun⟩)
    · exact ⟨hrun, Or.inl ⟨home, hframe⟩⟩
    · exact ⟨hrun, Or.inr ⟨task, htask⟩⟩
  · rintro ⟨hrun, ⟨home, hframe⟩ | ⟨task, htask⟩⟩
    · exact Or.inl ⟨home, hframe, hrun⟩
    · exact Or.inr ⟨task, htask, hrun⟩

/-- Nothing is left of a run: no scope is pending or open, no call is queued and no node at work. -/
structure Clear (m : Machine) (run : RunId) (c : Context) : Prop where
  pending : c.tracker.pendingScopes = []
  scopes : ∀ active, m.world.interpreter.runs.get? run = some active →
    active.scopes.entries.entries = []
  calls : c.queue.calls = []
  idle : ∀ a, ¬m.AtWork run a

theorem clear_of_over (h : (m.view run).Over c) : m.Clear run c where
  pending := Tracker.pendingScopes_eq_nil h.pending
  scopes := fun active hactive ↦ by
    have hkeys : active.scopes.entries.keys = [] := List.eq_nil_iff_forall_not_mem.mpr fun scope ↦
      Table.get?_eq_none_iff.mp (h.closed active hactive scope)
    exact List.map_eq_nil_iff.mp hkeys
  calls := h.calls
  idle := fun a ha ↦ by
    have hmem := mem_activities_view.mpr ha
    simp [h.activities] at hmem

/-! ### Nothing changes any more -/

theorem Sound.over (h : m.Sound history) (hcontext : m.context? run = some c)
    (hfinished : c.tracker.finished = true) : (m.view run).Over c :=
  (h.views run).over hcontext hfinished

/-- Assumes: the run has finished. Whatever happens from now on, it rests. -/
theorem Sound.rests (h : m.Sound history) (hcontext : m.context? run = some c)
    (hfinished : c.tracker.finished = true) (hleads : Leads m m' written) :
    RunView.Rests (m.view run) (m'.view run) ∧ written run = [] := by
  induction hleads with
  | refl => exact ⟨.refl _, rfl⟩
  | next hleads hnext ih =>
    obtain ⟨hrests, hsilent⟩ := ih
    obtain ⟨later, hlater, -, -, hstill, -⟩ := hrests.context c hcontext
    have hsound := h.leads hleads
    obtain ⟨hnextRests, hnextSilent⟩ := (hsound.views run).rests_alters hlater
      (hstill.trans hfinished) (alters_of_happens hsound.housed hnext run)
    exact ⟨hrests.trans hnextRests, List.append_eq_nil_iff.mpr ⟨hsilent, hnextSilent⟩⟩

/-! ### Results -/

/-- A result has the declared outputs that were set, each with its last value, and no other. -/
def Delivers (result : RunResult) (declared : List PinDecl) (history : List (String × Value)) :
    Prop :=
  ∀ name, result.outputs.get? name =
    if name ∈ declared.map (·.name) then lastWritten name history else none

theorem Sound.conclusion (h : m.Sound history) (hcontext : m.context? run = some c) :
    (m.conclusion run).1.success = true ∧
      Delivers (m.conclusion run).1 c.graph.outputs (history run) := by
  have hresult : (m.conclusion run).1 = c.result run := by
    simp only [Machine.conclusion, hcontext]
  rw [hresult]
  refine ⟨rfl, fun name ↦ ?_⟩
  rw [← (h.views run).recorded c hcontext name]
  exact c.get?_declaredOutputs name

/-- What is waited for happens by moves, and what was waited for holds when it has come. -/
theorem leads_await (holds : Machine → Bool) (limit : Option Nat) (steps : Nat) (m : Machine) :
    (∃ written, Leads m (m.await holds limit steps).2 written) ∧
      ((m.await holds limit steps).1 = .reached → holds (m.await holds limit steps).2 = true) := by
  induction steps generalizing m with
  | zero => exact ⟨⟨_, .refl⟩, fun hreached ↦ nomatch hreached⟩
  | succ steps ih =>
    rw [await]
    split_ifs with hholds hlate
    · exact ⟨⟨_, .refl⟩, fun _ ↦ (Bool.and_eq_true_iff.mp hholds).2⟩
    · exact ⟨⟨_, .refl⟩, fun hreached ↦ nomatch hreached⟩
    · split
      · rename_i move hmove
        obtain ⟨⟨written, hleads⟩, hreached⟩ := ih (m.step move)
        exact ⟨⟨_, (Leads.refl.next (.moved move)).trans hleads⟩, hreached⟩
      · exact ⟨⟨_, .refl⟩, fun hreached ↦ nomatch hreached⟩

/-- A run that is started and waited for, with success. -/
theorem Sound.runToEnd (h : m.Sound history) (hcontext : m.context? run = some c)
    (hinputs : c.inputs = none) {steps : Nat} {inputs : Inputs} {timeout : Option Nat}
    {result : RunResult} (hend : m.runToEnd steps run inputs timeout = (.ok result, m'))
    (hsuccess : result.success = true) :
    ∃ written, Leads m m' written ∧ Delivers result c.graph.outputs (written run) := by
  have hstarted : Leads m (m.start run inputs).2 fun _ ↦ [] :=
    Leads.refl.next (.started run c inputs hcontext hinputs)
  unfold Machine.runToEnd at hend
  generalize m.start run inputs = started at hend hstarted
  obtain ⟨outcome, started⟩ := started
  cases outcome with
  | error e =>
    obtain ⟨hresult, -⟩ := Prod.mk.inj hend
    obtain rfl := Except.ok.inj hresult
    cases hsuccess
  | ok scope =>
    simp only at hend hstarted
    obtain ⟨⟨written, hleads⟩, -⟩ :=
      leads_await (·.isFinished run) (timeout.map (started.now + ·)) steps started
    generalize started.await (·.isFinished run) (timeout.map (started.now + ·)) steps = waited
      at hend hleads
    obtain ⟨waited, reached⟩ := waited
    cases waited with
    | reached =>
      obtain ⟨hresult, rfl⟩ := Prod.mk.inj hend
      obtain rfl := Except.ok.inj hresult
      have hreached := hstarted.trans hleads
      obtain ⟨later, hlater, hgraph, -⟩ := h.context_leads hreached hcontext
      have hnothing : history run = [] := (h.views run).silent fun c' hcontext' ↦ by
        obtain rfl := Option.some.inj (hcontext.symm.trans hcontext')
        exact hinputs
      have hdelivers := ((h.leads hreached).conclusion hlater).2
      rw [hgraph, hnothing] at hdelivers
      exact ⟨_, hreached.next (.ended run), by simpa using hdelivers⟩
    | late =>
      obtain ⟨hresult, -⟩ := Prod.mk.inj hend
      obtain rfl := Except.ok.inj hresult
      cases hsuccess
    | stuck | unfinished => cases hend

/-- In every machine that can be reached, and for every run: nodes are at work on open scopes only;
once the root scope has completed, nothing is left of the run and whatever happens leaves it as it
is, so that its result is final; and the outputs of a run that was waited for, with success, are the
declared ones that its nodes have set, each with its last value. -/
theorem final_of_leads {blank : Machine} (hblank : blank.Blank) (hleads : Leads blank m history)
    (hcontext : m.context? run = some c) :
    (∀ a active, m.AtWork run a → m.world.interpreter.runs.get? run = some active →
      (active.scopes.entries.get? a.call.scope).isSome = true) ∧
    (c.tracker.finished = true →
      m.Clear run c ∧
      (∀ later written, Leads m later written →
        RunView.Rests (m.view run) (later.view run) ∧ written run = []) ∧
      (m.conclusion run).1.success = true ∧
      Delivers (m.conclusion run).1 c.graph.outputs (history run)) ∧
    ∀ steps inputs timeout result later, c.inputs = none →
      m.runToEnd steps run inputs timeout = (.ok result, later) → result.success = true →
      ∃ written, Leads m later written ∧ Delivers result c.graph.outputs (written run) := by
  have hsound := hblank.leads hleads
  refine ⟨fun a active hwork hactive ↦ ?_, fun hfinished ↦ ⟨?_, fun later written hlater ↦ ?_, ?_⟩, ?_⟩
  · obtain ⟨lost, hbalanced⟩ := (hsound.views run).balanced
    exact ScopeTable.isSome_of_awaits
      (hbalanced.awaits_of_mem hactive (mem_activities_view.mpr hwork))
  · exact clear_of_over ((hsound.views run).over hcontext hfinished)
  · exact hsound.rests hcontext hfinished hlater
  · exact hsound.conclusion hcontext
  · intro steps inputs timeout result later hinputs hend hsuccess
    exact hsound.runToEnd hcontext hinputs hend hsuccess

/-- The run of a small graph comes to its end, by moves and by waiting for it. -/
theorem final_of_forked :
    let m := forkedStarted.run (.poll 0 :: List.replicate 18 .advance)
    (∃ c, m.context? 1 = some c ∧ c.tracker.finished = true ∧ m.Clear 1 c) ∧
      (m.conclusion 1).1.outputs.keys = ["answer"] ∧
      ∃ (result : RunResult) (later : Machine) (written : RunId → List (String × Value)),
        forkedOpened.runToEnd 30 1 {} none = (.ok result, later) ∧ result.success = true ∧
          Delivers result Graph.forked.outputs (written 1) := by
  intro m
  obtain ⟨history, hrun⟩ := leads_run forkedStarted (.poll 0 :: List.replicate 18 .advance)
  obtain ⟨c, hcontext⟩ := Option.isSome_iff_exists.mp (show (m.context? 1).isSome = true from rfl)
  have hfinished : (m.context? 1).map (·.tracker.finished) = some true := rfl
  rw [hcontext] at hfinished
  have hover := (final_of_leads forked_blank (leads_forkedStarted.trans hrun) hcontext).2.1
    (Option.some.inj hfinished)
  refine ⟨⟨c, hcontext, Option.some.inj hfinished, hover.1⟩, rfl, ?_⟩
  have hsuccess : (match (forkedOpened.runToEnd 30 1 {} none).1 with
    | .ok result => result.success
    | .error _ => false) = true := rfl
  rcases hend : forkedOpened.runToEnd 30 1 {} none with ⟨outcome, later⟩
  rw [hend] at hsuccess
  cases outcome with
  | error e => cases hsuccess
  | ok result =>
    obtain ⟨written, -, hdelivers⟩ := (final_of_leads forked_blank leads_forkedOpened rfl).2.2 30 {}
      none result later rfl hend hsuccess
    exact ⟨result, later, written, rfl, hsuccess, hdelivers⟩
end Machine

end Blueprint

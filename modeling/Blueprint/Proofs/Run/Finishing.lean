import Blueprint.Proofs.Run.Steady

/-!
Runs of acyclic graphs finish. A context that is started for the first time, on an acyclic graph of
plain nodes, makes a tame run (`Sound.steady_start`), so whatever else is on the machine, its work is
bounded and it does not get stuck. Where nothing else is, waiting for it comes to an end as well: there
is always a next move, and of two moves at least one is work of the run (`Steady.await`).
-/

set_option autoImplicit false

namespace Blueprint

namespace RunView

variable {m m' : Machine} {run : RunId} {g : Graph} {waits : Bool} {nextTicket : Nat}
  {v after : RunView} {c c' : Context} {active : ActiveRun} {inputs : Inputs} {lost : List Nat}

theorem Unstarted.activities (h : v.Unstarted c) : v.activities = [] := by
  simp [RunView.activities, h.frames, h.tasks]

/-- Assumes: a context whose queue is empty still. -/
theorem Unstarted.tame (h : v.Unstarted c) (hplace : waits = true → c'.hasTasks = true)
    (hgraph : active.graph = g) (hcalls : c'.queue.calls = []) (hwaiters : c'.tracker.waiters = []) :
    ({ v with context := some c', active := some active } : RunView).Tame g waits nextTicket c' where
  context := rfl
  graph := fun _ hactive ↦ Option.some.inj hactive ▸ hgraph
  place := hplace
  affords := fun a ha ↦ by
    have hnone : a ∈ v.activities := ha
    simp [h.activities] at hnone
  calls := fun call hcall ↦ by simp [hcalls] at hcall
  waiters := fun waiter hwaiter ↦ by simp [hwaiters] at hwaiter
  tickets := fun a ha ↦ by
    have hnone : a ∈ v.activities := ha
    simp [h.activities] at hnone

theorem Unstarted.holders (h : v.Unstarted c) (context : Option Context) (active : Option ActiveRun)
    (task : Nat) : ({ v with context, active } : RunView).holders task = 0 := by
  simp [RunView.holders, h.frames, h.tasks]

/-- A run begins tame and whole. Assumes: its graph is loaded, and is one of plain nodes. -/
theorem Unstarted.begins (h : v.Unstarted c) (hlater : Machine.Later m m')
    (hplain : g.Plain m.provider.registry waits) (hplace : waits = true → c.hasTasks = true)
    {graphs : Table Nat Graph} (hgraph : graphs.get? c.graph.handle = some g)
    (hbegins : Begins m m' run graphs v c inputs after lost) :
    (∃ c', after.Tame g waits m'.nextTicket c') ∧ after.Balanced [] [] ∧
      after.Numbered m'.nextTask ∧ after.active ≠ none := by
  have hbalanced := h.balanced_begins hbegins
  cases hbegins with
  | refused hmissing => cases hmissing.symm.trans hgraph
  | entered graph entry bindings hloaded hentry hinvokes =>
    obtain rfl := Option.some.inj (hgraph.symm.trans hloaded)
    have hopened : ({ v with
        context := some
          { c with inputs := some inputs, tracker := c.tracker.dispatch rootScope, bindings }
        active := some { graph := g, inputs, scopes := .initial } } : RunView).Tame g waits m.nextTicket
          { c with inputs := some inputs, tracker := c.tracker.dispatch rootScope, bindings } :=
      h.tame hplace rfl h.calls h.tracker.waiters
    obtain ⟨rfl, c', htame, -⟩ :=
      hopened.invoke m.now hplain ⟨entry, hentry, rfl, rfl, rfl⟩ hinvokes
    refine ⟨⟨c', htame.mono hlater.nextTicket_le⟩, hbalanced, ⟨fun task ↦ ?_, fun task hgiven ↦ ?_⟩, ?_⟩
    · rcases hinvokes.hands task with hkept | ⟨-, -, hnew⟩
      · rw [h.holders] at hkept
        omega
      · rw [h.holders] at hnew
        omega
    · rcases hinvokes.hands task with hkept | ⟨-, hnew, -⟩
      · rw [h.holders] at hkept
        omega
      · omega
    · intro hnone
      have hkept := (hinvokes.keeps rfl).graph
      rw [hnone] at hkept
      cases hkept
  | nodeless graph hloaded hnodes =>
    obtain rfl := Option.some.inj (hgraph.symm.trans hloaded)
    have hwaiters : ((c.tracker.dispatch rootScope).complete rootScope).tracker.waiters = [] :=
      List.subset_nil.mp (h.tracker.waiters ▸ (c.tracker.dispatch rootScope).waiters_complete rootScope)
    refine ⟨⟨_, h.tame hplace rfl h.calls hwaiters⟩, hbalanced, ⟨fun task ↦ ?_, fun task _ ↦ ?_⟩, ?_⟩
    · rw [h.holders]
      exact Nat.zero_le 1
    · exact h.holders _ _ task
    · exact Option.some_ne_none _

end RunView

namespace Machine

variable {m m' : Machine} {run : RunId} {g : Graph} {waits : Bool} {c : Context}
  {history : RunId → List (String × Value)}

/-- A first start, of an acyclic graph of plain nodes. -/
theorem Sound.steady_start (h : m.Sound history) (hcontext : m.context? run = some c)
    (hinputs : c.inputs = none) (hgraph : m.world.interpreter.graphs.get? c.graph.handle = some g)
    (hplain : g.Plain m.provider.registry waits) (hplace : waits = true → c.hasTasks = true)
    (inputs : Inputs) : ∃ c', (m.start run inputs).2.Steady run g waits c' := by
  have hlater : Later m (m.start run inputs).2 := (concerns_start hcontext hinputs inputs).toLater
  have hstarted := h.happens (.started run c inputs hcontext hinputs)
  obtain ⟨lost, hbegins⟩ := begins_start (.refl m) hcontext hinputs h.accepted inputs
  obtain ⟨⟨c', htame⟩, hbalanced, hnumbered, hactive⟩ :=
    ((h.views run).unstarted c hcontext hinputs).begins hlater hplain hplace hgraph hbegins
  exact ⟨c', ⟨_, hstarted⟩, hlater.provider_eq ▸ hplain, htame, hbalanced, hnumbered,
    Or.inr hactive⟩

/-! ### Waiting for a run -/

/-- No other run has anything on the machine. -/
structure Alone (m : Machine) (run : RunId) : Prop where
  frames : ∀ frame ∈ m.frames, frame.run = run
  tasks : ∀ entry ∈ m.tasks, entry.2.run = run

theorem alone_iff : m.Alone run ↔
    ∀ other, other ≠ run → (m.view other).frames = [] ∧ (m.view other).tasks = [] := by
  constructor
  · intro h other hother
    refine ⟨List.filter_eq_nil_iff.mpr fun frame hframe ↦ ?_,
      List.filter_eq_nil_iff.mpr fun entry hentry ↦ ?_⟩
    · rw [h.frames frame hframe]
      simpa using Ne.symm hother
    · rw [h.tasks entry hentry]
      simpa using Ne.symm hother
  · refine fun h ↦ ⟨fun frame hframe ↦ ?_, fun entry hentry ↦ ?_⟩
    · by_contra hother
      have hmem : frame ∈ (m.view frame.run).frames := List.mem_filter.mpr ⟨hframe, by simp⟩
      simp [(h frame.run hother).1] at hmem
    · by_contra hother
      have hmem : entry ∈ (m.view entry.2.run).tasks := List.mem_filter.mpr ⟨hentry, by simp⟩
      simp [(h entry.2.run hother).2] at hmem

/-- No node of a tame run nests another one. -/
theorem Steady.not_nest (h : m.Steady run g waits c) (halone : m.Alone run) {a : Activity}
    {home : Option Nat} {rest : List Frame} (hframes : m.frames = .node a home :: rest)
    {graph : GraphInstance} {inputs : Inputs} {next : RunResult → Behaviour} :
    ¬RunView.Resumes a.progress (.nest graph inputs next) := by
  intro hresumes
  have hframe : .node a home ∈ m.frames := by simp [hframes]
  have ha : a ∈ (m.view run).activities :=
    mem_activities_view.mpr ⟨halone.frames _ hframe, Or.inl ⟨home, hframe⟩⟩
  obtain ⟨budget, hbudget⟩ := h.tame.affords a ha
  cases Progress.within_of_resumes hbudget hresumes

/-- A run that is alone stays so. -/
theorem Steady.alone_step (h : m.Steady run g waits c) (halone : m.Alone run) (move : Move) :
    (m.step move).Alone run := by
  obtain ⟨history, hsound⟩ := h.sound
  refine alone_iff.mpr fun other hother ↦ ?_
  have hidle := alone_iff.mp halone other hother
  have hchanges := changes_step hsound.housed move other
  generalize m.view other = v at hidle hchanges
  generalize (m.step move).view other = after at hchanges
  generalize m.publishing other move = written at hchanges
  cases hchanges with
  | same | ended => exact hidle
  | worked hcontext hlabour =>
    exact absurd hlabour (RunView.not_labour_of_idle hidle.1 hidle.2)
  | begun graphs graph config inputs a home rest next hframes hresumes =>
    exact absurd hresumes (h.not_nest halone hframes)

/-- One of the tasks that can go on is polled next. -/
theorem exists_nextReady {task : Nat} {a : Activity} (hmem : (task, a) ∈ m.tasks)
    (hcan : m.canGoOn a = true) :
    ∃ next ∈ m.tasks, m.nextReady = some next.1 ∧ m.canGoOn next.2 = true := by
  have hfound : (m.tasks.find? fun entry ↦ m.canGoOn entry.2).isSome = true :=
    List.find?_isSome.mpr ⟨_, hmem, hcan⟩
  obtain ⟨next, hnext⟩ := Option.isSome_iff_exists.mp hfound
  exact ⟨next, List.mem_of_find?_eq_some hnext, congrArg (Option.map Prod.fst) hnext,
    List.find?_some (p := fun entry : Nat × Activity ↦ m.canGoOn entry.2) hnext⟩

theorem earlier_eq_none {found due : Option Nat} (h : earlier found due = none) :
    found = none ∧ due = none := by
  cases found <;> cases due <;> simp_all [earlier]

theorem earlier_eq_some {found due : Option Nat} {moment : Nat}
    (h : earlier found due = some moment) : found = some moment ∨ due = some moment := by
  cases found with
  | none => exact Or.inr h
  | some first =>
    cases due with
    | none => exact Or.inl h
    | some second =>
      obtain rfl := Option.some.inj h
      rcases Nat.le_total first second with hle | hle
      · exact Or.inl (congrArg some (Nat.min_eq_left hle).symm)
      · exact Or.inr (congrArg some (Nat.min_eq_right hle).symm)

/-- The earliest moment is one at which something is due. -/
theorem foldl_earlier (tasks : List (Nat × Activity)) (found : Option Nat) :
    match tasks.foldl (fun found entry ↦ earlier found (dueAt entry.2)) found with
    | none => found = none ∧ ∀ entry ∈ tasks, dueAt entry.2 = none
    | some moment => found = some moment ∨ ∃ entry ∈ tasks, dueAt entry.2 = some moment := by
  induction tasks generalizing found with
  | nil => cases found <;> simp
  | cons first rest ih =>
    have hrest := ih (earlier found (dueAt first.2))
    rw [List.foldl_cons]
    generalize rest.foldl (fun found entry ↦ earlier found (dueAt entry.2))
      (earlier found (dueAt first.2)) = earliest at hrest
    cases earliest with
    | none =>
      obtain ⟨hfound, hdue⟩ := earlier_eq_none hrest.1
      exact ⟨hfound, List.forall_mem_cons.mpr ⟨hdue, hrest.2⟩⟩
    | some moment =>
      rcases hrest with hfirst | ⟨entry, hmem, hdue⟩
      · rcases earlier_eq_some hfirst with hfound | hdue
        · exact Or.inl hfound
        · exact Or.inr ⟨first, List.mem_cons_self, hdue⟩
      · exact Or.inr ⟨entry, List.mem_cons_of_mem _ hmem, hdue⟩

/-- When something is due, time passes up to such a moment. -/
theorem exists_nextDue {task : Nat} {a : Activity} (hmem : (task, a) ∈ m.tasks) {due : Nat}
    (hdue : dueAt a = some due) :
    ∃ moment, m.nextDue = some moment ∧ ∃ next ∈ m.tasks, dueAt next.2 = some moment := by
  have hfold := foldl_earlier m.tasks none
  cases hnext : m.nextDue with
  | none =>
    rw [show m.tasks.foldl (fun found entry ↦ earlier found (dueAt entry.2)) none = none from hnext]
      at hfold
    cases hdue.symm.trans (hfold.2 _ hmem)
  | some moment =>
    rw [show m.tasks.foldl (fun found entry ↦ earlier found (dueAt entry.2)) none = some moment
      from hnext] at hfold
    exact ⟨moment, rfl, hfold.resolve_left fun hnone ↦ nomatch hnone⟩

theorem Alone.works_advance (h : m.Alone run) (hframes : m.frames ≠ []) :
    m.works run .advance = true := by
  obtain ⟨frame, rest, hcons⟩ := List.exists_cons_of_ne_nil hframes
  have hrun := h.frames frame (by simp [hcons])
  simp [works, hcons, hrun]

/-- A task that can go on may be polled. -/
theorem Steady.works_poll (h : m.Steady run g waits c) (halone : m.Alone run)
    (hframes : m.frames = []) {task : Nat} {a : Activity} (hmem : (task, a) ∈ m.tasks)
    (hcan : m.canGoOn a = true) : m.works run (.poll task) = true := by
  have hrun : a.run = run := halone.tasks _ hmem
  have htasks : (m.view run).tasks = m.tasks :=
    List.filter_eq_self.mpr fun entry hentry ↦ by simpa using halone.tasks entry hentry
  have honce := h.numbered.once task
  rw [RunView.holders, htasks] at honce
  obtain ⟨rest, hfound⟩ := takeTask_of_once hmem (Nat.le_trans (Nat.le_add_left _ _) honce)
  simp [works, hframes, hfound, hrun, hcan]

/-- What can go on does so next, and that is work. -/
theorem Steady.nextMove_works (h : m.Steady run g waits c) (halone : m.Alone run)
    (hframes : m.frames = []) {task : Nat} {a : Activity} (hmem : (task, a) ∈ m.tasks)
    (hcan : m.canGoOn a = true) :
    ∃ move, m.nextMove none = some move ∧ m.works run move = true := by
  obtain ⟨⟨next, b⟩, hnext, hready, hgoes⟩ := exists_nextReady hmem hcan
  exact ⟨.poll next, by simp [nextMove, hframes, hready], h.works_poll halone hframes hnext hgoes⟩

/-- The next move of a run that has not finished, or the one after it, is work of the run. -/
theorem Steady.exists_nextMove (h : m.Steady run g waits c) (halone : m.Alone run)
    (hwaits : (m.frames.isEmpty && m.isFinished run) = false) :
    ∃ move, m.nextMove none = some move ∧ (m.works run move = true ∨
      ((m.step move).frames.isEmpty && (m.step move).isFinished run) = false ∧
      ∃ later, (m.step move).nextMove none = some later ∧ (m.step move).works run later = true) := by
  by_cases hframes : m.frames = []
  · have hfinished : m.isFinished run = false := by simpa [hframes] using hwaits
    have hnone : (m.view run).frames = [] := by simp [view, hframes]
    obtain ⟨task, a, hmem, ha, hready⟩ := h.exists_ready hfinished hnone
    by_cases hnow : ∃ entry ∈ m.tasks, m.canGoOn entry.2 = true
    · obtain ⟨entry, hentry, hcan⟩ := hnow
      obtain ⟨move, hmove, hworks⟩ := h.nextMove_works halone hframes hentry hcan
      exact ⟨move, hmove, Or.inl hworks⟩
    · obtain ⟨due, hdue⟩ := hready.resolve_left fun hcan ↦ hnow ⟨_, hmem, hcan⟩
      obtain ⟨moment, hnext, ⟨number, b⟩, hentry, hmoment⟩ := exists_nextDue hmem hdue
      have hidle : m.nextReady = none := by
        rw [nextReady, Option.map_eq_none_iff, List.find?_eq_none]
        exact fun entry hmem hcan ↦ hnow ⟨entry, hmem, hcan⟩
      have hb : b ∈ (m.view run).activities :=
        mem_activities_view.mpr ⟨halone.tasks _ hentry, Or.inr ⟨number, hentry⟩⟩
      have hgoes : (m.step (.tick moment)).canGoOn b = true := h.canGoOn_tick hb hmoment
      obtain ⟨c', hsteady, -⟩ := h.step (.tick moment)
      have hlater := hsteady.nextMove_works (h.alone_step halone (.tick moment)) hframes hentry hgoes
      refine ⟨.tick moment, ?_, Or.inr ⟨?_, hlater⟩⟩
      · simp [nextMove, hframes, hidle, hnext, earlier]
      · rw [show (m.step (.tick moment)).isFinished run = m.isFinished run from rfl, hfinished,
          Bool.and_false]
  · exact ⟨.advance, by simp [nextMove, hframes], Or.inl (halone.works_advance hframes)⟩

theorem await_succ {holds : Machine → Bool} (hwaits : (m.frames.isEmpty && holds m) = false)
    {move : Move} (hmove : m.nextMove none = some move) (steps : Nat) :
    m.await holds none (steps + 1) = (m.step move).await holds none steps := by
  rw [await]
  simp [hwaits, hmove]

/-- A run that is alone on its machine finishes, when it is waited for long enough. -/
theorem Steady.await (h : m.Steady run g waits c) (halone : m.Alone run) {steps : Nat}
    (hsteps : 2 * m.cost run g waits c + 2 ≤ steps) :
    (m.await (·.isFinished run) none steps).1 = .reached := by
  generalize hbudget : m.cost run g waits c = budget at hsteps
  induction budget using Nat.strong_induction_on generalizing m c steps with
  | _ budget ih =>
    obtain ⟨steps, rfl⟩ : ∃ more, steps = more + 2 := ⟨steps - 2, by omega⟩
    cases hwaits : m.frames.isEmpty && m.isFinished run with
    | true =>
      rw [Machine.await, if_pos hwaits]
    | false =>
      obtain ⟨move, hmove, hgoes⟩ := h.exists_nextMove halone hwaits
      rw [await_succ hwaits hmove]
      have halone' := h.alone_step halone move
      rcases hgoes with hworks | ⟨hwaits', later, hlater, hworks⟩
      · obtain ⟨c', hsteady, hcost⟩ := h.step_works hworks
        exact ih _ (hbudget ▸ hcost) hsteady halone' rfl (by omega)
      · obtain ⟨c', hsteady, hcost⟩ := h.step move
        obtain ⟨c'', hsteady', hcost'⟩ := hsteady.step_works hworks
        rw [await_succ hwaits' hlater]
        exact ih _ (by omega) hsteady' (hsteady.alone_step halone' later) rfl (by omega)

/-! ### Results -/

/-- A run has something on the frames, or one of its tasks can go on, if need be after some time. -/
def Awake (m : Machine) (run : RunId) : Prop :=
  (∃ frame ∈ m.frames, frame.run = run) ∨ ∃ moment task a, (task, a) ∈ m.tasks ∧ a.run = run ∧
    (m.tick moment).canGoOn a = true

theorem Steady.awake (h : m.Steady run g waits c) (hfinished : m.isFinished run = false) :
    m.Awake run := by
  by_cases hframes : (m.view run).frames = []
  · obtain ⟨task, a, hmem, ha, hready⟩ := h.exists_ready hfinished hframes
    have hrun : a.run = run := (mem_activities_view.mp ha).1
    rcases hready with hcan | ⟨due, hdue⟩
    · refine Or.inr ⟨m.now, task, a, hmem, hrun, ?_⟩
      rwa [tick, Nat.max_self]
    · exact Or.inr ⟨due, task, a, hmem, hrun, h.canGoOn_tick ha hdue⟩
  · obtain ⟨frame, hframe⟩ := List.exists_mem_of_ne_nil _ hframes
    obtain ⟨hmem, hrun⟩ := List.mem_filter.mp hframe
    exact Or.inl ⟨frame, hmem, by simpa using hrun⟩

/-- Assumes: the run begins tame, and alone. -/
theorem Steady.runToEnd {inputs : Inputs} (hstart : (m.start run inputs).1 = .ok rootScope)
    (h : (m.start run inputs).2.Steady run g waits c) (halone : (m.start run inputs).2.Alone run)
    {steps : Nat} (hsteps : 2 * (m.start run inputs).2.cost run g waits c + 2 ≤ steps) :
    ∃ result later, m.runToEnd steps run inputs none = (.ok result, later) ∧
      result.success = true := by
  have hreached := h.await halone hsteps
  unfold Machine.runToEnd
  generalize m.start run inputs = started at hstart hreached h
  obtain ⟨outcome, started⟩ := started
  obtain rfl : outcome = .ok rootScope := hstart
  obtain ⟨⟨written, hleads⟩, -⟩ := leads_await (·.isFinished run) none steps started
  simp only [Option.map_none] at hreached ⊢
  generalize started.await (·.isFinished run) none steps = waited at hreached hleads ⊢
  obtain ⟨waited, ended⟩ := waited
  obtain rfl : waited = .reached := hreached
  obtain ⟨history, hbase⟩ := h.sound
  obtain ⟨later, hlater, -⟩ := hbase.context_leads hleads h.tame.context
  exact ⟨_, _, rfl, ((hbase.leads hleads).conclusion hlater).1⟩

/-- In every machine that can be reached, and for every context that was not started, on an acyclic
graph of plain nodes. Assumes: the context has a place for tasks, or no node needs one. The run is
started; no schedule, of this and of other runs, has more than so much work of the run; as long as it
has not finished, it has something on the frames or one of its tasks can go on; and if nothing else is
under way, the run returns with success when it is waited for without a limit. -/
theorem finishes_of_acyclic {blank : Machine} (hblank : blank.Blank) (hleads : Leads blank m history)
    (hcontext : m.context? run = some c) (hinputs : c.inputs = none)
    (hgraph : m.world.interpreter.graphs.get? c.graph.handle = some g) (hacyclic : g.Acyclic)
    (hkinds : ∀ node ∈ g.nodes, ∀ kind, m.provider.registry.get? node.kind = some kind →
      kind ∈ NodeKind.plain)
    (hplace : c.hasTasks = true ∨ ∀ node ∈ g.nodes, ∀ kind,
      m.provider.registry.get? node.kind = some kind → kind.mode = .sync) (inputs : Inputs) :
    (m.start run inputs).1 = .ok rootScope ∧
    (∃ bound, ∀ schedule, (m.start run inputs).2.workedIn run schedule ≤ bound) ∧
    (∀ schedule, ((m.start run inputs).2.run schedule).isFinished run = false →
      ((m.start run inputs).2.run schedule).Awake run) ∧
    (m.frames = [] → m.tasks = [] → ∃ bound, ∀ steps, bound ≤ steps → ∃ result later,
      m.runToEnd steps run inputs none = (.ok result, later) ∧ result.success = true) := by
  have hsound := hblank.leads hleads
  have hplain : g.Plain m.provider.registry c.hasTasks :=
    ⟨(hsound.accepted _ g hgraph).wired, hacyclic, fun node hnode kind hkind ↦
      ⟨hkinds node hnode kind hkind, hplace.imp_right fun hsync ↦ hsync node hnode kind hkind⟩⟩
  have hstart : (m.start run inputs).1 = .ok rootScope := by
    rw [start_fst hcontext hinputs hsound.accepted inputs, hgraph]
    rfl
  obtain ⟨c', hsteady⟩ := hsound.steady_start hcontext hinputs hgraph hplain id inputs
  refine ⟨hstart, ⟨_, hsteady.workedIn_le⟩, fun schedule hfinished ↦ ?_, fun hframes htasks ↦ ?_⟩
  · obtain ⟨c'', hlater⟩ := hsteady.schedule schedule
    exact hlater.awake hfinished
  · have halone : (m.start run inputs).2.Alone run := alone_iff.mpr fun other hother ↦ by
      rw [(concerns_start hcontext hinputs inputs).view_eq other hother]
      simp [view, hframes, htasks]
    exact ⟨_, fun steps hsteps ↦ hsteady.runToEnd hstart halone hsteps⟩

theorem forked_kinds : ∀ node ∈ Graph.forked.nodes, ∀ kind,
    forkedOpened.provider.registry.get? node.kind = some kind → kind ∈ NodeKind.plain := by
  intro node hnode kind hkind
  simp only [Graph.forked, Graph.forkedDocument, List.mem_cons, List.not_mem_nil, or_false] at hnode
  rcases hnode with rfl | rfl | rfl
  · obtain rfl : NodeKind.sequence = kind := Option.some.inj hkind
    simp [NodeKind.plain]
  · obtain rfl : NodeKind.log = kind := Option.some.inj hkind
    simp [NodeKind.plain]
  · obtain rfl : NodeKind.setOutput = kind := Option.some.inj hkind
    simp [NodeKind.plain]

/-- The run of a small graph finishes. -/
theorem finishes_of_forked :
    (∃ bound, ∀ schedule, forkedStarted.workedIn 1 schedule ≤ bound) ∧
      (∀ schedule, (forkedStarted.run schedule).isFinished 1 = false →
        (forkedStarted.run schedule).Awake 1) ∧
      ∃ bound, ∀ steps, bound ≤ steps → ∃ result later,
        forkedOpened.runToEnd steps 1 {} none = (.ok result, later) ∧ result.success = true := by
  have hcontext : forkedOpened.context? 1 =
      some { graph := forkedInstance, config := {}, hasTasks := true } := rfl
  obtain ⟨-, hbound, hawake, hreturns⟩ :=
    finishes_of_acyclic forked_blank leads_forkedOpened hcontext rfl rfl Graph.forked_acyclic
      forked_kinds (Or.inl rfl) {}
  exact ⟨hbound, hawake, hreturns rfl rfl⟩

/-! ### Without a place for tasks -/

/-- On a machine with nothing to do, no move does more than let time pass. -/
theorem run_of_idle (hframes : m.frames = []) (htasks : m.tasks = []) (schedule : List Move) :
    ∃ now, m.run schedule = { m with now } := by
  induction schedule generalizing m with
  | nil => exact ⟨m.now, rfl⟩
  | cons move rest ih =>
    have hstep : ∃ now, m.step move = { m with now } := by
      cases move with
      | advance =>
        have hadvance : m.advance = m := by simp only [advance, hframes]
        exact ⟨m.now, hadvance⟩
      | poll task =>
        have hpoll : m.poll task = m := by simp only [poll, hframes, htasks, takeTask]
        exact ⟨m.now, hpoll⟩
      | tick moment => exact ⟨_, rfl⟩
    obtain ⟨now, hnow⟩ := hstep
    obtain ⟨later, hlater⟩ := ih (m := { m with now }) hframes htasks
    refine ⟨later, ?_⟩
    rw [run, List.foldl_cons, hnow]
    exact hlater

/-- Nor does waiting on such a machine end, for a run that has not finished. -/
theorem await_of_idle (hframes : m.frames = []) (htasks : m.tasks = [])
    (hfinished : m.isFinished run = false) (steps : Nat) :
    (m.await (·.isFinished run) none steps).1 = .stuck ∨
      (m.await (·.isFinished run) none steps).1 = .unfinished := by
  cases steps with
  | zero => exact Or.inr rfl
  | succ steps =>
    have hmove : m.nextMove none = none := by
      simp [nextMove, nextReady, nextDue, hframes, htasks, earlier]
    rw [Machine.await]
    simp [hframes, hfinished, hmove]

/-- A machine on which a graph of one async node is loaded. -/
def lone : Machine where
  provider := { fallback := .file none }
  world := { interpreter := { graphs := .ofList [(1, .lone)] } }

theorem lone_blank : lone.Blank where
  context := fun _ ↦ rfl
  active := fun _ ↦ rfl
  frames := rfl
  tasks := rfl
  accepted := by
    intro handle g hget
    obtain ⟨-, rfl⟩ := Prod.mk.inj (List.mem_singleton.mp (Table.mem_of_get? hget))
    exact Graph.lone_accepted
  aloof := fun _ hcache ↦ nomatch hcache

/-- The same machine with a run that was opened without a place for tasks. -/
def loneOpened : Machine :=
  (lone.open_ { id := ⟨"lone", by decide⟩, handle := 1, inputs := [], outputs := [] } {} false).2

/-- Without a place for tasks the run of a single async node is started and never finishes: nothing
is left that could go on, whatever moves are made, and waiting for it does not end. -/
theorem not_finishes_of_lone :
    lone.Blank ∧ Leads lone loneOpened (fun _ ↦ []) ∧
      loneOpened.world.interpreter.graphs.get? 1 = some .lone ∧ Graph.lone.Acyclic ∧
      (∀ node ∈ Graph.lone.nodes, loneOpened.provider.registry.get? node.kind = some .sequence) ∧
      (loneOpened.start 1 {}).1 = .ok rootScope ∧
      (∀ schedule, ((loneOpened.start 1 {}).2.run schedule).isFinished 1 = false ∧
        ¬((loneOpened.start 1 {}).2.run schedule).Awake 1) ∧
      ∀ steps, (loneOpened.runToEnd steps 1 {} none).1 = .error .endless := by
  have hframes : (loneOpened.start 1 {}).2.frames = [] := rfl
  have htasks : (loneOpened.start 1 {}).2.tasks = [] := rfl
  have hfinished : (loneOpened.start 1 {}).2.isFinished 1 = false := rfl
  refine ⟨lone_blank, .next .refl (.opened _ _ _), rfl, Graph.lone_acyclic, fun node hnode ↦ ?_, rfl,
    fun schedule ↦ ?_, fun steps ↦ ?_⟩
  · obtain rfl := List.mem_singleton.mp hnode
    rfl
  · obtain ⟨now, hnow⟩ := run_of_idle hframes htasks schedule
    rw [hnow]
    refine ⟨hfinished, ?_⟩
    rintro (⟨frame, hmem, -⟩ | ⟨moment, task, a, hmem, -⟩)
    · cases hmem
    · cases hmem
  · have hstart : (loneOpened.start 1 {}).1 = .ok rootScope := rfl
    have hstuck := await_of_idle hframes htasks hfinished steps
    unfold Machine.runToEnd
    generalize loneOpened.start 1 {} = started at hstart hstuck
    obtain ⟨outcome, started⟩ := started
    obtain rfl : outcome = .ok rootScope := hstart
    simp only [Option.map_none] at hstuck ⊢
    generalize started.await (·.isFinished 1) none steps = waited at hstuck ⊢
    obtain ⟨waited, later⟩ := waited
    rcases hstuck with rfl | rfl
    · rfl
    · rfl

end Machine

end Blueprint

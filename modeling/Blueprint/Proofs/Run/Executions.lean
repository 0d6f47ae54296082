import Blueprint.Node.Probe
import Blueprint.Proofs.Run.Hosting
import Mathlib.Logic.Relation

/-!
What is left of an execution when it returns. Its own run is ended in any case. A run that was begun
by a node is ended when that node goes on, so those that are left have a node that waits for them,
in a run that was begun before them: in a run that is older than the execution, or, if the execution
has timed out, in its own. When it has not, and nothing was under way before, the interpreter has the
same runs as before (`Machine.ended_of_execute`).
-/

set_option autoImplicit false

namespace Blueprint

/-- There is a timeout, and the root scope of the run has not cleared in time. -/
def RunResult.TimedOut (result : RunResult) (timeout : Option Nat) : Prop :=
  timeout.isSome ∧ ∃ pending, result.error =
    some ("root scope did not clear in time; pending scopes " ++ Machine.listText pending)

namespace Machine

variable {blank first m m' : Machine} {root : Option RunId} {run own : RunId} {c : Context}
  {history written : RunId → List (String × Value)}

/-- A number that is not given out yet. -/
theorem Housed.view_of_le (h : m.Housed) (hle : m.nextRun ≤ run) : m.view run = {} := by
  by_contra hview
  obtain ⟨c, hcontext⟩ := h.exists_context run hview
  exact absurd (h.lt_nextRun run c hcontext) (Nat.not_lt.mpr hle)

/-- What can be said of all runs in the course of an execution, since its first machine, with its own
run once that is opened. -/
structure Accounted (first : Machine) (root : Option RunId) (m : Machine) : Prop where
  leads : ∃ written, Leads first m written
  placed : m.Placed
  /-- A node waits for every run that another one has begun meanwhile. -/
  attended : ∀ run, first.nextRun ≤ run → root ≠ some run → (m.view run).active ≠ none →
    ∃ parent, m.Attends parent run
  silent : ∀ run, first.nextRun ≤ run → root ≠ some run → (m.view run).active = none →
    (m.view run).Quiet
  elder : ∀ run < first.nextRun, (m.view run).active ≠ none → (first.view run).active ≠ none
  /-- With nothing suspended at first, the older runs rest. -/
  still : first.tasks = [] → ∀ run < first.nextRun,
    (m.view run).Quiet ∧ (m.view run).active = (first.view run).active

theorem accounted_start (hfirst : first.Sound history) (hplaced : first.Placed)
    (hframes : first.frames = []) : Accounted first none first where
  leads := ⟨_, .refl⟩
  placed := hplaced
  attended := fun run hle _ hactive ↦
    absurd (by rw [hfirst.housed.view_of_le hle]) hactive
  silent := fun run hle _ _ ↦ by
    rw [hfirst.housed.view_of_le hle]
    exact ⟨rfl, rfl⟩
  elder := fun _ _ hactive ↦ hactive
  still := fun htasks run _ ↦ by
    obtain ⟨lost, hbalanced⟩ := (hfirst.views run).balanced
    refine ⟨⟨?_, hbalanced.queued_eq_nil (by simp [view, hframes])⟩, rfl⟩
    simp [RunView.activities, view, hframes, htasks]

theorem Accounted.sound (h : Accounted first root m) (hfirst : first.Sound history) :
    ∃ history, m.Sound history :=
  h.leads.elim fun _ hleads ↦ ⟨_, hfirst.leads hleads⟩

theorem Accounted.nextRun_le (h : Accounted first root m) (hfirst : first.Sound history) :
    first.nextRun ≤ m.nextRun :=
  h.leads.elim fun _ hleads ↦ (later_of_leads hfirst hleads).nextRun_le

/-! ### Moves -/

/-- An older run is not begun by a move. -/
theorem active_of_step (h : m.Housed) (move : Move) (hold : run < m.nextRun)
    (hsome : ((m.step move).view run).active ≠ none) : (m.view run).active ≠ none := by
  have hchanges := changes_step h move run
  generalize (m.step move).view run = after at hchanges hsome
  generalize m.view run = before at hchanges
  generalize m.publishing run move = written at hchanges
  cases hchanges with
  | same => exact hsome
  | worked hcontext hlabour =>
    intro hnone
    have hgraph := (hlabour.keeps hcontext).graph
    rw [hnone] at hgraph
    exact hsome (Option.map_eq_none_iff.mp hgraph)
  | ended => exact absurd rfl hsome
  | begun graphs graph config inputs a home rest next hframes hresumes hrun =>
    exact absurd hrun (Nat.ne_of_lt hold)

/-- Assumes: a run that is quiet unless it is under way. So it is after a move. -/
theorem quiet_of_step (h : m.Sound history) (move : Move)
    (hquiet : (m.view run).active = none → (m.view run).Quiet)
    (hnone : ((m.step move).view run).active = none) : ((m.step move).view run).Quiet := by
  have hchanges := changes_step h.housed move run
  generalize (m.step move).view run = after at hchanges hnone
  generalize m.publishing run move = written at hchanges
  generalize hbefore : m.view run = before at hchanges hquiet
  cases hchanges with
  | same => exact hquiet hnone
  | worked hcontext hlabour =>
    have hgraph := (hlabour.keeps hcontext).graph
    rw [hnone] at hgraph
    exact ((hquiet (Option.map_eq_none_iff.mp hgraph.symm)).labour hcontext hlabour).1
  | ended _ a home rest next hframes hprogress hfinished =>
    rw [isFinished] at hfinished
    split at hfinished
    · rename_i c hcontext
      have hover := h.over hcontext hfinished
      rw [hbefore] at hover
      exact hover.quiet
    · cases hfinished
  | begun graphs graph config inputs a home rest next hframes hresumes hrun hnext hgraphs hbegins =>
    exact hbegins.quiet rfl ⟨rfl, rfl⟩ hnone

/-- Assumes: a quiet run, and quiet runs before it. It rests. -/
theorem still_of_step (h : m.Housed) (move : Move) (hold : run < m.nextRun)
    (hquiet : ∀ other ≤ run, (m.view other).Quiet) :
    ((m.step move).view run).Quiet ∧ ((m.step move).view run).active = (m.view run).active := by
  have hchanges := changes_step h move run
  have hself := hquiet run (Nat.le_refl run)
  generalize (m.step move).view run = after at hchanges
  generalize m.publishing run move = written at hchanges
  generalize m.view run = before at hchanges hself
  cases hchanges with
  | same => exact ⟨hself, rfl⟩
  | worked hcontext hlabour => exact hself.labour hcontext hlabour
  | ended _ a home rest next hframes hprogress =>
    -- A node of an earlier run would have waited for this one.
    have ha : a ∈ (m.view a.run).activities :=
      RunView.mem_activities.mpr (Or.inl ⟨home, by
        rw [show (m.view a.run).frames = _ from view_pop_frame hframes]
        exact List.mem_cons_self⟩)
    have hfits := h.fits_of_frame hframes
    rw [hprogress] at hfits
    rw [(hquiet a.run (Nat.le_of_lt hfits)).1] at ha
    cases ha
  | begun graphs graph config inputs a home rest next hframes hresumes hrun =>
    exact absurd hrun (Nat.ne_of_lt hold)

theorem placed_step (h : m.Housed) (hplaced : m.Placed) (move : Move) : (m.step move).Placed := by
  intro run c hcontext hplace
  have hchanges := changes_step h move run
  have hbefore := hplaced run
  change ((m.step move).view run).context = some c at hcontext
  change ∀ c, (m.view run).context = some c → c.hasTasks = false → (m.view run).Quiet at hbefore
  generalize (m.step move).view run = after at hchanges hcontext
  generalize m.publishing run move = written at hchanges
  generalize m.view run = before at hchanges hbefore
  cases hchanges with
  | same => exact hbefore c hcontext hplace
  | worked hcontext' hlabour =>
    obtain ⟨later, hlater, hcontinues⟩ := (hlabour.keeps hcontext').context _ hcontext'
    obtain rfl := Option.some.inj (hcontext.symm.trans hlater)
    have hquiet := hbefore _ hcontext' (hcontinues.hasTasks_eq.symm.trans hplace)
    exact (hquiet.labour hcontext' hlabour).1
  | ended => exact hbefore c hcontext hplace
  | begun graphs graph config inputs a home rest next hframes hresumes hrun hnext hgraphs hbegins =>
    obtain ⟨⟨later, hlater, hcontinues⟩, -⟩ := hbegins.keeps rfl
    obtain rfl := Option.some.inj (hcontext.symm.trans hlater)
    cases hcontinues.hasTasks_eq.symm.trans hplace

theorem Accounted.step (h : Accounted first root m) (hfirst : first.Sound history) (move : Move) :
    Accounted first root (m.step move) := by
  obtain ⟨history, hsound⟩ := h.sound hfirst
  have hhoused := hsound.housed
  have hle := h.nextRun_le hfirst
  constructor
  case leads => exact h.leads.elim fun _ hleads ↦ ⟨_, hleads.next (.moved move)⟩
  case placed => exact placed_step hhoused h.placed move
  case attended =>
    intro run hnew hroot hactive
    by_cases hbefore : (m.view run).active = none
    · exact attends_of_begun hhoused move hbefore hactive
    · obtain ⟨parent, hattends⟩ := h.attended run hnew hroot hbefore
      exact ⟨parent, (attends_step hhoused h.placed move hattends hbefore).resolve_right hactive⟩
  case silent =>
    exact fun run hnew hroot ↦ quiet_of_step hsound move (h.silent run hnew hroot)
  case elder =>
    exact fun run hold hactive ↦ h.elder run hold
      (active_of_step hhoused move (Nat.lt_of_lt_of_le hold hle) hactive)
  case still =>
    intro htasks run hold
    obtain ⟨hquiet, hactive⟩ := still_of_step hhoused move (Nat.lt_of_lt_of_le hold hle)
      fun other hother ↦ (h.still htasks other (Nat.lt_of_le_of_lt hother hold)).1
    exact ⟨hquiet, hactive.trans (h.still htasks run hold).2⟩

theorem Accounted.await (h : Accounted first root m) (hfirst : first.Sound history)
    (holds : Machine → Bool) (limit : Option Nat) (steps : Nat) :
    Accounted first root (m.await holds limit steps).2 := by
  induction steps generalizing m with
  | zero => exact h
  | succ steps ih =>
    rw [Machine.await]
    split_ifs
    · exact h
    · exact h
    · split
      · exact ih (h.step hfirst _)
      · exact h

/-! ### The world, and the root -/

/-- Nothing changes for any run. -/
theorem Accounted.changed (h : Accounted first root m) {world : World}
    (hruns : world.interpreter.runs = m.world.interpreter.runs)
    (haccepted : world.interpreter.GraphsAccepted) : Accounted first root { m with world } := by
  have hview (run : RunId) : ({ m with world } : Machine).view run = m.view run := by
    simp [view, context?, hruns]
  constructor
  case leads =>
    exact h.leads.elim fun _ hleads ↦ ⟨_, hleads.next (.changed world hruns haccepted)⟩
  case placed => exact fun run c hcontext hplace ↦ hview run ▸ h.placed run c hcontext hplace
  case attended =>
    intro run hnew hroot hactive
    rw [hview] at hactive
    obtain ⟨parent, hattends⟩ := h.attended run hnew hroot hactive
    exact ⟨parent, hattends.of_view (hview parent)⟩
  case silent => exact fun run ↦ (hview run).symm ▸ h.silent run
  case elder => exact fun run ↦ (hview run).symm ▸ h.elder run
  case still => exact fun htasks run ↦ (hview run).symm ▸ h.still htasks run

/-- Assumes: a change that concerns the run of the execution only, and keeps its nodes at work. -/
theorem Accounted.concerns (h : Accounted first root m) (hroot : root = none ∨ root = some own)
    (hnew : first.nextRun ≤ own) (hconcerns : Concerns own m m')
    (hleads : ∃ written, Leads first m' written)
    (hplace : ∀ c, m'.context? own = some c → c.hasTasks = false → (m'.view own).Quiet)
    (hstays : ∀ a ∈ (m.view own).activities, a ∈ (m'.view own).activities) :
    Accounted first (some own) m' := by
  have hother {run : RunId} (hrun : some own ≠ some run) :
      root ≠ some run ∧ m'.view run = m.view run := by
    have hne : run ≠ own := fun heq ↦ hrun (congrArg some heq.symm)
    refine ⟨fun heq ↦ ?_, hconcerns.view_eq run hne⟩
    rcases hroot with rfl | rfl
    · cases heq
    · exact hrun heq
  have hold {run : RunId} (hrun : run < first.nextRun) : m'.view run = m.view run :=
    hconcerns.view_eq run (Nat.ne_of_lt (Nat.lt_of_lt_of_le hrun hnew))
  constructor
  case leads => exact hleads
  case placed =>
    intro run c hcontext htasks
    by_cases hrun : run = own
    · subst hrun
      exact hplace c hcontext htasks
    · have hview := hconcerns.view_eq run hrun
      rw [hview]
      exact h.placed run c ((congrArg RunView.context hview).symm.trans hcontext) htasks
  case attended =>
    intro run hnew' hrun hactive
    obtain ⟨hroot', hview⟩ := hother hrun
    rw [hview] at hactive
    obtain ⟨parent, a, ha, next, hprogress⟩ := h.attended run hnew' hroot' hactive
    refine ⟨parent, a, ?_, next, hprogress⟩
    by_cases hparent : parent = own
    · subst hparent
      exact hstays a ha
    · exact (hconcerns.view_eq parent hparent).symm ▸ ha
  case silent =>
    intro run hnew' hrun
    obtain ⟨hroot', hview⟩ := hother hrun
    rw [hview]
    exact h.silent run hnew' hroot'
  case elder =>
    intro run hrun
    rw [hold hrun]
    exact h.elder run hrun
  case still =>
    intro htasks run hrun
    rw [hold hrun]
    exact h.still htasks run hrun

/-! ### Work that an execution waits for -/

/-- All runs are accounted for after some work, and nothing is on the frames when it ends. -/
def Rested {α : Type} (first : Machine) (root : Option RunId) (work : Work α) : Prop :=
  Accounted first root work.2 ∧ ∀ value, work.1 = .ok value → work.2.frames = []

theorem frames_await (holds : Machine → Bool) (limit : Option Nat) (steps : Nat) (m : Machine)
    (hends : (m.await holds limit steps).1 = .reached ∨ (m.await holds limit steps).1 = .late) :
    (m.await holds limit steps).2.frames = [] := by
  induction steps generalizing m with
  | zero => simp [Machine.await] at hends
  | succ steps ih =>
    rw [Machine.await] at hends ⊢
    split_ifs at hends ⊢ with hreached hlate
    · exact List.isEmpty_iff.mp (Bool.and_eq_true_iff.mp hreached).1
    · exact List.isEmpty_iff.mp (Bool.and_eq_true_iff.mp hlate).1
    · split at hends
      · exact ih _ hends
      · simp at hends

theorem isSome_of_late (holds : Machine → Bool) (limit : Option Nat) (steps : Nat) (m : Machine)
    (hends : (m.await holds limit steps).1 = .late) : limit.isSome := by
  induction steps generalizing m with
  | zero => simp [Machine.await] at hends
  | succ steps ih =>
    rw [Machine.await] at hends
    split_ifs at hends with hreached hlate
    · cases limit with
      | none => simp at hlate
      | some due => rfl
    · split at hends
      · exact ih _ hends
      · simp at hends

theorem Accounted.resolveGraph (h : Accounted first root m) (hfirst : first.Sound history)
    (hframes : m.frames = []) (steps : Nat) (id : String) :
    Rested first root (m.resolveGraph steps id) := by
  obtain ⟨history, hsound⟩ := h.sound hfirst
  obtain ⟨world, hloads, hbegin⟩ := beginFetch_cases hsound.aloof id
  have hbegun : Accounted first root { m with world } :=
    h.changed hloads.1 (hloads.2 hsound.accepted)
  unfold Machine.resolveGraph
  rcases hbegin with ⟨error, hbegin⟩ | ⟨due, loader, fetch, hbegin, hcache⟩
  · rw [hbegin]
    exact ⟨hbegun, fun _ _ ↦ hframes⟩
  · rw [hbegin]
    have hawaited := hbegun.await hfirst (fun m ↦ due ≤ m.now) (some due) steps
    have hrest := frames_await (fun m ↦ due ≤ m.now) (some due) steps { m with world }
    dsimp only
    generalize ({ m with world } : Machine).await (fun m ↦ due ≤ m.now) (some due) steps = waited
      at hawaited hrest
    obtain ⟨ends, later⟩ := waited
    cases ends with
    | reached =>
      obtain ⟨history, hlater⟩ := hawaited.sound hfirst
      have hfinish := (hsound.aloof.loader hcache).finish_graph later.provider fetch later.world
      exact ⟨hawaited.changed hfinish.1 (hfinish.2 hlater.accepted), fun _ _ ↦ hrest (Or.inl rfl)⟩
    | late | stuck | unfinished => exact ⟨hawaited, fun _ hvalue ↦ nomatch hvalue⟩

theorem Accounted.loadAhead (h : Accounted first root m) (hfirst : first.Sound history)
    (hframes : m.frames = []) (steps : Nat) (preload : List (String × Inputs)) (config : RunConfig) :
    Rested first root (Machine.loadAhead steps preload config m) := by
  induction preload generalizing m config with
  | nil => exact ⟨h, fun _ _ ↦ hframes⟩
  | cons entry rest ih =>
    obtain ⟨id, inputs⟩ := entry
    have hresolved := h.resolveGraph hfirst hframes steps id
    rw [Machine.loadAhead]
    generalize m.resolveGraph steps id = work at hresolved
    obtain ⟨outcome | e, later⟩ := work
    · exact ⟨hresolved.1, fun _ hvalue ↦ nomatch hvalue⟩
    · cases e with
      | error e => exact ih hresolved.1 (hresolved.2 _ rfl) config
      | ok graph => exact ih hresolved.1 (hresolved.2 _ rfl) _

theorem Accounted.chooseRoot (h : Accounted first root m) (hfirst : first.Sound history)
    (hframes : m.frames = []) (steps : Nat) (config : RunConfig) (id : String) :
    Rested first root (m.chooseRoot steps config id) := by
  unfold Machine.chooseRoot
  split
  · exact ⟨h, fun _ _ ↦ hframes⟩
  · have hresolved := h.resolveGraph hfirst hframes steps id
    generalize m.resolveGraph steps id = work at hresolved
    obtain ⟨outcome | e, later⟩ := work
    · exact ⟨hresolved.1, fun _ hvalue ↦ nomatch hvalue⟩
    · exact ⟨hresolved.1, fun _ _ ↦ hresolved.2 _ rfl⟩

/-! ### The run of an execution -/

theorem Accounted.open_ (h : Accounted first none m) (hfirst : first.Sound history)
    (graph : GraphInstance) (config : RunConfig) :
    Accounted first (some m.nextRun) (m.open_ graph config true).2 ∧
      (m.open_ graph config true).2.view m.nextRun = { context := some { graph, config } } := by
  obtain ⟨history, hsound⟩ := h.sound hfirst
  have hview := view_open m graph config true
  rw [hsound.housed.view_nextRun] at hview
  refine ⟨h.concerns (Or.inl rfl) (h.nextRun_le hfirst) (concerns_open m graph config true) ?_ ?_ ?_,
    hview⟩
  · exact h.leads.elim fun _ hleads ↦ ⟨_, hleads.next (.opened graph config true)⟩
  · rw [hview]
    exact fun _ _ _ ↦ ⟨rfl, rfl⟩
  · rw [hsound.housed.view_nextRun]
    exact fun a ha ↦ nomatch ha

theorem Accounted.start (h : Accounted first (some own) m) (hfirst : first.Sound history)
    (hnew : first.nextRun ≤ own) {graph : GraphInstance} {config : RunConfig}
    (hview : m.view own = { context := some { graph, config } }) (inputs : Inputs) :
    Accounted first (some own) (m.start own inputs).2 := by
  obtain ⟨history, hsound⟩ := h.sound hfirst
  have hcontext : m.context? own = some { graph, config } := congrArg RunView.context hview
  refine h.concerns (Or.inr rfl) hnew (concerns_start hcontext rfl inputs) ?_ ?_ ?_
  · exact h.leads.elim fun _ hleads ↦ ⟨_, hleads.next (.started own _ inputs hcontext rfl)⟩
  · intro c hlater htasks
    obtain ⟨lost, hbegins⟩ := begins_start (.refl m) hcontext rfl hsound.accepted inputs
    obtain ⟨⟨later, hstarted, hcontinues⟩, -⟩ := hbegins.keeps (by rw [hview])
    obtain rfl := Option.some.inj (hlater.symm.trans hstarted)
    cases hcontinues.hasTasks_eq.symm.trans htasks
  · rw [hview]
    exact fun a ha ↦ nomatch ha

theorem Accounted.endRun (h : Accounted first (some own) m) (hnew : first.nextRun ≤ own) :
    Accounted first (some own) (m.endRun own) := by
  have hview := view_endRun m own
  refine h.concerns (Or.inr rfl) hnew (concerns_endRun m own) ?_ ?_ ?_
  · exact h.leads.elim fun _ hleads ↦ ⟨_, hleads.next (.ended own)⟩
  · rw [hview]
    exact h.placed own
  · rw [hview]
    exact fun a ha ↦ ha

/-- A start that fails leaves the frames as they are. -/
theorem frames_start_of_error {inputs : Inputs} (hcontext : m.context? own = some c)
    (hinputs : c.inputs = none) (hmissing : m.world.interpreter.graphs.get? c.graph.handle = none) :
    (m.start own inputs).2.frames = m.frames := by
  rw [start_eq hcontext hinputs, Interpreter.execute, hmissing]
  rfl

theorem run_refuse (m : Machine) (run : RunId) (e : EngineError) : (m.refuse run e).1.run = run := rfl

theorem run_conclusion (m : Machine) (run : RunId) : (m.conclusion run).1.run = run := by
  unfold conclusion
  split <;> rfl

/-- Assumes: the run of the execution was opened. It is ended, in time with nothing left at work, or
too late. -/
theorem Accounted.runToEnd (h : Accounted first (some own) m) (hfirst : first.Sound history)
    (hnew : first.nextRun ≤ own) {graph : GraphInstance} {config : RunConfig}
    (hview : m.view own = { context := some { graph, config } }) (hframes : m.frames = [])
    {steps : Nat} {inputs : Inputs} {timeout : Option Nat} {result : RunResult}
    (hend : m.runToEnd steps own inputs timeout = (.ok result, m')) :
    Accounted first (some own) m' ∧ m'.frames = [] ∧ (m'.view own).active = none ∧
      result.run = own ∧ (result.TimedOut timeout ∨ (m'.view own).Quiet) := by
  obtain ⟨history, hsound⟩ := h.sound hfirst
  have hcontext : m.context? own = some { graph, config } := congrArg RunView.context hview
  have hstarted := h.start hfirst hnew hview inputs
  have hended (m : Machine) : ((m.endRun own).view own).active = none ∧
      ((m.view own).Quiet → ((m.endRun own).view own).Quiet) := by
    rw [view_endRun]
    exact ⟨rfl, id⟩
  unfold Machine.runToEnd at hend
  cases hstart : m.start own inputs with
  | mk outcome started =>
    rw [hstart] at hend hstarted
    cases outcome with
    | error e =>
      obtain ⟨hresult, rfl⟩ := Prod.mk.inj hend
      obtain rfl := Except.ok.inj hresult
      obtain ⟨hmissing, hrefused⟩ := view_start_of_error hcontext rfl hsound.accepted hstart
      have hrest : (m.start own inputs).2.frames = m.frames :=
        frames_start_of_error hcontext rfl hmissing
      rw [hstart] at hrest
      refine ⟨hstarted.endRun hnew, hrest.trans hframes, (hended _).1, rfl, Or.inr ((hended _).2 ?_)⟩
      rw [hrefused, hview]
      exact ⟨rfl, rfl⟩
    | ok scope =>
      dsimp only at hend hstarted
      have hawaited := hstarted.await hfirst (·.isFinished own) (timeout.map (started.now + ·)) steps
      have hrest := frames_await (·.isFinished own) (timeout.map (started.now + ·)) steps started
      have hreached :=
        (leads_await (·.isFinished own) (timeout.map (started.now + ·)) steps started).2
      have hlate := isSome_of_late (·.isFinished own) (timeout.map (started.now + ·)) steps started
      generalize started.await (·.isFinished own) (timeout.map (started.now + ·)) steps = waited
        at hend hawaited hrest hreached hlate
      obtain ⟨ends, later⟩ := waited
      cases ends with
      | reached =>
        obtain ⟨hresult, rfl⟩ := Prod.mk.inj hend
        obtain rfl := Except.ok.inj hresult
        obtain ⟨history, hlater⟩ := hawaited.sound hfirst
        refine ⟨hawaited.endRun hnew, hrest (Or.inl rfl), (hended _).1, run_conclusion _ own,
          Or.inr ((hended _).2 ?_)⟩
        have hfinished := hreached rfl
        rw [isFinished] at hfinished
        split at hfinished
        · rename_i c hcontext
          exact (hlater.over hcontext hfinished).quiet
        · cases hfinished
      | late =>
        obtain ⟨hresult, rfl⟩ := Prod.mk.inj hend
        obtain rfl := Except.ok.inj hresult
        exact ⟨hawaited.endRun hnew, hrest (Or.inr rfl), (hended _).1, rfl,
          Or.inl ⟨Option.isSome_map.symm.trans (hlate rfl), _, rfl⟩⟩
      | stuck | unfinished => cases hend

/-! ### What an execution leaves -/

/-- A run that was begun meanwhile and is under way has a chain of nodes that wait, from an older run
or that of the execution. -/
theorem Accounted.descends (h : Accounted first root m) (hfirst : first.Sound history)
    (hnew : first.nextRun ≤ run) (hroot : root ≠ some run) (hactive : (m.view run).active ≠ none) :
    ∃ elder, (elder < first.nextRun ∨ root = some elder) ∧ Relation.TransGen m.Attends elder run := by
  obtain ⟨history, hsound⟩ := h.sound hfirst
  induction run using Nat.strong_induction_on with
  | _ run ih =>
    obtain ⟨parent, hattends⟩ := h.attended run hnew hroot hactive
    by_cases helder : parent < first.nextRun ∨ root = some parent
    · exact ⟨parent, helder, .single hattends⟩
    · obtain ⟨hle, hparent⟩ := not_or.mp helder
      have hunder : (m.view parent).active ≠ none := fun hnone ↦ by
        obtain ⟨a, ha, -⟩ := hattends
        rw [(h.silent parent (Nat.not_lt.mp hle) hparent hnone).1] at ha
        cases ha
      obtain ⟨elder, helder, hchain⟩ :=
        ih parent (hattends.lt hsound.housed) (Nat.not_lt.mp hle) hparent hunder
      exact ⟨elder, helder, hchain.tail hattends⟩

theorem not_transGen_of_quiet {elder : RunId} (hquiet : (m.view elder).Quiet) :
    ¬ Relation.TransGen m.Attends elder run := by
  intro hchain
  obtain ⟨next, ⟨a, ha, -⟩, -⟩ := Relation.TransGen.head'_iff.mp hchain
  rw [hquiet.1] at ha
  cases ha

/-- How an execution ends: its root is not resolved, or its run is ended. -/
theorem execute_cases (hfirst : m.Sound history) (hplaced : m.Placed) (hframes : m.frames = [])
    {steps : Nat} {data : ExecutionData} {id : String} {timeout : Option Nat} {result : RunResult}
    (hend : m.execute steps data id timeout = (.ok result, m')) :
    ∃ root last, Accounted m root last ∧ last.frames = [] ∧ m' = last.collect ∧
      (root = none ∧ result.run = nilRun ∨
        root = some result.run ∧ m.nextRun ≤ result.run ∧ (last.view result.run).active = none ∧
          (result.TimedOut timeout ∨ (last.view result.run).Quiet)) := by
  have hloaded : Rested m none (m.materialize steps data) :=
    (accounted_start hfirst hplaced hframes).loadAhead hfirst hframes steps data.preload _
  unfold execute at hend
  generalize m.materialize steps data = work at hend hloaded
  obtain ⟨_ | config, ahead⟩ := work
  · cases hend
  · dsimp only at hend
    have hchosen := hloaded.1.chooseRoot hfirst (hloaded.2 _ rfl) steps config id
    generalize ahead.chooseRoot steps config id = work at hend hchosen
    obtain ⟨_ | _ | loaded, chosen⟩ := work
    · cases hend
    · obtain ⟨hresult, rfl⟩ := Prod.mk.inj hend
      obtain rfl := Except.ok.inj hresult
      exact ⟨none, chosen, hchosen.1, hchosen.2 _ rfl, rfl, Or.inl ⟨rfl, rfl⟩⟩
    · dsimp only at hend
      have haccounted : Accounted m none chosen := hchosen.1
      obtain ⟨hopened, hview⟩ := haccounted.open_ hfirst loaded.graph config
      have hnew := haccounted.nextRun_le hfirst
      cases hrun : (chosen.open_ loaded.graph config true).2.runToEnd steps chosen.nextRun
          (override loaded.inputs data.inputs) timeout with
      | mk outcome last =>
        rw [show (chosen.open_ loaded.graph config true).1 = chosen.nextRun from rfl, hrun] at hend
        obtain ⟨rfl, rfl⟩ := Prod.mk.inj hend
        obtain ⟨hlast, hrest, hactive, hown, hquiet⟩ :=
          hopened.runToEnd hfirst hnew hview (hchosen.2 _ rfl) hrun
        rw [← hown] at hnew hlast hactive hquiet
        exact ⟨_, last, hlast, hrest, rfl, Or.inr ⟨rfl, hnew, hactive, hquiet⟩⟩

theorem Reaches.execute (hblank : blank.Blank) (h : Reaches blank m) (hframes : m.frames = [])
    {steps : Nat} {data : ExecutionData} {id : String} {timeout : Option Nat} {result : RunResult}
    (hend : m.execute steps data id timeout = (.ok result, m')) :
    Reaches blank m' ∧ m'.frames = [] := by
  obtain ⟨⟨history, hfirst⟩, -⟩ := h.sound hblank
  obtain ⟨root, last, haccounted, hrest, rfl, -⟩ :=
    execute_cases hfirst (h.placed hblank hframes) hframes hend
  obtain ⟨written, hleads⟩ := haccounted.leads
  exact ⟨(h.leads hleads).collected hrest, hrest⟩

/-- When an execution returns, its own run is ended. A run that was begun meanwhile and is under way
has a chain of nodes that wait for it, from a run that is older than the execution, or from the own
run, and that only if the execution has timed out. With no task left over from before, the older runs
are as they were, and, unless the execution has timed out, all are. -/
theorem ended_of_execute (hblank : blank.Blank) (hreaches : Reaches blank m)
    (hframes : m.frames = []) {steps : Nat} {data : ExecutionData} {id : String}
    {timeout : Option Nat} {result : RunResult}
    (hend : m.execute steps data id timeout = (.ok result, m')) :
    (result.run = nilRun ∨
      m.nextRun ≤ result.run ∧ m'.world.interpreter.runs.get? result.run = none) ∧
    (∀ run, m'.world.interpreter.runs.get? run ≠ none →
      m.world.interpreter.runs.get? run ≠ none ∨
        ∃ elder, (elder < m.nextRun ∨ result.TimedOut timeout ∧ elder = result.run) ∧
          Relation.TransGen m'.Attends elder run) ∧
    (m.tasks = [] →
      (∀ run < m.nextRun,
        m'.world.interpreter.runs.get? run = m.world.interpreter.runs.get? run) ∧
      (¬ result.TimedOut timeout →
        ∀ run, m'.world.interpreter.runs.get? run = m.world.interpreter.runs.get? run)) := by
  obtain ⟨⟨history, hfirst⟩, -⟩ := hreaches.sound hblank
  obtain ⟨root, last, haccounted, hrest, rfl, hroot⟩ :=
    execute_cases hfirst (hreaches.placed hblank hframes) hframes hend
  rw [runs_collect]
  have hleft (run : RunId) (hactive : last.world.interpreter.runs.get? run ≠ none) :
      m.world.interpreter.runs.get? run ≠ none ∨
        ∃ elder, (elder < m.nextRun ∨ result.TimedOut timeout ∧ elder = result.run) ∧
          Relation.TransGen last.Attends elder run := by
    by_cases hold : run < m.nextRun
    · exact Or.inl (haccounted.elder run hold hactive)
    have hother : root ≠ some run := by
      rintro rfl
      obtain ⟨hnone, -⟩ | ⟨hsome, -, hended, -⟩ := hroot
      · cases hnone
      · exact hactive (Option.some.inj hsome ▸ hended)
    obtain ⟨elder, helder | helder, hchain⟩ :=
      haccounted.descends hfirst (Nat.not_lt.mp hold) hother hactive
    · exact Or.inr ⟨elder, Or.inl helder, hchain⟩
    · subst helder
      obtain ⟨hnone, -⟩ | ⟨hsome, -, -, hlate | hquiet⟩ := hroot
      · cases hnone
      · exact Or.inr ⟨elder, Or.inr ⟨hlate, Option.some.inj hsome⟩, hchain⟩
      · rw [← Option.some.inj hsome] at hquiet
        exact absurd hchain (not_transGen_of_quiet hquiet)
  refine ⟨hroot.imp And.right fun hroot ↦ ⟨hroot.2.1, hroot.2.2.1⟩, hleft, fun htasks ↦ ?_⟩
  have holder (run : RunId) (hold : run < m.nextRun) :
      last.world.interpreter.runs.get? run = m.world.interpreter.runs.get? run :=
    (haccounted.still htasks run hold).2
  refine ⟨holder, fun hintime run ↦ ?_⟩
  by_cases hold : run < m.nextRun
  · exact holder run hold
  have hbefore : m.world.interpreter.runs.get? run = none :=
    congrArg RunView.active (hfirst.housed.view_of_le (Nat.not_lt.mp hold))
  rw [hbefore]
  by_contra hactive
  obtain hsome | ⟨elder, helder | ⟨hlate, -⟩, hchain⟩ := hleft run hactive
  · exact hsome hbefore
  · exact not_transGen_of_quiet (haccounted.still htasks elder helder).1 hchain
  · exact hintime hlate

/-! ### A nested run that stalls -/

/-- The text of a graph with a single node. -/
def soleNode (kind : String) (params : List (String × Json)) : List UInt8 :=
  (Json.compact (.object [("version", .string "1.0.0"), ("nodes", .array [.object [
    ("id", .string "sole"), ("kind", .string kind), ("params", .object params)]])])).toUTF8.toList

/-- A graph whose node runs another graph, the node of which never ends. -/
def stalled : Machine where
  provider :=
    { catalog :=
        { version := ⟨1, 0, 0⟩
          entries := [
            { id := ⟨"outer", by decide⟩, uri := "mem:outer", kind := .blueprint },
            { id := ⟨"inner", by decide⟩, uri := "mem:inner", kind := .blueprint }]
          index := .ofList [("outer", 0), ("inner", 1)] }
      fallback := .published "mem" none 0
      registry := .probing }
  world :=
    { published := .ofList [
        ("mem:outer", soleNode "execute_blueprint" [("id", .string "inner")]),
        ("mem:inner", soleNode "t_stall" [])] }

theorem stalled_blank : stalled.Blank where
  context := fun _ ↦ rfl
  active := fun _ ↦ rfl
  frames := rfl
  tasks := rfl
  accepted := fun _ _ hget ↦ nomatch hget
  aloof := fun _ hcache ↦ nomatch hcache

/-- Run with a timeout, it leaves the run of the other graph. -/
theorem stalled_execute : ∃ result later,
    stalled.execute 20 {} "outer" (some 10) = (.ok result, later) ∧
      later.world.interpreter.runs.get? 2 ≠ none := by
  have hleft : (match stalled.execute 20 {} "outer" (some 10) with
      | (.ok _, later) => later.world.interpreter.runs.contains 2
      | (.error _, _) => false) = true := by decide +kernel
  generalize stalled.execute 20 {} "outer" (some 10) = work at hleft
  obtain ⟨e | result, later⟩ := work
  · cases hleft
  · exact ⟨result, later, rfl, Option.isSome_iff_ne_none.mp hleft⟩

/-- The execution has timed out, and the run that is left has a node that waits for it. -/
theorem ended_of_execute_of_stalled :
    ∃ result later, stalled.execute 20 {} "outer" (some 10) = (.ok result, later) ∧
      (result.run = nilRun ∨ 1 ≤ result.run ∧
        later.world.interpreter.runs.get? result.run = none) ∧
      later.world.interpreter.runs.get? 2 ≠ none ∧ result.TimedOut (some 10) ∧
      ∃ elder, (elder < 1 ∨ result.TimedOut (some 10) ∧ elder = result.run) ∧
        Relation.TransGen later.Attends elder 2 := by
  obtain ⟨result, later, hend, hleft⟩ := stalled_execute
  obtain ⟨hended, hchain, hsame⟩ := ended_of_execute stalled_blank .refl rfl hend
  refine ⟨result, later, hend, hended, hleft, ?_, (hchain 2 hleft).resolve_left fun h ↦ h rfl⟩
  by_contra hintime
  exact hleft ((hsame rfl).2 hintime 2)

/-- Runs that were begun during an execution may still be under way when it returns. -/
theorem not_all_ended_of_stalled :
    ¬ ∀ (blank m m' : Machine) (steps : Nat) (data : ExecutionData) (id : String)
      (timeout : Option Nat) (result : RunResult), blank.Blank → Reaches blank m →
      m.frames = [] → m.tasks = [] → m.execute steps data id timeout = (.ok result, m') →
      ∀ run, m.nextRun ≤ run → m'.world.interpreter.runs.get? run = none := by
  intro hall
  obtain ⟨result, later, hend, hleft⟩ := stalled_execute
  exact hleft (hall stalled stalled later 20 {} "outer" (some 10) result stalled_blank .refl rfl
    rfl hend 2 (by decide))

end Machine

end Blueprint

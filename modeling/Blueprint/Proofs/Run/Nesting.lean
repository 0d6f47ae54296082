import Blueprint.Proofs.Run.Final

/-!
Nodes that wait for runs of their own. A node that runs a graph begins a run and waits for it
(`Machine.Attends`); the run is ended when the node goes on. So a run that was begun that way stays
under way only as long as a node waits for it (`attends_step`, `attends_of_begun`), and the node is
of an earlier run.
-/

set_option autoImplicit false

namespace Blueprint

namespace RunView

variable {m m' : Machine} {run : RunId} {v after : RunView} {c : Context} {lost : List Nat}
  {written : List (String × Value)} {a b : Activity}

/-! ### What stays at work -/

/-- No node of a run is at work, and no call is queued. -/
def Quiet (v : RunView) : Prop := v.activities = [] ∧ v.queued = []

theorem Over.quiet (h : v.Over c) : v.Quiet := by
  refine ⟨h.activities, ?_⟩
  rw [queued, h.context]
  exact h.calls

/-- The work of a quiet run is at most that its drain is released. -/
theorem Quiet.labour (h : v.Quiet) (hcontext : v.context = some c)
    (hlabour : Labour m m' run v c after written lost) :
    after.Quiet ∧ after.active = v.active := by
  have hidle (a : Activity) : a ∉ v.activities := fun ha ↦ by simp [h.1] at ha
  have hcalls : c.queue.calls = [] := by
    have hqueued := h.2
    rw [queued, hcontext] at hqueued
    exact hqueued
  cases hlabour with
  | polled before rest task a htasks =>
    exact absurd (mem_activities.mpr (Or.inr ⟨task, by simp [htasks]⟩)) (hidle a)
  | shelved a home rest hframes | served a home rest hframes =>
    exact absurd (mem_activities.mpr (Or.inl ⟨home, by simp [hframes]⟩)) (hidle a)
  | released rest hframes =>
    have hactivities := h.1
    rw [RunView.activities, hframes] at hactivities
    exact ⟨⟨hactivities, hcalls⟩, rfl⟩
  | taken rest call calls kind hframes hsome | skipped rest call calls hframes hsome =>
    cases hcalls.symm.trans hsome

theorem Invokes.stays {call : NodeCall} (h : Invokes m m' run call v c after lost)
    (ha : a ∈ v.activities) : a ∈ after.activities := by
  cases h with
  | unknown hkind => exact (conclude_activities v call _).symm ▸ ha
  | spawned kind task =>
    rw [RunView.activities, List.map_append, ← List.append_assoc]
    exact List.mem_append_left _ ha
  | lost | queued => exact ha
  | drained => exact ha

/-- Assumes: a node other than the one that is served. -/
theorem Serves.stays {home : Option Nat} {request : Behaviour}
    (h : Serves m m' run v c b home request after written lost) (ha : a ∈ v.activities) :
    a ∈ after.activities := by
  cases h with
  | ended ending hending => exact (conclude_activities v b.call ending).symm ▸ ha
  | answered | unwired => exact List.mem_cons_of_mem _ ha
  | paused hpause hshelves =>
    cases hshelves with
    | back | spawned =>
      rw [RunView.activities, List.map_append, ← List.append_assoc]
      exact List.mem_append_left _ ha
    | lost => exact ha
  | wired pin next active target bindings hactive hpin htarget hinvokes =>
    exact hinvokes.stays (List.mem_cons_of_mem _ ha)

/-- A node that is at work stays so, unless it is the one that is served, or there is no place for
tasks. -/
theorem Labour.stays (h : Labour m m' run v c after written lost) (hplace : c.hasTasks = true)
    (ha : a ∈ v.activities) :
    a ∈ after.activities ∨ ∃ home rest, v.frames = .node a home :: rest ∧ m.canGoOn a = true := by
  cases h with
  | polled before rest task b htasks hcan =>
    refine Or.inl ?_
    simp only [RunView.activities, htasks, List.filterMap_cons, Frame.activity?, List.map_append,
      List.map_cons, List.mem_append, List.mem_cons] at ha ⊢
    tauto
  | shelved b home rest hframes hcan hshelves =>
    refine Or.inl ?_
    cases hshelves with
    | back | spawned =>
      simp only [RunView.activities, hframes, List.filterMap_cons, Frame.activity?, List.map_append,
        List.map_cons, List.map_nil, List.mem_append, List.mem_cons, List.not_mem_nil] at ha ⊢
      tauto
    | lost htasks => cases hplace.symm.trans htasks
  | served b home rest hframes hcan hresumes hserves =>
    rw [RunView.activities, hframes] at ha
    rcases List.mem_cons.mp ha with rfl | hrest
    · exact Or.inr ⟨home, rest, hframes, hcan⟩
    · exact Or.inl (hserves.stays hrest)
  | released rest hframes =>
    rw [RunView.activities, hframes] at ha
    exact Or.inl ha
  | taken => exact Or.inl (List.mem_cons_of_mem _ ha)
  | skipped => exact Or.inl ((conclude_activities _ _ _).symm ▸ ha)

/-- What begins a run leaves nothing at work if it is refused. -/
theorem Begins.quiet {graphs : Table Nat Graph} {inputs : Inputs}
    (h : Begins m m' run graphs v c inputs after lost) (hcontext : v.context = some c)
    (hquiet : v.Quiet) (hactive : after.active = none) : after.Quiet := by
  have hcalls := hquiet.2
  rw [queued, hcontext] at hcalls
  cases h with
  | refused hgraph => exact ⟨hquiet.1, hcalls⟩
  | entered graph entry bindings hgraph hentry hinvokes =>
    have hgraph := (hinvokes.keeps rfl).graph
    rw [hactive] at hgraph
    cases hgraph
  | nodeless => cases hactive

end RunView

namespace Machine

variable {m m' : Machine} {run parent child other : RunId} {a : Activity} {c : Context}
  {home : Option Nat} {rest : List Frame}

/-! ### Who waits for whom -/

/-- A node of a run is at work that waits for another run. -/
def Attends (m : Machine) (parent child : RunId) : Prop :=
  ∃ a ∈ (m.view parent).activities, ∃ next, a.progress = .nesting child next

/-- Where there is no place for tasks, nothing is at work. -/
def Placed (m : Machine) : Prop :=
  ∀ run c, m.context? run = some c → c.hasTasks = false → (m.view run).Quiet

/-- A node waits for later runs only. -/
theorem Attends.lt (hattends : m.Attends parent child) (h : m.Housed) : parent < child := by
  obtain ⟨a, ha, next, hprogress⟩ := hattends
  have hfits := (h.views parent).fits a ha
  rw [hprogress] at hfits
  exact hfits

theorem Attends.of_view (h : m.Attends parent child) (hview : m'.view parent = m.view parent) :
    m'.Attends parent child := by
  rw [Attends, hview]
  exact h

theorem Housed.exists_context (h : m.Housed) (run : RunId) (hview : m.view run ≠ {}) :
    ∃ c, m.context? run = some c := by
  cases hcontext : m.context? run with
  | some c => exact ⟨c, rfl⟩
  | none => exact absurd ((h.views run).empty hcontext) hview

/-- A run that is under way was given its number. -/
theorem Housed.lt_nextRun_of_active (h : m.Housed)
    (hactive : m.world.interpreter.runs.get? run ≠ none) : run < m.nextRun := by
  obtain ⟨c, hcontext⟩ := h.exists_context run fun hempty ↦
    hactive (congrArg RunView.active hempty)
  exact h.lt_nextRun run c hcontext

/-! ### A node is served -/

/-- Besides the run of the node, and a run that it begins, only the run that it has waited for may
change. -/
theorem view_served_other (h : m.Housed) (hframes : m.frames = .node a home :: rest)
    (hcan : m.canGoOn a = true) (hne : other ≠ a.run) (hold : other ≠ m.nextRun) :
    m.advance.view other = (({ m with frames := rest } : Machine).resume a.progress).2.view other := by
  obtain ⟨c, hcontext⟩ := h.context_of_frame hframes
  change m.context? a.run = some c at hcontext
  have hrests := h.rests hframes hcan hcontext
  rw [advance_served hframes hcan]
  generalize ({ m with frames := rest } : Machine).resume a.progress = resumed at hrests
  obtain ⟨request, resting⟩ := resumed
  by_cases hnest : ∃ graph inputs next, request = .nest graph inputs next
  · obtain ⟨graph, inputs, next, rfl⟩ := hnest
    have hnests := nests_serve (.refl resting) hrests.context hrests.old hrests.new hrests.accepted
      home graph inputs next
    have hnextRun : resting.nextRun = m.nextRun := hrests.resumed.nextRun_eq
    exact hnests.view_eq other hne (hnextRun ▸ hold)
  · obtain ⟨hconcerns, -⟩ := serves_serve (.refl resting) hrests.context hrests.wired hrests.aloof
      home fun graph inputs next heq ↦ hnest ⟨graph, inputs, next, heq⟩
    exact hconcerns.view_eq other hne

/-- Other runs keep their nodes at work then. -/
theorem activities_served_other (h : m.Housed) (hframes : m.frames = .node a home :: rest)
    (hcan : m.canGoOn a = true) (hne : other ≠ a.run) (hold : other ≠ m.nextRun) :
    (m.advance.view other).activities = (m.view other).activities := by
  obtain ⟨c, hcontext⟩ := h.context_of_frame hframes
  have hresumed := (h.rests hframes hcan hcontext).resumed
  have hpop : ({ m with frames := rest } : Machine).view other = m.view other :=
    (concerns_pop_frame hframes).view_eq other hne
  rw [view_served_other h hframes hcan hne hold]
  by_cases hwaited : ∃ next, a.progress = .nesting other next
  · obtain ⟨next, hprogress⟩ := hwaited
    rw [hresumed.view_ended other next hprogress, hpop]
    rfl
  · rw [hresumed.view_eq other fun next heq ↦ hwaited ⟨next, heq⟩, hpop]

/-- The run that a node has waited for is ended when the node goes on. -/
theorem active_served (h : m.Housed) (hframes : m.frames = .node a home :: rest)
    (hcan : m.canGoOn a = true) {next : RunResult → Behaviour} (hprogress : a.progress = .nesting run next)
    (hold : run < m.nextRun) : m.advance.world.interpreter.runs.get? run = none := by
  obtain ⟨c, hcontext⟩ := h.context_of_frame hframes
  have hresumed := (h.rests hframes hcan hcontext).resumed
  have hfits := h.fits_of_frame hframes
  rw [hprogress] at hfits
  have hview := view_served_other h hframes hcan (Nat.ne_of_gt hfits) (Nat.ne_of_lt hold)
  rw [hresumed.view_ended run next hprogress] at hview
  exact congrArg RunView.active hview

/-- Assumes: the new run is under way. The node waits for it. -/
theorem attends_serve_nest (hcontext : m.context? a.run = some c) (hold : a.run < m.nextRun)
    (hnew : m.view m.nextRun = {}) (home : Option Nat) (graph : GraphInstance) (inputs : Inputs)
    (next : RunResult → Behaviour)
    (hactive : (m.serve a home (.nest graph inputs next)).world.interpreter.runs.get? m.nextRun ≠ none) :
    (m.serve a home (.nest graph inputs next)).Attends a.run m.nextRun := by
  have hne : a.run ≠ m.nextRun := Nat.ne_of_lt hold
  have hopened : (m.waiting a c home graph next).context? m.nextRun =
      some { graph, config := c.config } :=
    congrArg RunView.context (view_waiting_child hne hnew)
  have hconcerns := concerns_start hopened rfl inputs
  cases hstart : (m.waiting a c home graph next).start m.nextRun inputs with
  | mk outcome started =>
    rw [hstart] at hconcerns
    cases outcome with
    | ok scope =>
      rw [serve_nest_of_ok hcontext hstart, Attends, hconcerns.view_eq a.run hne,
        view_waiting hcontext hne]
      exact ⟨_, List.mem_cons_self, next, rfl⟩
    | error error =>
      rw [serve_nest_of_error hcontext hstart] at hactive
      refine absurd ?_ hactive
      simp [enter, refuse, endRun, withInterpreter, Interpreter.endRun]

/-! ### A move -/

/-- Assumes: a run that is under way, and a node that waits for it. After a move the node still waits,
or the run is ended. -/
theorem attends_step (h : m.Housed) (hplaced : m.Placed) (move : Move)
    (hattends : m.Attends parent run) (hactive : m.world.interpreter.runs.get? run ≠ none) :
    (m.step move).Attends parent run ∨ (m.step move).world.interpreter.runs.get? run = none := by
  obtain ⟨a, ha, next, hprogress⟩ := hattends
  have hstays {after : Machine} (hafter : a ∈ (after.view parent).activities) :
      after.Attends parent run ∨ after.world.interpreter.runs.get? run = none :=
    Or.inl ⟨a, hafter, next, hprogress⟩
  obtain ⟨c, hcontext⟩ := h.exists_context parent fun hempty ↦ by
    rw [hempty] at ha
    cases ha
  have hplace : c.hasTasks = true := by
    by_contra htasks
    have hquiet := hplaced parent c hcontext (by simpa using htasks)
    rw [hquiet.1] at ha
    cases ha
  -- The owner of a move works, and its nodes stay but for the one that is served.
  have howner {after : Machine} {written : List (String × Value)}
      (hworks : Works m after parent written) :
      a ∈ (after.view parent).activities ∨
        ∃ home rest, (m.view parent).frames = .node a home :: rest ∧ m.canGoOn a = true := by
    obtain ⟨c', lost, hcontext', hlabour⟩ := hworks.labour
    obtain rfl := Option.some.inj (hcontext.symm.trans hcontext')
    exact hlabour.stays hplace ha
  cases move with
  | tick moment => exact hstays ha
  | poll task =>
    by_cases hready : ∃ b tasks, m.frames = [] ∧ takeTask task m.tasks = some (b, tasks) ∧
        m.canGoOn b = true
    · obtain ⟨b, tasks, hframes, hfound, hcan⟩ := hready
      by_cases hparent : parent = b.run
      · subst hparent
        rcases howner (works_poll h hframes hfound hcan) with hafter | ⟨home, rest, hview, -⟩
        · exact hstays hafter
        · simp [view, hframes] at hview
      · exact hstays ((concerns_poll hframes hfound hcan).view_eq parent hparent ▸ ha)
    · rw [step, poll_of_not_ready hready]
      exact hstays ha
  | advance =>
    rw [step]
    cases hframes : m.frames with
    | nil =>
      rw [show m.advance = m by simp only [advance, hframes]]
      exact hstays ha
    | cons frame rest =>
      by_cases hparent : parent = frame.run
      · subst hparent
        rcases howner (works_advance h hframes) with hafter | ⟨home, below, hview, hcan⟩
        · exact hstays hafter
        · rw [view_pop_frame hframes] at hview
          obtain rfl := (List.cons.inj hview).1
          exact Or.inr (active_served h hframes hcan hprogress (h.lt_nextRun_of_active hactive))
      · refine hstays ?_
        have hold : parent ≠ m.nextRun := Nat.ne_of_lt (h.lt_nextRun parent c hcontext)
        cases frame with
        | drain owner =>
          obtain ⟨c', hcontext'⟩ := h.context_of_frame hframes
          rw [(concerns_drain hframes hcontext').view_eq parent hparent]
          exact ha
        | node b home =>
          cases hcan : m.canGoOn b with
          | true => exact activities_served_other h hframes hcan hparent hold ▸ ha
          | false =>
            have hpop : Concerns b.run m { m with frames := rest } := concerns_pop_frame hframes
            rw [advance_shelved hframes hcan, (hpop.trans (concerns_suspend _ b home)).view_eq parent hparent]
            exact ha

/-- A run that a node begins by its request is waited for by that node. -/
theorem attends_advance (h : m.Housed) (hframes : m.frames = .node a home :: rest)
    (hcan : m.canGoOn a = true)
    (hsome : m.advance.world.interpreter.runs.get? m.nextRun ≠ none) :
    m.advance.Attends a.run m.nextRun := by
  obtain ⟨c, hcontext⟩ := h.context_of_frame hframes
  change m.context? a.run = some c at hcontext
  have hrests := h.rests hframes hcan hcontext
  have hnextRun := hrests.resumed.nextRun_eq
  rw [advance_served hframes hcan] at hsome ⊢
  generalize ({ m with frames := rest } : Machine).resume a.progress = resumed at hrests hnextRun hsome ⊢
  obtain ⟨request, resting⟩ := resumed
  change resting.nextRun = m.nextRun at hnextRun
  have hnew := hrests.new
  rw [← hnextRun] at hsome ⊢
  by_cases hnest : ∃ graph inputs next, request = .nest graph inputs next
  · obtain ⟨graph, inputs, next, rfl⟩ := hnest
    exact attends_serve_nest hrests.context hrests.old hnew home graph inputs next hsome
  · obtain ⟨hconcerns, -⟩ := serves_serve (.refl resting) hrests.context hrests.wired hrests.aloof
      home fun graph inputs next heq ↦ hnest ⟨graph, inputs, next, heq⟩
    have hview := hconcerns.view_eq resting.nextRun (Nat.ne_of_gt hrests.old)
    rw [hnew] at hview
    exact absurd (congrArg RunView.active hview) hsome

/-- A run that a move begins is waited for by a node. -/
theorem attends_of_begun (h : m.Housed) (move : Move)
    (hnone : m.world.interpreter.runs.get? run = none)
    (hsome : (m.step move).world.interpreter.runs.get? run ≠ none) :
    ∃ parent, (m.step move).Attends parent run := by
  have hchanges := changes_step h move run
  generalize hafter : (m.step move).view run = after at hchanges
  generalize hbefore : m.view run = before at hchanges
  generalize m.publishing run move = written at hchanges
  have hactive : after.active ≠ none := hafter ▸ hsome
  have hidle : before.active = none := hbefore ▸ hnone
  cases hchanges with
  | same => exact absurd hidle hactive
  | worked hcontext hlabour =>
    have hgraph := (hlabour.keeps hcontext).graph
    rw [hidle] at hgraph
    exact absurd (Option.map_eq_none_iff.mp hgraph) hactive
  | ended => exact absurd rfl hactive
  | begun graphs graph config inputs a home rest next hframes hresumes hrun =>
    subst hrun
    cases move with
    | tick => exact absurd hnone hsome
    | poll task =>
      rw [step, poll_of_not_ready fun ⟨_, _, hidle, _⟩ ↦ by simp [hframes] at hidle] at hsome
      exact absurd hnone hsome
    | advance =>
      cases hcan : m.canGoOn a with
      | true => exact ⟨a.run, attends_advance h hframes hcan hsome⟩
      | false =>
        have hpop : Concerns a.run m { m with frames := rest } := concerns_pop_frame hframes
        obtain ⟨c, hcontext⟩ := h.context_of_frame hframes
        have hview := (hpop.trans (concerns_suspend _ a home)).view_eq m.nextRun
          (Nat.ne_of_gt (h.lt_nextRun a.run c hcontext))
        rw [← advance_shelved hframes hcan] at hview
        exact absurd ((congrArg RunView.active hview).trans hnone) hsome

end Machine

end Blueprint

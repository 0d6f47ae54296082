import Blueprint.Proofs.Run.Final
import Blueprint.Proofs.Run.Tame
import Blueprint.Proofs.Run.Tasks

/-!
Tame runs on a machine, whatever else is on it. Every move keeps such a run tame (`Steady.step`), and
every move that is work of the run lowers what is left to do: there are only so many of them in any
schedule (`Steady.workedIn_le`).

Nor does the run get stuck. As long as it has not finished, its last open scope has a node at work, and
that node waits for nobody: it could only wait for a later scope (`Tame.exists_ready`). So the run has
something on the frames, or one of its tasks can go on, if need be after some time
(`Steady.exists_ready`).
-/

set_option autoImplicit false

namespace Blueprint

namespace Machine

/-- Whether a move is work of a run. -/
def works (m : Machine) (run : RunId) : Move → Bool
  | .advance => m.frames.head?.any fun frame ↦ frame.run == run
  | .poll task => m.frames.isEmpty &&
      (takeTask task m.tasks).any fun found ↦ found.1.run == run && m.canGoOn found.1
  | .tick _ => false

/-- How many moves of a schedule are work of a run. -/
def workedIn (m : Machine) (run : RunId) : List Move → Nat
  | [] => 0
  | move :: rest => (if m.works run move then 1 else 0) + (m.step move).workedIn run rest

end Machine

namespace RunView

variable {g : Graph} {waits : Bool} {nextTicket now : Nat} {v : RunView} {c : Context}

/-- In a tame run that is under way and has nothing on the frames, some task goes on, at once or when
it is due. -/
theorem Tame.exists_ready (h : v.Tame g waits nextTicket c) (hbalanced : v.Balanced [] [])
    (hframes : v.frames = []) (hactive : v.active ≠ none) (hfinished : c.tracker.finished = false)
    (now : Nat) : ∃ task a, (task, a) ∈ v.tasks ∧
      (a.progress.ready now c.tracker = true ∨ ∃ due, Machine.dueAt a = some due) := by
  obtain ⟨active, hactive⟩ := Option.ne_none_iff_exists'.mp hactive
  have hagrees := hbalanced.agrees c active h.context hactive
  have hroot : (active.scopes.entries.get? rootScope).isSome = true := by
    rw [Option.isSome_iff_ne_none]
    intro hclosed
    cases hfinished.symm.trans (hagrees.finished_iff.mpr hclosed)
  obtain ⟨last, hlast, hlatest⟩ := (hbalanced.scopes active hactive).exists_last hroot
  obtain ⟨hcount, hidle⟩ := hbalanced.drains c h.context
  have hcalls : c.queue.calls = [] := by
    refine hidle ?_
    by_contra hdraining
    rw [hframes, if_pos (by simpa using hdraining)] at hcount
    cases hcount
  have hwork : 0 < v.tasks.countP fun entry ↦ entry.2.call.scope == last := by
    have hbalance := hbalanced.balance active hactive last
    rw [if_pos hlast, workOn, queued, h.context, hframes] at hbalance
    simp only [Option.map_some, Option.getD_some, hcalls, List.countP_nil, List.count_nil] at hbalance
    omega
  obtain ⟨⟨task, a⟩, hmem, hscope⟩ := List.countP_pos_iff.mp hwork
  have ha : a ∈ v.activities := mem_activities.mpr (Or.inr ⟨task, hmem⟩)
  obtain ⟨budget, hbudget⟩ := h.affords a ha
  refine ⟨task, a, hmem, ?_⟩
  unfold Activity.Affords at hbudget
  have htickets := h.tickets a ha
  cases hprogress : a.progress with
  | going rest => exact Or.inl rfl
  | joining tickets rest =>
    refine Or.inl (List.all_eq_true.mpr fun ticket hticket ↦ ?_)
    rw [hprogress] at htickets
    rw [Bool.not_eq_true']
    refine hagrees.isWaiting_eq_false fun scope hwaiter ↦ ?_
    -- The ticket is for a later scope, and there is none that is open.
    have hlater := (htickets ticket hticket).2 scope hwaiter
    by_contra hopen
    have hle := hlatest scope (Option.isSome_iff_ne_none.mpr hopen)
    have heq : a.call.scope = last := by simpa using hscope
    omega
  | fetchingAsset due => exact Or.inr ⟨due, by simp [Machine.dueAt, hprogress]⟩
  | sleeping | fetchingGraph | nesting | stalled =>
    rw [hprogress] at hbudget
    cases hbudget

/-- What is due goes on. -/
theorem Tame.ready_of_due (h : v.Tame g waits nextTicket c) {a : Activity} (ha : a ∈ v.activities)
    {due : Nat} (hdue : Machine.dueAt a = some due) (hnow : due ≤ now) :
    a.progress.ready now c.tracker = true := by
  obtain ⟨budget, hbudget⟩ := h.affords a ha
  unfold Activity.Affords at hbudget
  unfold Machine.dueAt at hdue
  cases hprogress : a.progress with
  | fetchingAsset =>
    rw [hprogress] at hdue
    obtain rfl := Option.some.inj hdue
    exact decide_eq_true hnow
  | going | joining =>
    rw [hprogress] at hdue
    cases hdue
  | sleeping | fetchingGraph | nesting | stalled =>
    rw [hprogress] at hbudget
    cases hbudget

end RunView

namespace Machine

/-- A run is tame, and whole. -/
structure Steady (m : Machine) (run : RunId) (g : Graph) (waits : Bool) (c : Context) : Prop where
  sound : ∃ history, m.Sound history
  plain : g.Plain m.provider.registry waits
  tame : (m.view run).Tame g waits m.nextTicket c
  balanced : (m.view run).Balanced [] []
  numbered : (m.view run).Numbered m.nextTask
  /-- Only a run that has finished is forgotten. -/
  active : c.tracker.finished = true ∨ (m.view run).active ≠ none

/-- What is left to do for a run. -/
noncomputable def cost (m : Machine) (run : RunId) (g : Graph) (waits : Bool) (c : Context) : Nat :=
  (m.view run).cost g waits m.now c

variable {m m' : Machine} {run : RunId} {g : Graph} {waits : Bool} {c : Context}
  {written : List (String × Value)}

/-- An activity goes on when its progress says so. -/
theorem Steady.canGoOn_eq (h : m.Steady run g waits c) {a : Activity}
    (ha : a ∈ (m.view run).activities) : m.canGoOn a = a.progress.ready m.now c.tracker := by
  obtain ⟨budget, hbudget⟩ := h.tame.affords a ha
  obtain ⟨hrun, -⟩ := mem_activities_view.mp ha
  exact Machine.canGoOn_eq (hrun ▸ h.tame.context) hbudget

/-- The run works, and there is less left to do. -/
theorem Steady.labour (h : m.Steady run g waits c) (hlater : Later m m')
    (hsound : ∃ history, m'.Sound history) {before : Context} {lost : List Nat}
    (hbefore : (m.view run).context = some before)
    (hlabour : RunView.Labour m m' run (m.view run) before (m'.view run) written lost) :
    ∃ c', m'.Steady run g waits c' ∧ m'.cost run g waits c' < m.cost run g waits c := by
  obtain rfl := Option.some.inj (h.tame.context.symm.trans hbefore)
  obtain ⟨rfl, c', htame, hcost⟩ := h.tame.labour h.plain h.balanced hlater
    (fun a ha ↦ h.canGoOn_eq ha) hlabour
  refine ⟨c', ⟨hsound, hlater.provider_eq ▸ h.plain, htame, h.balanced.labour hbefore hlabour,
    h.numbered.labour hlater.nextTask_le hlabour, ?_⟩, hcost⟩
  rcases h.active with hfinished | hactive
  · obtain ⟨history, hbase⟩ := h.sound
    obtain ⟨hrests, -⟩ := (hbase.over hbefore hfinished).rests_changes (.worked hbefore hlabour)
    obtain ⟨later, hcontext, -, -, hstill, -⟩ := hrests.context c hbefore
    obtain rfl := Option.some.inj (htame.context.symm.trans hcontext)
    exact Or.inl (hstill.trans hfinished)
  · refine Or.inr fun hnone ↦ hactive ?_
    have hgraph := (hlabour.keeps hbefore).graph
    rwa [hnone, Option.map_none, eq_comm, Option.map_eq_none_iff] at hgraph

/-- Whatever a move changes of the run, nothing gets more. -/
theorem Steady.changes (h : m.Steady run g waits c) (hlater : Later m m')
    (hsound : ∃ history, m'.Sound history)
    (hchanges : RunView.Changes m m' run (m.view run) (m'.view run) written) :
    ∃ c', m'.Steady run g waits c' ∧ m'.cost run g waits c' ≤ m.cost run g waits c := by
  have hplain := hlater.provider_eq ▸ h.plain
  have htame := h.tame.mono hlater.nextTicket_le
  have hnumbered := h.numbered.later hlater.nextTask_le
  have hcost := h.tame.cost_later hlater.now_le
  generalize hview : m.view run = v at hchanges
  generalize hafter : m'.view run = after at hchanges
  cases hchanges with
  | same =>
    have hsame : m'.view run = m.view run := hafter.trans hview.symm
    refine ⟨c, ⟨hsound, hplain, hsame ▸ htame, hsame ▸ h.balanced, hsame ▸ hnumbered,
      hsame ▸ h.active⟩, ?_⟩
    rw [cost, hsame]
    exact hcost
  | worked hbefore hlabour =>
    obtain ⟨c', hsteady, hless⟩ :=
      h.labour hlater hsound (hview ▸ hbefore) (by rw [hview, hafter]; exact hlabour)
    exact ⟨c', hsteady, Nat.le_of_lt hless⟩
  | ended _ a home rest next hframes hprogress hfinished =>
    have hended : m'.view run = { m.view run with active := none } := by rw [hafter, hview]
    have hover : c.tracker.finished = true := by
      simpa [isFinished, show m.context? run = some c from h.tame.context] using hfinished
    refine ⟨c, ⟨hsound, hplain, ?_, hended ▸ h.balanced.ended, ?_, Or.inl hover⟩, ?_⟩
    · rw [hended]
      exact ⟨htame.context, fun _ hactive ↦ (nomatch hactive), htame.place, htame.affords,
        htame.calls, htame.waiters, htame.tickets⟩
    · rw [hended]
      exact ⟨hnumbered.once, hnumbered.given⟩
    · rw [cost, hended]
      exact hcost
  | begun =>
    have hcontext := h.tame.context
    rw [hview] at hcontext
    cases hcontext

theorem Steady.sound_step (h : m.Steady run g waits c) (move : Move) :
    ∃ history, (m.step move).Sound history :=
  h.sound.elim fun _ hsound ↦ ⟨_, hsound.happens (.moved move)⟩

/-- Every move keeps the run tame, and nothing gets more. -/
theorem Steady.step (h : m.Steady run g waits c) (move : Move) :
    ∃ c', (m.step move).Steady run g waits c' ∧
      (m.step move).cost run g waits c' ≤ m.cost run g waits c := by
  obtain ⟨history, hsound⟩ := h.sound
  exact h.changes (later_step hsound.housed move) (h.sound_step move)
    (changes_step hsound.housed move run)

/-- A move that is work of the run is one that the run works in. -/
theorem works_of_works (h : m.Housed) {move : Move} (hworks : m.works run move = true) :
    ∃ written, Works m (m.step move) run written := by
  cases move with
  | advance =>
    cases hframes : m.frames with
    | nil => simp [Machine.works, hframes] at hworks
    | cons frame rest =>
      have hrun : frame.run = run := by simpa [Machine.works, hframes] using hworks
      exact ⟨_, hrun ▸ works_advance h hframes⟩
  | poll task =>
    obtain ⟨hidle, hfound⟩ := Bool.and_eq_true_iff.mp hworks
    cases htake : takeTask task m.tasks with
    | none => simp [htake] at hfound
    | some found =>
      obtain ⟨a, tasks⟩ := found
      obtain ⟨hrun, hcan⟩ : a.run = run ∧ m.canGoOn a = true := by simpa [htake] using hfound
      exact ⟨_, hrun ▸ works_poll h (List.isEmpty_iff.mp hidle) htake hcan⟩
  | tick moment => cases hworks

theorem Steady.step_works (h : m.Steady run g waits c) {move : Move}
    (hworks : m.works run move = true) :
    ∃ c', (m.step move).Steady run g waits c' ∧
      (m.step move).cost run g waits c' < m.cost run g waits c := by
  obtain ⟨history, hsound⟩ := h.sound
  obtain ⟨written, hmoved⟩ := works_of_works hsound.housed hworks
  obtain ⟨before, lost, hbefore, hlabour⟩ := hmoved.labour
  exact h.labour hmoved.later (h.sound_step move) hbefore hlabour

/-- No schedule has more work of the run than there is left to do. -/
theorem Steady.workedIn_le (h : m.Steady run g waits c) (schedule : List Move) :
    m.workedIn run schedule ≤ m.cost run g waits c := by
  induction schedule generalizing m c with
  | nil => exact Nat.zero_le _
  | cons move rest ih =>
    rw [workedIn]
    split_ifs with hworks
    · obtain ⟨c', hsteady, hcost⟩ := h.step_works hworks
      have hrest := ih hsteady
      omega
    · obtain ⟨c', hsteady, hcost⟩ := h.step move
      have hrest := ih hsteady
      omega

theorem Steady.schedule (h : m.Steady run g waits c) (schedule : List Move) :
    ∃ c', (m.run schedule).Steady run g waits c' := by
  induction schedule generalizing m c with
  | nil => exact ⟨c, h⟩
  | cons move rest ih =>
    obtain ⟨c', hsteady, -⟩ := h.step move
    exact ih hsteady

/-- As long as the run has not finished, it has something on the frames or one of its tasks goes on, at
once or when it is due. -/
theorem Steady.exists_ready (h : m.Steady run g waits c) (hfinished : m.isFinished run = false)
    (hframes : (m.view run).frames = []) :
    ∃ task a, (task, a) ∈ m.tasks ∧ a ∈ (m.view run).activities ∧
      (m.canGoOn a = true ∨ ∃ due, dueAt a = some due) := by
  have hopen : c.tracker.finished = false := by
    simpa [isFinished, show m.context? run = some c from h.tame.context] using hfinished
  have hactive : (m.view run).active ≠ none :=
    h.active.resolve_left fun hover ↦ nomatch hopen.symm.trans hover
  obtain ⟨task, a, hmem, hready⟩ := h.tame.exists_ready h.balanced hframes hactive hopen m.now
  have ha : a ∈ (m.view run).activities := RunView.mem_activities.mpr (Or.inr ⟨task, hmem⟩)
  rw [← h.canGoOn_eq ha] at hready
  exact ⟨task, a, (List.mem_filter.mp hmem).1, ha, hready⟩

/-- What is due can go on. -/
theorem Steady.canGoOn_tick (h : m.Steady run g waits c) {a : Activity}
    (ha : a ∈ (m.view run).activities) {due : Nat} (hdue : dueAt a = some due) :
    (m.tick due).canGoOn a = true := by
  obtain ⟨budget, hbudget⟩ := h.tame.affords a ha
  obtain ⟨hrun, -⟩ := mem_activities_view.mp ha
  have hcontext : (m.tick due).context? a.run = some c := hrun ▸ h.tame.context
  rw [Machine.canGoOn_eq hcontext hbudget]
  exact h.tame.ready_of_due ha hdue (Nat.le_max_right _ _)

end Machine

end Blueprint

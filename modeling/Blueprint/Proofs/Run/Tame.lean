import Blueprint.Proofs.Graph.Acyclic
import Blueprint.Proofs.Run.Balance
import Blueprint.Proofs.Run.Continuity
import Blueprint.Proofs.Run.Effects
import Mathlib.Algebra.Order.BigOperators.Group.List
import Mathlib.Algebra.Order.Group.Nat
import Mathlib.Order.Lattice.Nat

/-!
Runs whose work is within budgets. In a tame run of an acyclic graph every activity can pay for the
rest of its requests, and whoever waits does so for scopes that are later than his own
(`RunView.Tame`). What the activities, the queued calls and the frames of such a run may still cost is
finite (`RunView.cost`), and all of its work lowers that: a node that goes to its task and comes back
pays for both ways, and what it starts is paid for by the price of the pin (`Tame.labour`).
-/

set_option autoImplicit false

namespace Blueprint

namespace Graph

/-- A call of a node of the graph. -/
def Calls (g : Graph) (call : NodeCall) : Prop :=
  ∃ node ∈ g.nodes, call.node = node.id ∧ call.kind = node.kind ∧ call.params = node.params

/-- No link leads back, all nodes are of plain kinds, and none of them waits where that is not
allowed. -/
structure Plain (g : Graph) (registry : Registry) (waits : Bool) : Prop where
  wired : g.Wired
  acyclic : g.Acyclic
  permits : ∀ node ∈ g.nodes, ∀ kind, registry.get? node.kind = some kind →
    kind ∈ NodeKind.plain ∧ (waits = true ∨ kind.mode = .sync)

end Graph

namespace Progress

/-- The requests that are left are within a budget. -/
def Within (waits : Bool) (price : String → Nat) (scope : Nat) : Progress → Nat → Prop
  | .going rest, budget => rest.Within waits price scope budget
  | .joining _ rest, budget => waits = true ∧ rest.Within waits price scope budget
  | .fetchingAsset _ _ _ _ next, budget =>
    waits = true ∧ ∀ outcome, (next outcome).Within waits price scope budget
  | .sleeping _ _, _ | .fetchingGraph _ _ _ _, _ | .nesting _ _, _ | .stalled, _ => False

/-- The tickets that are waited for. -/
def tickets : Progress → List Nat
  | .joining tickets _ => tickets
  | _ => []

/-- Whether it goes on, by what a tracker says at some time. -/
def ready (now : Nat) (t : Tracker) : Progress → Bool
  | .going _ => true
  | .joining tickets _ => tickets.all fun ticket ↦ !t.isWaiting ticket
  | .fetchingAsset due _ _ _ _ => due ≤ now
  | .sleeping _ _ | .fetchingGraph _ _ _ _ | .nesting _ _ | .stalled => false

variable {waits : Bool} {price : String → Nat} {scope budget now later : Nat} {p : Progress}
  {t t' : Tracker}

theorem within_of_resumes {request : Behaviour} (h : p.Within waits price scope budget)
    (hresumes : RunView.Resumes p request) : request.Within waits price scope budget := by
  cases hresumes with
  | going => exact h
  | joining => exact h.2
  | fetchingAsset => exact h.2 _
  | sleeping | fetchingGraph | nesting => cases h

theorem waits_of_not_ready (h : p.Within waits price scope budget) (hready : p.ready now t = false) :
    waits = true := by
  cases p with
  | going => cases hready
  | joining | fetchingAsset => exact h.1
  | sleeping | fetchingGraph | nesting | stalled => cases h

/-- What goes on still does so later, when none of its tickets is held again. -/
theorem ready_later (hnow : now ≤ later)
    (htickets : ∀ ticket ∈ p.tickets, t'.isWaiting ticket = true → t.isWaiting ticket = true)
    (hready : p.ready now t = true) : p.ready later t' = true := by
  cases p with
  | going => rfl
  | joining tickets rest =>
    refine List.all_eq_true.mpr fun ticket hticket ↦ ?_
    have hfree : (!t.isWaiting ticket) = true := List.all_eq_true.mp hready ticket hticket
    rw [Bool.not_eq_true', ← Bool.not_eq_true] at hfree ⊢
    exact fun hheld ↦ hfree (htickets ticket hticket hheld)
  | fetchingAsset due =>
    exact decide_eq_true (Nat.le_trans (of_decide_eq_true hready) hnow)
  | sleeping | fetchingGraph | nesting | stalled => cases hready

end Progress

theorem Machine.canGoOn_eq {m : Machine} {a : Activity} {c : Context} {waits : Bool}
    {price : String → Nat} {budget : Nat} (hcontext : m.context? a.run = some c)
    (h : a.progress.Within waits price a.call.scope budget) :
    m.canGoOn a = a.progress.ready m.now c.tracker := by
  unfold Machine.canGoOn
  cases hprogress : a.progress with
  | going | fetchingAsset => rfl
  | joining => simp only [hcontext, Progress.ready]
  | sleeping | fetchingGraph | nesting | stalled =>
    rw [hprogress] at h
    cases h

namespace Activity

/-- The rest of an activity is within a budget, at the prices of its graph. -/
def Affords (g : Graph) (waits : Bool) (a : Activity) (budget : Nat) : Prop :=
  a.progress.Within waits (g.price a.call.node) a.call.scope budget

/-- The least budget of an activity. -/
noncomputable def cost (g : Graph) (waits : Bool) (a : Activity) : Nat :=
  sInf { budget | a.Affords g waits budget }

variable {g : Graph} {waits : Bool} {a : Activity} {budget : Nat}

theorem cost_le (h : a.Affords g waits budget) : a.cost g waits ≤ budget := Nat.sInf_le h

theorem affords_cost (h : a.Affords g waits budget) : a.Affords g waits (a.cost g waits) := by
  have hmem : a.cost g waits ∈ { budget | a.Affords g waits budget } := Nat.sInf_mem ⟨budget, h⟩
  exact hmem

end Activity

/-- A node that is called may spend its budget. -/
theorem Graph.Plain.affords {g : Graph} {registry : Registry} {waits : Bool}
    (h : g.Plain registry waits) {call : NodeCall} (hcall : g.Calls call) {kind : NodeKind}
    (hkind : registry.get? call.kind = some kind) (run : RunId) :
    ({ run, call, progress := .going (kind.behaviour call) } : Activity).Affords g waits
      (g.budget call.node) := by
  obtain ⟨node, hmem, hnode, hname, hparams⟩ := hcall
  obtain ⟨hplain, hwaits⟩ := h.permits node hmem kind (hname ▸ hkind)
  have hwithin : (kind.behaviour call).Within waits (g.price node.id) call.scope
      (NodeKind.budget call.params (g.price node.id)) := NodeKind.within_of_plain hplain hwaits
  rw [hparams, ← h.acyclic.budget_eq h.wired hmem, ← hnode] at hwithin
  exact hwithin

/-- What is left to do on a frame. A node that has to wait has two more ways to go. -/
noncomputable def Frame.cost (g : Graph) (waits : Bool) (now : Nat) (t : Tracker) : Frame → Nat
  | .drain _ => 1
  | .node a _ => a.cost g waits + if a.progress.ready now t then 1 else 3

namespace RunView

/-- What is left to do for a run, with its context. -/
noncomputable def cost (g : Graph) (waits : Bool) (now : Nat) (v : RunView) (c : Context) : Nat :=
  (v.frames.map (Frame.cost g waits now c.tracker)).sum +
    (v.tasks.map fun entry ↦ entry.2.cost g waits + 2).sum +
    (c.queue.calls.map fun call ↦ g.budget call.node + 2).sum

/-- All work of a run is within budgets, and nobody waits for a scope before his own. -/
structure Tame (g : Graph) (waits : Bool) (nextTicket : Nat) (v : RunView) (c : Context) : Prop where
  context : v.context = some c
  graph : ∀ active, v.active = some active → active.graph = g
  place : waits = true → c.hasTasks = true
  affords : ∀ a ∈ v.activities, ∃ budget, a.Affords g waits budget
  calls : ∀ call ∈ c.queue.calls, g.Calls call
  waiters : ∀ waiter ∈ c.tracker.waiters, waiter.2 < nextTicket
  tickets : ∀ a ∈ v.activities, ∀ ticket ∈ a.progress.tickets, ticket < nextTicket ∧
    ∀ scope, (scope, ticket) ∈ c.tracker.waiters → a.call.scope < scope

variable {g : Graph} {waits : Bool} {nextTicket later now : Nat} {v after : RunView} {c c' : Context}

/-- Assumes: a run that goes on with its graph; new activities are within budgets and wait for later
scopes, and new calls are calls of nodes. -/
theorem Tame.update (h : v.Tame g waits nextTicket c) (hcontext : after.context = some c')
    (hgraph : ∀ active, after.active = some active → active.graph = g)
    (htasks : c'.hasTasks = c.hasTasks) (hlater : nextTicket ≤ later)
    (hwaiters : ∀ waiter ∈ c'.tracker.waiters,
      waiter ∈ c.tracker.waiters ∨ (nextTicket ≤ waiter.2 ∧ waiter.2 < later))
    (hcalls : ∀ call ∈ c'.queue.calls, call ∈ c.queue.calls ∨ g.Calls call)
    (hactivities : ∀ a ∈ after.activities, a ∈ v.activities ∨
      ((∃ budget, a.Affords g waits budget) ∧ ∀ ticket ∈ a.progress.tickets, ticket < later ∧
        ∀ scope, (scope, ticket) ∈ c'.tracker.waiters → a.call.scope < scope)) :
    after.Tame g waits later c' where
  context := hcontext
  graph := hgraph
  place := htasks ▸ h.place
  affords := fun a ha ↦ (hactivities a ha).elim (h.affords a) And.left
  calls := fun call hcall ↦ (hcalls call hcall).elim (h.calls call) id
  waiters := fun waiter hwaiter ↦ (hwaiters waiter hwaiter).elim
    (fun hold ↦ Nat.lt_of_lt_of_le (h.waiters waiter hold) hlater) And.right
  tickets := fun a ha ticket hticket ↦ by
    rcases hactivities a ha with hold | ⟨-, hnew⟩
    · obtain ⟨hlt, hscopes⟩ := h.tickets a hold ticket hticket
      refine ⟨Nat.lt_of_lt_of_le hlt hlater, fun scope hwaiter ↦ ?_⟩
      rcases hwaiters _ hwaiter with hkept | ⟨hfresh, -⟩
      · exact hscopes scope hkept
      · exact absurd hlt (Nat.not_lt.mpr hfresh)
    · exact hnew ticket hticket

theorem Tame.mono (h : v.Tame g waits nextTicket c) (hlater : nextTicket ≤ later) :
    v.Tame g waits later c :=
  h.update h.context h.graph rfl hlater (fun _ ↦ Or.inl) (fun _ ↦ Or.inl) fun _ ↦ Or.inl

/-! ### What does not cost more later -/

/-- Assumes: a tracker in which only tickets are held that were held before, or new ones. -/
theorem Tame.ready_later (h : v.Tame g waits nextTicket c) (hnow : now ≤ later)
    (hwaiters : ∀ waiter ∈ c'.tracker.waiters, waiter ∈ c.tracker.waiters ∨ nextTicket ≤ waiter.2)
    {a : Activity} (ha : a ∈ v.activities) (hready : a.progress.ready now c.tracker = true) :
    a.progress.ready later c'.tracker = true := by
  refine Progress.ready_later hnow (fun ticket hticket hheld ↦ ?_) hready
  obtain ⟨⟨scope, other⟩, hwaiter, hother⟩ := List.any_eq_true.mp hheld
  obtain rfl : other = ticket := by simpa using hother
  rcases hwaiters _ hwaiter with hkept | hfresh
  · exact List.any_eq_true.mpr ⟨_, hkept, by simp⟩
  · exact absurd (h.tickets a ha other hticket).1 (Nat.not_lt.mpr hfresh)

/-- What stands on frames costs no more later. -/
theorem Tame.sum_frames_le (h : v.Tame g waits nextTicket c) (hnow : now ≤ later)
    (hwaiters : ∀ waiter ∈ c'.tracker.waiters, waiter ∈ c.tracker.waiters ∨ nextTicket ≤ waiter.2)
    {frames : List Frame} (hframes : ∀ frame ∈ frames, frame ∈ v.frames) :
    (frames.map (Frame.cost g waits later c'.tracker)).sum ≤
      (frames.map (Frame.cost g waits now c.tracker)).sum := by
  refine List.sum_le_sum fun frame hframe ↦ ?_
  cases frame with
  | drain run => exact Nat.le_refl _
  | node a home =>
    have ha : a ∈ v.activities := mem_activities.mpr (Or.inl ⟨home, hframes _ hframe⟩)
    have hready := h.ready_later hnow hwaiters ha
    simp only [Frame.cost]
    by_cases hbefore : a.progress.ready now c.tracker = true
    · rw [if_pos hbefore, if_pos (hready hbefore)]
    · rw [if_neg hbefore]
      split_ifs <;> omega

theorem Tame.cost_later (h : v.Tame g waits nextTicket c) (hnow : now ≤ later) :
    v.cost g waits later c ≤ v.cost g waits now c := by
  refine Nat.add_le_add_right (Nat.add_le_add_right ?_ _) _
  exact h.sum_frames_le hnow (fun _ ↦ Or.inl) fun frame ↦ id

/-! ### Finishing -/

/-- Assumes: a run under way. What finishing leaves of it. -/
theorem finish_eq (hcontext : v.context = some c) {active : ActiveRun}
    (hactive : v.active = some active) (scope : Nat) :
    ∃ closed scopes, v.finish scope = { v with
      context := some { c with tracker := c.tracker.completeAll closed }
      active := some { active with scopes } } := by
  unfold RunView.finish
  rw [hactive]
  simp only
  split
  · refine ⟨[], active.scopes, ?_⟩
    rw [← hactive, Tracker.completeAll, List.foldl_nil, ← hcontext]
  · rename_i closed scopes hfinish
    exact ⟨closed, scopes, by rw [hcontext]; rfl⟩

theorem Tame.finish (h : v.Tame g waits nextTicket c) (now scope : Nat) :
    ∃ c', (v.finish scope).Tame g waits nextTicket c' ∧
      (v.finish scope).cost g waits now c' ≤ v.cost g waits now c := by
  cases hactive : v.active with
  | none =>
    have hfinish : v.finish scope = v := by simp only [RunView.finish, hactive]
    rw [hfinish]
    exact ⟨c, h, Nat.le_refl _⟩
  | some active =>
    obtain ⟨closed, scopes, hfinish⟩ := finish_eq h.context hactive scope
    have hwaiters := c.tracker.waiters_completeAll closed
    rw [hfinish]
    refine ⟨_, h.update rfl (fun after hafter ↦ ?_) rfl (Nat.le_refl _) (fun waiter hwaiter ↦ ?_)
      (fun _ ↦ Or.inl) fun _ ↦ Or.inl, ?_⟩
    · obtain rfl := Option.some.inj hafter
      exact h.graph active hactive
    · exact Or.inl (hwaiters hwaiter)
    · refine Nat.add_le_add_right (Nat.add_le_add_right ?_ _) _
      exact h.sum_frames_le (Nat.le_refl now) (fun waiter hwaiter ↦ Or.inl (hwaiters hwaiter))
        fun frame ↦ id

theorem Tame.conclude (h : v.Tame g waits nextTicket c) (now : Nat) (call : NodeCall)
    (ending : Ending) :
    ∃ c', (v.conclude call ending).Tame g waits nextTicket c' ∧
      (v.conclude call ending).cost g waits now c' ≤ v.cost g waits now c := by
  unfold RunView.conclude
  split_ifs with hdone
  · exact h.finish now call.scope
  · rw [h.context]
    have hfailed : ({ v with context := some { c with failedBranches := c.failedBranches + 1 } } :
        RunView).Tame g waits nextTicket { c with failedBranches := c.failedBranches + 1 } :=
      h.update rfl h.graph rfl (Nat.le_refl _) (fun _ ↦ Or.inl) (fun _ ↦ Or.inl) fun _ ↦ Or.inl
    exact hfailed.finish now call.scope

/-! ### Calls -/

variable {m m' : Machine} {run : RunId} {written : List (String × Value)} {lost : List Nat}

/-- Assumes: a call of a node. It is paid for by the budget of that node. -/
theorem Tame.invoke (h : v.Tame g waits nextTicket c) (now : Nat)
    (hplain : g.Plain m.provider.registry waits) {call : NodeCall} (hcall : g.Calls call)
    (hinvokes : Invokes m m' run call v c after lost) :
    lost = [] ∧ ∃ c', after.Tame g waits nextTicket c' ∧
      after.cost g waits now c' ≤ v.cost g waits now c + g.budget call.node + 3 := by
  have happend : ∀ other ∈ c.queue.calls ++ [call], other ∈ c.queue.calls ∨ g.Calls other := by
    intro other hother
    rcases List.mem_append.mp hother with hkept | hlast
    · exact Or.inl hkept
    · exact Or.inr (List.mem_singleton.mp hlast ▸ hcall)
  cases hinvokes with
  | unknown hkind =>
    obtain ⟨c', htame, hcost⟩ := h.conclude now call (.unknownKind call.kind)
    exact ⟨rfl, c', htame, by omega⟩
  | spawned kind task hkind hmode htasks hold hnew =>
    have haffords := hplain.affords hcall hkind run
    refine ⟨rfl, c, h.update h.context h.graph rfl (Nat.le_refl _) (fun _ ↦ Or.inl)
      (fun _ ↦ Or.inl) fun b hb ↦ ?_, ?_⟩
    · rcases mem_activities.mp hb with hframe | ⟨other, htask⟩
      · exact Or.inl (mem_activities.mpr (Or.inl hframe))
      · rcases List.mem_append.mp htask with hkept | hlast
        · exact Or.inl (mem_activities.mpr (Or.inr ⟨other, hkept⟩))
        · obtain ⟨-, rfl⟩ := Prod.mk.inj (List.mem_singleton.mp hlast)
          exact Or.inr ⟨⟨_, haffords⟩, fun ticket hticket ↦ absurd hticket List.not_mem_nil⟩
    · have hcost := Activity.cost_le haffords
      simp only [RunView.cost, List.map_append, List.sum_append, List.map_singleton,
        List.sum_singleton]
      omega
  | lost kind hkind hmode htasks =>
    obtain ⟨node, hmem, -, hname, -⟩ := hcall
    rcases (hplain.permits node hmem kind (hname ▸ hkind)).2 with hwaits | hsync
    · cases htasks.symm.trans (h.place hwaits)
    · cases hmode.symm.trans hsync
  | queued kind hkind hmode hdraining =>
    refine ⟨rfl, _, h.update rfl h.graph rfl (Nat.le_refl _) (fun _ ↦ Or.inl) happend
      fun _ ↦ Or.inl, ?_⟩
    simp only [RunView.cost, List.map_append, List.sum_append, List.map_singleton,
      List.sum_singleton]
    omega
  | drained kind hkind hmode hdraining =>
    refine ⟨rfl, _, h.update rfl h.graph rfl (Nat.le_refl _) (fun _ ↦ Or.inl) happend
      fun b hb ↦ Or.inl hb, ?_⟩
    simp only [RunView.cost, List.map_append, List.sum_append, List.map_cons, List.sum_cons,
      List.map_nil, List.sum_nil, Frame.cost]
    omega

/-! ### Requests -/

variable {price : String → Nat} {scope budget : Nat} {node : String} {request : Behaviour}
  {progress : Progress}

/-- What is left after an answer is within a smaller budget, and smaller still where it has to wait. -/
theorem Answers.within (h : Answers m m' run node c request c' progress written)
    (hwithin : request.Within waits price scope budget) :
    ∃ rest, progress.Within waits price scope rest ∧
      (rest + 2 < budget ∨ rest < budget ∧ ∃ next, progress = .going next) := by
  cases h with
  | read | write | publish | log =>
    obtain ⟨rest, hrest, hnext⟩ := hwithin
    first
    | exact ⟨rest, hnext, Or.inr ⟨hrest, _, rfl⟩⟩
    | exact ⟨rest, hnext _, Or.inr ⟨hrest, _, rfl⟩⟩
  | refused =>
    obtain ⟨rest, hrest, -, hnext⟩ := hwithin
    exact ⟨rest, hnext _, Or.inr ⟨by omega, _, rfl⟩⟩
  | join =>
    obtain ⟨hwaits, -, rest, hrest, hnext⟩ := hwithin
    exact ⟨rest, ⟨hwaits, hnext⟩, Or.inl hrest⟩
  | loadRefused =>
    obtain ⟨-, rest, hrest, hnext⟩ := hwithin
    exact ⟨rest, hnext _, Or.inr ⟨by omega, _, rfl⟩⟩
  | loading =>
    obtain ⟨hwaits, rest, hrest, hnext⟩ := hwithin
    exact ⟨rest, ⟨hwaits, hnext⟩, Or.inl hrest⟩
  | found | finding | nestRefused | nesting | sleep => cases hwithin

/-- The tickets that are taken are new. -/
theorem Answers.waiters (h : Answers m m' run node c request c' progress written) :
    ∀ waiter ∈ c'.tracker.waiters, waiter ∈ c.tracker.waiters ∨
      (m.nextTicket ≤ waiter.2 ∧ waiter.2 < m'.nextTicket) := by
  cases h with
  | join scopes next held hheld =>
    exact fun waiter hwaiter ↦ (List.mem_append.mp hwaiter).imp_right fun hnew ↦
      (hheld waiter hnew).2.2
  | _ => exact fun _ ↦ Or.inl

/-- Assumes: tickets that are held were given out. The tickets that are waited for are for scopes that
come later. -/
theorem Answers.tickets (h : Answers m m' run node c request c' progress written)
    (hwithin : request.Within waits price scope budget)
    (hgiven : ∀ waiter ∈ c.tracker.waiters, waiter.2 < m.nextTicket) :
    ∀ ticket ∈ progress.tickets, ticket < m'.nextTicket ∧
      ∀ other, (other, ticket) ∈ c'.tracker.waiters → scope < other := by
  cases h with
  | join scopes next held hheld =>
    intro ticket hticket
    obtain ⟨waiter, hwaiter, rfl⟩ := List.mem_map.mp hticket
    obtain ⟨-, -, hold, hnew⟩ := hheld waiter hwaiter
    refine ⟨hnew, fun other hother ↦ ?_⟩
    rcases List.mem_append.mp hother with hkept | hfresh
    · exact absurd (hgiven _ hkept) (Nat.not_lt.mpr hold)
    · exact hwithin.2.1 other (hheld _ hfresh).1
  | _ => exact fun ticket hticket ↦ nomatch hticket

/-- A node goes on after an answer. -/
theorem Tame.answer {a : Activity} (h : v.Tame g waits m.nextTicket c) (hlater : Machine.Later m m')
    (hwithin : request.Within waits (g.price a.call.node) a.call.scope budget)
    (hanswers : Answers m m' run a.call.node c request c' progress written) (home : Option Nat) :
    ({ v with context := some c', frames := .node { a with progress } home :: v.frames } :
      RunView).Tame g waits m'.nextTicket c' ∧
    ({ v with context := some c', frames := .node { a with progress } home :: v.frames } :
      RunView).cost g waits m'.now c' ≤ v.cost g waits m.now c + budget := by
  obtain ⟨rest, hrest, hsmaller⟩ := hanswers.within hwithin
  have hqueue := hanswers.extends.2
  have hwaiters := hanswers.waiters
  have haffords : ({ a with progress } : Activity).Affords g waits rest := hrest
  refine ⟨h.update rfl h.graph hanswers.continues.hasTasks_eq hlater.nextTicket_le hwaiters
    (fun call hcall ↦ Or.inl (hqueue ▸ hcall)) fun b hb ↦ ?_, ?_⟩
  · rcases List.mem_cons.mp hb with rfl | hold
    · exact Or.inr ⟨⟨rest, haffords⟩, hanswers.tickets hwithin h.waiters⟩
    · exact Or.inl hold
  · have hframes : (v.frames.map (Frame.cost g waits m'.now c'.tracker)).sum ≤
        (v.frames.map (Frame.cost g waits m.now c.tracker)).sum :=
      h.sum_frames_le hlater.now_le
        (fun waiter hwaiter ↦ (hwaiters waiter hwaiter).imp_right And.left) fun frame ↦ id
    have hnew : Frame.cost g waits m'.now c'.tracker (.node { a with progress } home) ≤ budget := by
      have hcost := Activity.cost_le haffords
      simp only [Frame.cost]
      rcases hsmaller with hwait | ⟨hgo, next, rfl⟩
      · split_ifs <;> omega
      · simp only [Progress.ready, ↓reduceIte]
        omega
    simp only [RunView.cost, hqueue, List.map_cons, List.sum_cons]
    omega

/-- A node that has triggered goes on. -/
theorem Tame.enter {a : Activity} {rest : Nat} {next : Behaviour}
    (h : v.Tame g waits nextTicket c) (now : Nat) (c' : Context) (active : ActiveRun)
    (hgraph : active.graph = g) (htasks : c'.hasTasks = c.hasTasks) (hqueue : c'.queue = c.queue)
    (hwaiters : c'.tracker.waiters ⊆ c.tracker.waiters)
    (haffords : ({ a with progress := .going next } : Activity).Affords g waits rest)
    (home : Option Nat) :
    ({ v with
      context := some c'
      active := some active
      frames := .node { a with progress := .going next } home :: v.frames } : RunView).Tame g waits
        nextTicket c' ∧
    ({ v with
      context := some c'
      active := some active
      frames := .node { a with progress := .going next } home :: v.frames } : RunView).cost g waits
        now c' ≤ v.cost g waits now c + rest + 1 := by
  refine ⟨h.update rfl (fun _ hafter ↦ Option.some.inj hafter ▸ hgraph) htasks (Nat.le_refl _)
    (fun waiter hwaiter ↦ Or.inl (hwaiters hwaiter)) (fun call hcall ↦ Or.inl (hqueue ▸ hcall))
    fun b hb ↦ ?_, ?_⟩
  · rcases List.mem_cons.mp hb with rfl | hold
    · exact Or.inr ⟨⟨rest, haffords⟩, fun ticket hticket ↦ absurd hticket List.not_mem_nil⟩
    · exact Or.inl hold
  · have hframes : (v.frames.map (Frame.cost g waits now c'.tracker)).sum ≤
        (v.frames.map (Frame.cost g waits now c.tracker)).sum :=
      h.sum_frames_le (Nat.le_refl now) (fun waiter hwaiter ↦ Or.inl (hwaiters hwaiter))
        fun frame ↦ id
    have hcost := Activity.cost_le haffords
    simp only [RunView.cost, hqueue, List.map_cons, List.sum_cons, Frame.cost, Progress.ready,
      ↓reduceIte]
    omega

/-- Assumes: a request of a node that was taken off the frames, from an open scope. It is paid for by
the budget of the node. -/
theorem Tame.serve {a : Activity} {home : Option Nat} (h : v.Tame g waits m.nextTicket c)
    (hplain : g.Plain m.provider.registry waits) (hlater : Machine.Later m m')
    (hopen : ∀ active, v.active = some active → a.call.scope < active.scopes.next)
    (hwithin : request.Within waits (g.price a.call.node) a.call.scope budget)
    (hserves : Serves m m' run v c a home request after written lost) :
    lost = [] ∧ ∃ c', after.Tame g waits m'.nextTicket c' ∧
      after.cost g waits m'.now c' ≤ v.cost g waits m.now c + budget := by
  cases hserves with
  | ended ending hending =>
    obtain ⟨c', htame, hcost⟩ := h.conclude m.now a.call ending
    have hnow := htame.cost_later hlater.now_le
    exact ⟨rfl, c', htame.mono hlater.nextTicket_le, by omega⟩
  | answered hanswers =>
    exact ⟨rfl, _, h.answer hlater hwithin hanswers home⟩
  | paused hpause =>
    cases request with
    | yield | stall => cases hwithin
    | _ => cases hpause
  | unwired pin next active hactive hpin =>
    obtain ⟨rest, hrest, hnext, -⟩ := hwithin
    have hgraph := h.graph active hactive
    have hwaiters := (c.tracker.dispatch active.scopes.next).waiters_complete active.scopes.next
    obtain ⟨htame, hcost⟩ := h.enter m.now { c with
        tracker := ((c.tracker.dispatch active.scopes.next).complete active.scopes.next).tracker }
      { active with scopes := active.scopes.openNext false a.call.scope } hgraph rfl rfl hwaiters
      (hnext _ (hopen active hactive)) home
    have hnow := htame.cost_later hlater.now_le
    exact ⟨rfl, _, htame.mono hlater.nextTicket_le, by omega⟩
  | wired pin next active target bindings hactive hpin htarget hinvokes =>
    obtain ⟨rest, hrest, hnext, -⟩ := hwithin
    have hgraph := h.graph active hactive
    rw [hgraph] at hpin htarget
    have hprice : g.price a.call.node pin = g.budget target.id + 3 := by rw [Graph.price, hpin]
    obtain ⟨hopened, hcost⟩ := h.enter m.now
      { c with tracker := c.tracker.dispatch active.scopes.next, bindings }
      { active with scopes := active.scopes.openNext true a.call.scope } hgraph rfl rfl (fun _ ↦ id)
      (hnext _ (hopen active hactive)) home
    obtain ⟨rfl, c', htame, hinvoked⟩ :=
      hopened.invoke m.now hplain ⟨target, htarget, rfl, rfl, rfl⟩ hinvokes
    dsimp only at hinvoked
    have hnow := htame.cost_later hlater.now_le
    exact ⟨rfl, c', htame.mono hlater.nextTicket_le, by omega⟩

/-- Nodes at work are on open scopes. -/
theorem Balanced.lt_next {lost : List Nat} (h : v.Balanced [] lost) {active : ActiveRun}
    (hactive : v.active = some active) {a : Activity} (ha : a ∈ v.activities) :
    a.call.scope < active.scopes.next := by
  obtain ⟨opened, hopened⟩ :=
    Option.isSome_iff_exists.mp (ScopeTable.isSome_of_awaits (h.awaits_of_mem hactive ha))
  exact (h.scopes active hactive).tree.lt_next _ opened hopened

/-- Assumes: a node on top has to wait, where there is a place for tasks. It pays for going there. -/
theorem Tame.shelve {a : Activity} {home : Option Nat} {rest : List Frame}
    {tasks : List (Nat × Activity)} (h : v.Tame g waits nextTicket c) (now : Nat)
    (hframes : v.frames = .node a home :: rest) (hplace : c.hasTasks = true)
    (hwait : a.progress.ready now c.tracker = false)
    (hshelves : Shelves m m' c a v.tasks home tasks lost) :
    lost = [] ∧ ({ v with frames := rest, tasks } : RunView).Tame g waits nextTicket c ∧
      ({ v with frames := rest, tasks } : RunView).cost g waits now c < v.cost g waits now c := by
  have htasks : lost = [] ∧ ∃ task, tasks = v.tasks ++ [(task, a)] := by
    cases hshelves with
    | back task | spawned task => exact ⟨rfl, task, rfl⟩
    | lost htasks => cases htasks.symm.trans hplace
  obtain ⟨hlost, task, rfl⟩ := htasks
  refine ⟨hlost, h.update h.context h.graph rfl (Nat.le_refl _) (fun _ ↦ Or.inl) (fun _ ↦ Or.inl)
    fun b hb ↦ Or.inl (mem_of_shelved hframes hshelves hb), ?_⟩
  simp only [RunView.cost, hframes, List.map_append, List.sum_append, List.map_cons, List.sum_cons,
    List.map_nil, List.sum_nil, Frame.cost, hwait, Bool.false_eq_true, ↓reduceIte]
  omega

/-- A queued call is taken to the frames, within the budget that was kept for it. -/
theorem Tame.take {call : NodeCall} {calls : List NodeCall} {kind : NodeKind} (run : RunId)
    (h : v.Tame g waits nextTicket c) (now : Nat) (hplain : g.Plain m.provider.registry waits)
    (hcalls : c.queue.calls = call :: calls)
    (hkind : m.provider.registry.get? call.kind = some kind) :
    ({ v with
      context := some { c with queue := { c.queue with calls } }
      frames := .node { run, call, progress := .going (kind.behaviour call) } none :: v.frames } :
        RunView).Tame g waits nextTicket { c with queue := { c.queue with calls } } ∧
    ({ v with
      context := some { c with queue := { c.queue with calls } }
      frames := .node { run, call, progress := .going (kind.behaviour call) } none :: v.frames } :
        RunView).cost g waits now { c with queue := { c.queue with calls } } <
      v.cost g waits now c := by
  have hcall : g.Calls call := h.calls call (by simp [hcalls])
  have haffords := hplain.affords hcall hkind run
  refine ⟨h.update rfl h.graph rfl (Nat.le_refl _) (fun _ ↦ Or.inl) (fun other hother ↦ Or.inl ?_)
    fun b hb ↦ ?_, ?_⟩
  · rw [hcalls]
    exact List.mem_cons_of_mem _ hother
  · rcases List.mem_cons.mp hb with rfl | hold
    · exact Or.inr ⟨⟨_, haffords⟩, fun ticket hticket ↦ absurd hticket List.not_mem_nil⟩
    · exact Or.inl hold
  · have hcost := Activity.cost_le haffords
    simp only [RunView.cost, hcalls, List.map_cons, List.sum_cons, Frame.cost, Progress.ready,
      ↓reduceIte]
    omega

/-- All work of a tame run keeps it tame, loses nothing and lowers what is left to do. -/
theorem Tame.labour (h : v.Tame g waits m.nextTicket c) (hplain : g.Plain m.provider.registry waits)
    (hbalanced : v.Balanced [] []) (hlater : Machine.Later m m')
    (hready : ∀ a ∈ v.activities, m.canGoOn a = a.progress.ready m.now c.tracker)
    (hlabour : Labour m m' run v c after written lost) :
    lost = [] ∧ ∃ c', after.Tame g waits m'.nextTicket c' ∧
      after.cost g waits m'.now c' < v.cost g waits m.now c := by
  -- Later on, what is there costs no more than it does now.
  have hlast {after : RunView} {c' : Context} (htame : after.Tame g waits m.nextTicket c')
      (hcost : after.cost g waits m.now c' < v.cost g waits m.now c) :
      ∃ c', after.Tame g waits m'.nextTicket c' ∧
        after.cost g waits m'.now c' < v.cost g waits m.now c :=
    ⟨c', htame.mono hlater.nextTicket_le,
      Nat.lt_of_le_of_lt (htame.cost_later hlater.now_le) hcost⟩
  cases hlabour with
  | polled before rest task a htasks hcan =>
    have ha : a ∈ v.activities := mem_activities.mpr (Or.inr ⟨task, by simp [htasks]⟩)
    have hgo : a.progress.ready m.now c.tracker = true := (hready a ha).symm.trans hcan
    refine ⟨rfl, hlast (h.update h.context h.graph rfl (Nat.le_refl _) (fun _ ↦ Or.inl)
      (fun _ ↦ Or.inl) fun b hb ↦ Or.inl (mem_of_polled htasks hb)) ?_⟩
    simp only [RunView.cost, htasks, List.map_append, List.sum_append, List.map_cons,
      List.sum_cons, Frame.cost, hgo, ↓reduceIte]
    omega
  | shelved a home rest hframes hcan hshelves =>
    have ha : a ∈ v.activities := mem_activities.mpr (Or.inl ⟨home, by simp [hframes]⟩)
    have hwait : a.progress.ready m.now c.tracker = false := (hready a ha).symm.trans hcan
    obtain ⟨budget, hbudget⟩ := h.affords a ha
    have hplace : c.hasTasks = true := h.place (Progress.waits_of_not_ready hbudget hwait)
    obtain ⟨rfl, htame, hcost⟩ := h.shelve m.now hframes hplace hwait hshelves
    exact ⟨rfl, hlast htame hcost⟩
  | served a home rest hframes hcan hresumes hserves =>
    have ha : a ∈ v.activities := mem_activities.mpr (Or.inl ⟨home, by simp [hframes]⟩)
    have hgo : a.progress.ready m.now c.tracker = true := (hready a ha).symm.trans hcan
    obtain ⟨budget, hbudget⟩ := h.affords a ha
    have hrest : ({ v with frames := rest } : RunView).Tame g waits m.nextTicket c := by
      refine h.update h.context h.graph rfl (Nat.le_refl _) (fun _ ↦ Or.inl) (fun _ ↦ Or.inl)
        fun b hb ↦ Or.inl ?_
      rw [RunView.activities, hframes]
      exact List.mem_cons_of_mem _ hb
    obtain ⟨rfl, c', htame, hcost⟩ := hrest.serve hplain hlater
      (fun active hactive ↦ hbalanced.lt_next hactive ha)
      (Progress.within_of_resumes (Activity.affords_cost hbudget) hresumes) hserves
    refine ⟨rfl, c', htame, Nat.lt_of_le_of_lt hcost ?_⟩
    simp only [RunView.cost, hframes, List.map_cons, List.sum_cons, Frame.cost, hgo, ↓reduceIte]
    omega
  | released rest hframes hcalls =>
    refine ⟨rfl, hlast (h.update rfl h.graph rfl (Nat.le_refl _) (fun _ ↦ Or.inl)
      (fun _ ↦ Or.inl) fun b hb ↦ Or.inl ?_) ?_⟩
    · rw [RunView.activities, hframes]
      exact hb
    · simp only [RunView.cost, hframes, List.map_cons, List.sum_cons, Frame.cost]
      omega
  | taken rest call calls kind hframes hcalls hkind =>
    obtain ⟨htame, hcost⟩ := h.take run m.now hplain hcalls hkind
    exact ⟨rfl, hlast htame hcost⟩
  | skipped rest call calls hframes hcalls hkind =>
    have htaken : ({ v with context := some { c with queue := { c.queue with calls } } } :
        RunView).Tame g waits m.nextTicket { c with queue := { c.queue with calls } } := by
      refine h.update rfl h.graph rfl (Nat.le_refl _) (fun _ ↦ Or.inl)
        (fun other hother ↦ Or.inl ?_) fun _ ↦ Or.inl
      rw [hcalls]
      exact List.mem_cons_of_mem _ hother
    obtain ⟨c', htame, hcost⟩ := htaken.conclude m.now call (.unknownKind call.kind)
    refine ⟨rfl, hlast htame (Nat.lt_of_le_of_lt hcost ?_)⟩
    simp only [RunView.cost, hcalls, List.map_cons, List.sum_cons]
    omega

end RunView

end Blueprint

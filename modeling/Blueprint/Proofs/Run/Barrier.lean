import Blueprint.Proofs.Run.Branches
import Blueprint.Proofs.Run.Finishing

/-!
Sequences that join their branches are barriers. Such a node holds a ticket for each of its branches
that is pending, and no other (`RunView.Covered`). So it is let go just when all of them have
completed; then everything below them has completed too, the nodes there have returned, and the next
thing that the node does is to go on through `completed` (`Machine.joined_of_records`). Without a
place for tasks the node is not run, so it does not go on then (`Machine.not_all_continue`).
-/

set_option autoImplicit false

namespace Blueprint

variable {registry : Registry} {journal told : List Deed} {call : NodeCall} {pins : List String}

/-- Nothing more is told of a sequence that joins its branches while it joins them. -/
theorem NodeCall.JoinStage.ownDeeds_eq {tickets : List Nat} {next : Behaviour}
    (h : call.JoinStage pins (ownDeeds call.scope (journal ++ told)) (some (.joining tickets next)))
    (hall : (ownDeeds call.scope journal).length = pins.length) :
    ownDeeds call.scope (journal ++ told) = ownDeeds call.scope journal := by
  have hlength := h.of_joining.1
  rw [ownDeeds_append] at hlength ⊢
  rw [List.length_append, hall] at hlength
  have hnone : ownDeeds call.scope told = [] := List.length_eq_zero_iff.mp (by omega)
  rw [hnone, List.append_nil]

theorem mem_ownDeeds {pin : String} {outcome : Except EngineError Nat} :
    .triggered call pin outcome ∈ ownDeeds call.scope journal ↔
      .triggered call pin outcome ∈ journal := by
  rw [ownDeeds, List.mem_filter]
  exact and_iff_left (beq_iff_eq.mpr rfl)

/-- The node on one scope has started a branch on another, by what is told. -/
def IsBranch (journal : List Deed) (child parent : Nat) : Prop :=
  ∃ call pin, .triggered call pin (.ok child) ∈ journal ∧ call.scope = parent

/-- One scope is another one, or below it. -/
def Below (journal : List Deed) : Nat → Nat → Prop := Relation.ReflTransGen (IsBranch journal)

namespace RunView

variable {m m' : Machine} {run : RunId} {v after : RunView} {c later : Context} {provider : Provider}
  {history : List (String × Value)} {tickets : List Nat} {low high : Nat}

/-- The tickets of a node are for its branches, and it has one for each that is pending. -/
structure Covers (journal : List Deed) (v : RunView) (call : NodeCall) (tickets : List Nat) :
    Prop where
  held : ∀ pin scope, .triggered call pin (.ok scope) ∈ journal → v.Pending scope →
    ∃ c, v.context = some c ∧ ∃ ticket ∈ tickets, (scope, ticket) ∈ c.tracker.waiters
  own : ∀ c, v.context = some c → ∀ waiter ∈ c.tracker.waiters, waiter.2 ∈ tickets →
    ∃ pin, .triggered call pin (.ok waiter.1) ∈ journal

/-- So it is for all sequences that join their branches. -/
def Covered (registry : Registry) (journal : List Deed) (v : RunView) : Prop :=
  ∀ a ∈ v.activities, ∀ tickets next pins, a.progress = .joining tickets next →
    a.call.Joins registry pins → v.Covers journal a.call tickets

/-- Assumes: tickets that were given out, for branches that were, and no more branches. -/
theorem Covers.onward (h : v.Covers journal call tickets) (hcontext : v.context = some c)
    (hlater : after.context = some later) (honward : c.tracker.Onward v.Given low high later.tracker)
    (hold : ∀ ticket ∈ tickets, ticket < low)
    (hgiven : ∀ pin scope, .triggered call pin (.ok scope) ∈ journal → v.Given scope)
    (hsame : ownDeeds call.scope (journal ++ told) = ownDeeds call.scope journal) :
    after.Covers (journal ++ told) call tickets := by
  have hdeeds (pin : String) (outcome : Except EngineError Nat) :
      .triggered call pin outcome ∈ journal ++ told ↔ .triggered call pin outcome ∈ journal := by
    rw [← mem_ownDeeds, hsame, mem_ownDeeds]
  constructor
  case held =>
    rintro pin scope hdeed ⟨c', hc', hpending⟩
    obtain rfl := Option.some.inj (hlater.symm.trans hc')
    have hdeed := (hdeeds pin _).mp hdeed
    have hbefore := honward.pending scope (hgiven pin scope hdeed) hpending
    obtain ⟨was, hwas, ticket, hticket, hwaiter⟩ := h.held pin scope hdeed ⟨c, hcontext, hbefore⟩
    obtain rfl := Option.some.inj (hcontext.symm.trans hwas)
    exact ⟨later, hlater, ticket, hticket,
      honward.waits _ hwaiter (hgiven pin scope hdeed) hpending⟩
  case own =>
    intro c' hc' waiter hwaiter hticket
    obtain rfl := Option.some.inj (hlater.symm.trans hc')
    rcases honward.fresh waiter hwaiter with hbefore | ⟨hlow, -⟩
    · obtain ⟨pin, hdeed⟩ := h.own c hcontext waiter hbefore hticket
      exact ⟨pin, (hdeeds pin _).mpr hdeed⟩
    · exact absurd (hold _ hticket) (Nat.not_lt.mpr hlow)

/-- Assumes: tickets that were taken just now, for all the branches of a node. -/
theorem TakesTickets.covers {scopes : List Nat} (h : TakesTickets m m' c after scopes tickets)
    (hcontext : v.context = some c) (hticketed : v.Ticketed m.nextTicket)
    (hlength : scopes.length = pins.length)
    (hown : ownDeeds call.scope journal = call.started pins scopes) :
    after.Covers journal call tickets := by
  obtain ⟨held, rfl, hheld, hall, hlater⟩ := h.taken
  constructor
  case held =>
    rintro pin scope hdeed ⟨c', hc', hpending⟩
    obtain rfl := Option.some.inj (hlater.symm.trans hc')
    rw [← mem_ownDeeds, hown] at hdeed
    obtain ⟨waiter, hwaiter, rfl⟩ := hall scope (NodeCall.mem_of_started hdeed) hpending
    exact ⟨_, hlater, waiter.2, List.mem_map_of_mem hwaiter, List.mem_append_right _ hwaiter⟩
  case own =>
    intro c' hc' waiter hwaiter hticket
    obtain rfl := Option.some.inj (hlater.symm.trans hc')
    rcases List.mem_append.mp hwaiter with hbefore | hnew
    · -- Tickets that were held before are not new.
      obtain ⟨other, hother, heq⟩ := List.mem_map.mp hticket
      have hlt := (hticketed.waiters c hcontext waiter hbefore).2
      exact absurd (heq ▸ (hheld other hother).2.1) (Nat.not_le.mpr hlt)
    · obtain ⟨pin, hdeed⟩ := NodeCall.exists_pin_started hlength (hheld waiter hnew).1
      exact ⟨pin, mem_ownDeeds.mp (hown ▸ hdeed)⟩

/-- Assumes: a run that was started, and a scope that was given out. -/
theorem Passes.settled (h : Passes m m' run v after) (hsound : Sound provider run history after)
    (hstarted : ¬ v.Idle) {scope : Nat} (hgiven : v.Given scope) (hpending : after.Pending scope) :
    v.Pending scope := by
  cases h with
  | idle hidle =>
    obtain ⟨c, hcontext, hwaits⟩ := hpending
    have hunused := (hsound.unstarted c hcontext (hidle c hcontext)).tracker.pending scope
    rw [Tracker.isPending, Table.contains, hunused] at hwaits
    cases hwaits
  | begun hidle => exact absurd hidle hstarted
  | rested hcontext hsame => exact (pending_congr hcontext rfl hsame scope).mp hpending
  | worked hcontext hlabour =>
    obtain ⟨later, hlater, honward, -⟩ := (hlabour.onward hcontext).tracker _ hcontext
    obtain ⟨c', hc', hwaits⟩ := hpending
    obtain rfl := Option.some.inj (hlater.symm.trans hc')
    exact ⟨_, hcontext, honward.pending scope hgiven hwaits⟩

theorem Begins.joining {graphs : Table Nat Graph} {inputs : Inputs} {lost : List Nat} {b : Activity}
    {next : Behaviour} (h : Begins m m' run graphs v c inputs after lost) (hb : b ∈ after.activities)
    (hprogress : b.progress = .joining tickets next) : b ∈ v.activities := by
  cases h with
  | refused | nodeless => exact hb
  | entered graph entry bindings hgraph hentry hinvokes => exact hinvokes.joining hb hprogress

end RunView

namespace Machine

variable {m m' blank : Machine} {run : RunId} {journals more : RunId → List Deed} {c : Context}
  {history : RunId → List (String × Value)} {a : Activity}

theorem mem_working (ha : a ∈ (m.view run).activities) :
    (a.call, some a.progress) ∈ (m.standing run 0).working :=
  Multiset.mem_add.mpr (Or.inr (RunView.mem_works_of_activity ha))

/-- An invocation is at work, or it has ended. -/
theorem mem_works_or_outcomes {earlier : List (NodeCall × Ending × Bool)}
    (htold : Standing.Told registry journal earlier (m.standing run 0))
    (htasks : (m.standing run 0).hasTasks = true) (hcall : call ∈ invocations journal) :
    (∃ work ∈ (m.view run).works, work.1 = call) ∨ call ∈ (outcomes journal).map (·.1) := by
  have hmem : call ∈ (invocations journal : Multiset NodeCall) := hcall
  rw [← htold.balance htasks] at hmem
  refine (Multiset.mem_add.mp hmem).imp (fun hwork ↦ ?_) id
  obtain ⟨work, hwork, heq⟩ := Multiset.mem_map.mp hwork
  exact ⟨work, (Multiset.zero_add (m.view run).works) ▸ hwork, heq⟩

theorem covered_of_occurs (h : m.Sound history) (hnext : Occurs m m' more)
    (hstaged : Standing.Staged registry journal (m.standing run 0))
    (hlater : Standing.Staged registry (journal ++ more run) (m'.standing run 0))
    (hticketed : (m.view run).Ticketed m.nextTicket) (hstemmed : (m.view run).Stemmed journal)
    (hcovered : (m.view run).Covered registry journal) :
    (m'.view run).Covered registry (journal ++ more run) := by
  obtain ⟨written, hhappens⟩ := hnext.happens
  have hsound := (h.happens hhappens).views run
  have hpasses := (alters_of_happens h.housed hhappens run).passes (h.views run)
  intro b hb tickets next pins hprogress hjoins
  have hstage := hlater.stages _ (mem_working hb) pins hjoins
  rw [hprogress] at hstage
  -- A node that has joined its branches before.
  have hkept (hb : b ∈ (m.view run).activities) {c later : Context}
      (hcontext : (m.view run).context = some c) (hlater : (m'.view run).context = some later)
      (honward : c.tracker.Onward (m.view run).Given m.nextTicket m'.nextTicket later.tracker) :
      (m'.view run).Covers (journal ++ more run) b.call tickets := by
    have hbefore := hstaged.stages _ (mem_working hb) pins hjoins
    rw [hprogress] at hbefore
    exact (hcovered b hb tickets next pins hprogress hjoins).onward hcontext hlater honward
      (hticketed.tickets b hb tickets next hprogress)
      (fun pin scope hdeed active hactive ↦
        (hstemmed.parent b.call pin scope hdeed active hactive).1)
      (hstage.ownDeeds_eq hbefore.of_joining.1)
  generalize hafter : m'.view run = after at hpasses hb hkept hsound ⊢
  cases hpasses with
  | idle hidle =>
    rw [(hsound.quiet_of_idle hidle).1] at hb
    cases hb
  | begun hidle hunstarted hbegins =>
    have hmem := hbegins.joining hb hprogress
    rw [hunstarted.quiet.1] at hmem
    cases hmem
  | @rested c later active hcontext hpending hwaiters =>
    refine hkept hb hcontext rfl (.of_eq (fun scope ↦ ?_) hwaiters)
    rw [Tracker.isPending, hpending, Tracker.isPending]
  | @worked _ c _ _ hcontext hlabour =>
    rcases hlabour.joining hb hprogress with hold | ⟨a, ha, hcall, scopes, hresumes, htakes⟩
    · obtain ⟨later, hlater, honward, -⟩ := (hlabour.onward hcontext).tracker c hcontext
      exact hkept hold hcontext hlater honward
    · have hbefore := hstaged.stages _ (mem_working ha) pins (hcall ▸ hjoins)
      rw [hcall] at hbefore
      obtain ⟨hlength, hown⟩ := hbefore.starting_of_join hresumes
      refine htakes.covers hcontext hticketed hlength ?_
      rw [hstage.ownDeeds_eq (by rw [hown, NodeCall.length_started hlength]), hown]

/-- In every machine that can be reached, sequences that join their branches hold tickets for just
those that are pending. -/
theorem covered_of_records (hblank : m.Blank) (hrecords : Records m m' journals) (run : RunId) :
    (m'.view run).Covered m.provider.registry (journals run) := by
  induction hrecords with
  | refl =>
    intro a ha
    rw [((hblank.sound.views run).quiet_of_idle (hblank.idle run)).1] at ha
    cases ha
  | next hrecords hnext ih =>
    obtain ⟨history, hleads⟩ := hrecords.leads
    exact covered_of_occurs (hblank.leads hleads) hnext (staged_of_records hblank hrecords run)
      (staged_of_records hblank (hrecords.next hnext) run)
      (ticketed_of_records hblank hrecords run).1 (stemmed_of_records hblank hrecords run) ih

/-! ### Scopes that have completed -/

/-- A branch that has completed is not pending again. -/
theorem settled_of_later (hblank : blank.Blank) (hrecords : Records blank m journals)
    {later : Machine} (hlater : Records m later more) {pin : String} {scope : Nat}
    (hdeed : .triggered call pin (.ok scope) ∈ journals run)
    (hdone : ¬ (m.view run).Pending scope) : ¬ (later.view run).Pending scope := by
  induction hlater with
  | refl => exact hdone
  | @next middle later between more hbetween hnext ih =>
    have hmiddle := hrecords.trans hbetween
    obtain ⟨history, hleads⟩ := hmiddle.leads
    obtain ⟨written, hhappens⟩ := hnext.happens
    have hsound := hblank.leads hleads
    have hpasses := (alters_of_happens hsound.housed hhappens run).passes (hsound.views run)
    have hdeed := List.mem_append_left (between run) hdeed
    have hgiven : (middle.view run).Given scope := fun active hactive ↦
      ((stemmed_of_records hblank hmiddle run).parent _ _ _ hdeed active hactive).1
    have hstarted : ¬ (middle.view run).Idle := fun hidle ↦ by
      rw [(told_of_idle (told_of_records hblank hmiddle run) hidle).1] at hdeed
      cases hdeed
    exact fun hpending ↦
      ih (hpasses.settled ((hsound.happens hhappens).views run) hstarted hgiven hpending)

/-- Where no scope is pending, none below it is, and the nodes there have returned. -/
theorem returned_of_below {below scope : Nat} {earlier : List (NodeCall × Ending × Bool)}
    (htold : Standing.Told registry journal earlier (m.standing run 0))
    (hstemmed : (m.view run).Stemmed journal) (htasks : (m.standing run 0).hasTasks = true)
    (hbelow : Below journal below scope) (hdone : ¬ (m.view run).Pending scope) :
    ¬ (m.view run).Pending below ∧
      ∀ call ∈ invocations journal, call.scope = below → call ∈ (outcomes journal).map (·.1) := by
  have hclear : ¬ (m.view run).Pending below := by
    induction hbelow using Relation.ReflTransGen.head_induction_on with
    | refl => exact hdone
    | head hbranch hrest ih =>
      obtain ⟨call, pin, hdeed, rfl⟩ := hbranch
      exact fun hpending ↦ ih (hstemmed.below call pin _ hdeed hpending)
  refine ⟨hclear, fun call hcall hscope ↦ ?_⟩
  refine (mem_works_or_outcomes htold htasks hcall).resolve_left ?_
  rintro ⟨work, hwork, rfl⟩
  exact hclear (hscope ▸ hstemmed.held work hwork)

/-! ### Joining -/

/-- A node has started all its branches; they have completed with everything below them, and all
nodes there have returned. -/
def BranchesOver (c : Context) (journal : List Deed) (call : NodeCall) (pins : List String) : Prop :=
  ∃ scopes, scopes.length = pins.length ∧
    ownDeeds call.scope journal = call.started pins scopes ∧
    ∀ scope ∈ scopes, ∀ below, Below journal below scope → c.tracker.isPending below = false ∧
      ∀ other ∈ invocations journal, other.scope = below → other ∈ (outcomes journal).map (·.1)

/-- What holds of an invocation of a sequence that joins its branches, on a machine with the journal
of its run. -/
structure Joined (m : Machine) (run : RunId) (c : Context) (journal : List Deed) (call : NodeCall)
    (pins : List String) : Prop where
  /-- The node triggers its pins in order and then `completed`, each once. -/
  order : call.InOrder pins (ownDeeds call.scope journal)
  /-- What it triggers after its pins it triggers when its branches are over. -/
  barrier : ∀ later more, Occurs m later more → ∀ pin outcome,
    .triggered call pin outcome ∈ more run → (ownDeeds call.scope journal).length = pins.length →
    pin = "completed" ∧ BranchesOver c journal call pins
  /-- It never goes on when a pin of its branches is not declared. -/
  undeclared : ∀ active, (m.view run).active = some active →
    ∀ pin ∈ pins, active.graph.target? call.node pin = none →
    ∀ later more, Records m later more →
      (ownDeeds call.scope (journal ++ more run)).length ≤ pins.length
  /-- When the pins are declared it does not end before it has gone on, while the run is under way. -/
  completed : ∀ active, (m.view run).active = some active →
    (∀ pin ∈ pins, active.graph.target? call.node pin ≠ none) →
    call ∈ (outcomes journal).map (·.1) → ∃ scopes outcome, scopes.length = pins.length ∧
      ownDeeds call.scope journal =
        call.started pins scopes ++ [.triggered call "completed" outcome]
  /-- A branch that has completed stays so. -/
  settled : ∀ pin scope, .triggered call pin (.ok scope) ∈ journal →
    c.tracker.isPending scope = false → ∀ later more, Records m later more →
    ∀ c', later.context? run = some c' → c'.tracker.isPending scope = false
  /-- Until it has ended it is at work, if there is a place for tasks, and it can go on unless some
  branch has not completed. -/
  awake : c.hasTasks = true → call ∉ (outcomes journal).map (·.1) →
    ∃ a, m.AtWork run a ∧ a.call = call ∧
      (m.canGoOn a = true ∨ ∃ pin scope, .triggered call pin (.ok scope) ∈ journal ∧
        c.tracker.isPending scope = true)
  /-- Once it can go on after it has waited, it goes on in its next move. -/
  goesOn : ∀ a tickets next, a.run = run → a.call = call → a.progress = .joining tickets next →
    m.canGoOn a = true →
    (∀ home rest, m.frames = .node a home :: rest → ∃ outcome later,
      m.deeds run .advance = .triggered call "completed" outcome :: later) ∧
    ∀ task rest, m.frames = [] → takeTask task m.tasks = some (a, rest) → ∃ outcome later,
      (m.step (.poll task)).deeds run .advance = .triggered call "completed" outcome :: later

section

variable {registry : Registry} {earlier : List (NodeCall × Ending × Bool)}

/-- Assumes: a node that joins its branches, and can go on. All of them have completed. -/
theorem not_pending_of_canGoOn {tickets : List Nat} {next : Behaviour}
    (hcontext : m.context? a.run = some c) (hcovers : (m.view a.run).Covers journal a.call tickets)
    (hprogress : a.progress = .joining tickets next) (hcan : m.canGoOn a = true) {pin : String}
    {scope : Nat} (hdeed : .triggered a.call pin (.ok scope) ∈ journal) :
    ¬ (m.view a.run).Pending scope := by
  intro hpending
  obtain ⟨c', hc', ticket, hticket, hwaiter⟩ := hcovers.held pin scope hdeed hpending
  obtain rfl := Option.some.inj ((show (m.view a.run).context = some c from hcontext).symm.trans hc')
  simp only [canGoOn, hprogress, hcontext] at hcan
  have hfree := List.all_eq_true.mp hcan ticket hticket
  rw [Bool.not_eq_true', ← Bool.not_eq_true] at hfree
  exact hfree (List.any_eq_true.mpr ⟨_, hwaiter, beq_self_eq_true ticket⟩)

/-- Assumes: a node that joins its branches, and cannot go on. Some branch has not completed. -/
theorem exists_pending_of_not_canGoOn {tickets : List Nat} {next : Behaviour}
    (hcontext : m.context? a.run = some c) (hcovers : (m.view a.run).Covers journal a.call tickets)
    (hticketed : (m.view a.run).Ticketed m.nextTicket)
    (hprogress : a.progress = .joining tickets next) (hcan : m.canGoOn a = false) :
    ∃ pin scope, .triggered a.call pin (.ok scope) ∈ journal ∧ c.tracker.isPending scope = true := by
  have hview : (m.view a.run).context = some c := hcontext
  simp only [canGoOn, hprogress, hcontext] at hcan
  obtain ⟨ticket, hticket, hheld⟩ := List.all_eq_false.mp hcan
  rw [Bool.not_eq_true', Bool.not_eq_false] at hheld
  obtain ⟨waiter, hwaiter, heq⟩ := List.any_eq_true.mp hheld
  have hmem : waiter.2 ∈ tickets := (beq_iff_eq.mp heq) ▸ hticket
  obtain ⟨pin, hdeed⟩ := hcovers.own c hview waiter hwaiter hmem
  exact ⟨pin, waiter.1, hdeed, (hticketed.waiters c hview waiter hwaiter).1⟩

/-- Assumes: a node that can go on and waits for its branches, or did. It has started all of them and
goes on through `completed`. -/
theorem Triggering.continues {home : Option Nat} {rest : List Frame} {pin : String}
    {next : Except EngineError Nat → Behaviour} {resting : Machine}
    (h : m.Triggering a home rest pin next resting) (hhoused : m.Housed)
    (hjoins : a.call.Joins registry pins)
    (hstaged : Standing.Staged registry journal (m.standing a.run 0))
    (hall : (ownDeeds a.call.scope journal).length = pins.length) :
    pin = "completed" ∧ ∃ scopes tickets, scopes.length = pins.length ∧
      ownDeeds a.call.scope journal = a.call.started pins scopes ∧
      a.progress = .joining tickets (.thenTrigger "completed") := by
  obtain ⟨c, hrests⟩ := h.requesting.rests hhoused
  exact (hstaged.stages _ (mem_working h.mem_activities) pins hjoins).waiting_of_trigger
    hrests.resumed.resumes hall

/-- A node that waited for its branches and is let go. -/
theorem triggering_of_joining {home : Option Nat} {rest : List Frame} {tickets : List Nat}
    {next : Behaviour} (hframes : m.frames = .node a home :: rest) (hcan : m.canGoOn a = true)
    (hprogress : a.progress = .joining tickets next)
    (hstage : a.call.JoinStage pins (ownDeeds a.call.scope journal) (some a.progress)) :
    ∃ outcome later, m.deeds a.run .advance = .triggered a.call "completed" outcome :: later := by
  rw [hprogress] at hstage
  obtain ⟨-, rfl⟩ := hstage.of_joining
  have htriggering : m.Triggering a home rest "completed" _ { m with frames := rest } :=
    ⟨hframes, hcan, by rw [hprogress]; rfl⟩
  obtain ⟨later, hdeeds⟩ := htriggering.deeds_eq
  exact ⟨_, later, hdeeds⟩

end

theorem pending_view_iff (hcontext : m.context? run = some c) (scope : Nat) :
    (m.view run).Pending scope ↔ c.tracker.isPending scope = true := by
  have hview : (m.view run).context = some c := hcontext
  simp only [RunView.Pending, hview, Option.some.injEq, exists_eq_left']

theorem isPending_eq_false (hcontext : m.context? run = some c) {scope : Nat}
    (hdone : ¬ (m.view run).Pending scope) : c.tracker.isPending scope = false :=
  (Bool.not_eq_true _).mp fun hwaits ↦ hdone ((pending_view_iff hcontext scope).mpr hwaits)

section

variable {later : Machine} (hblank : blank.Blank) (hrecords : Records blank m journals)
  (hjoins : call.Joins blank.provider.registry pins)

include hblank hrecords hjoins

/-- A node goes on when its branches are over. -/
theorem over_of_triggered (hcontext : m.context? run = some c) (hnext : Occurs m later more)
    {pin : String} {outcome : Except EngineError Nat}
    (hdeed : .triggered call pin outcome ∈ more run)
    (hall : (ownDeeds call.scope (journals run)).length = pins.length) :
    pin = "completed" ∧ BranchesOver c (journals run) call pins := by
  obtain ⟨history, hleads⟩ := hrecords.leads
  obtain ⟨-, a, home, rest, next, resting, htriggering, rfl, rfl, -⟩ :=
    triggering_of_occurs hnext hdeed
  obtain ⟨rfl, scopes, tickets, hlength, hown, hprogress⟩ :=
    htriggering.continues (hblank.leads hleads).housed hjoins
      (staged_of_records hblank hrecords a.run) hall
  have htasks : c.hasTasks = true := by
    -- Elsewhere only sync nodes are at work.
    by_contra hnone
    obtain ⟨kind, hkind, hmode⟩ := sync_of_records hblank hrecords hcontext
      ((Bool.not_eq_true _).mp hnone) htriggering.mem_activities
    obtain rfl := Option.some.inj (hkind.symm.trans hjoins.kind)
    cases hmode
  have hplace : (m.standing a.run 0).hasTasks = true := by
    rw [standing_eq hcontext]
    exact htasks
  have hcovers := covered_of_records hblank hrecords a.run a htriggering.mem_activities tickets _ pins
    hprogress hjoins
  refine ⟨rfl, scopes, hlength, hown, fun scope hscope below hbelow ↦ ?_⟩
  obtain ⟨pin, hbranch⟩ := NodeCall.exists_pin_started hlength hscope
  have hdone := not_pending_of_canGoOn hcontext hcovers hprogress htriggering.can
    (mem_ownDeeds.mp (hown ▸ hbranch))
  obtain ⟨hdone, hreturned⟩ := returned_of_below (told_of_records hblank hrecords a.run)
    (stemmed_of_records hblank hrecords a.run) hplace hbelow hdone
  exact ⟨isPending_eq_false hcontext hdone, hreturned⟩

theorem length_le_of_undeclared (hcall : call ∈ invocations (journals run)) {active : ActiveRun}
    (hactive : (m.view run).active = some active) {pin : String} (hpin : pin ∈ pins)
    (hnone : active.graph.target? call.node pin = none) (hlater : Records m later more) :
    (ownDeeds call.scope (journals run ++ more run)).length ≤ pins.length := by
  obtain ⟨history, hleads⟩ := hrecords.leads
  have hwires := wires_of_later (hblank.leads hleads) (wires_of_records hblank hrecords hactive) hlater
  have hcall : call ∈ invocations (journals run ++ more run) := by
    rw [invocations_append]
    exact List.mem_append_left _ hcall
  have htold := (staged_of_records hblank (hrecords.trans hlater) run).told call hcall pins hjoins
  by_contra hmore
  obtain ⟨scopes, outcome, hlength, hown⟩ := htold.continued (Nat.lt_of_not_le hmore)
  obtain ⟨scope, hbranch⟩ := NodeCall.exists_scope_started hlength hpin
  have hdeed := mem_ownDeeds.mp (hown ▸ List.mem_append_left _ hbranch)
  exact hwires.declared call pin scope hdeed hnone

/-- Assumes: pins that are declared, in a run under way. A node that has ended has gone on. -/
theorem continued_of_declared {active : ActiveRun} (hactive : (m.view run).active = some active)
    (hdeclared : ∀ pin ∈ pins, active.graph.target? call.node pin ≠ none)
    (hended : call ∈ (outcomes (journals run)).map (·.1)) :
    ∃ scopes outcome, scopes.length = pins.length ∧ ownDeeds call.scope (journals run) =
      call.started pins scopes ++ [.triggered call "completed" outcome] := by
  have hwires := wires_of_records hblank hrecords hactive
  obtain ⟨outcome, houtcome, rfl⟩ := List.mem_map.mp hended
  have hover := (staged_of_records hblank hrecords run).finished outcome houtcome pins hjoins
  generalize hown : ownDeeds outcome.1.scope (journals run) = own at hover
  cases hover with
  | @refused first rest pin scopes error hpins hlength =>
    have hdeed := mem_ownDeeds.mp (hown ▸ List.mem_append_right _ List.mem_cons_self)
    rcases hwires.refused _ pin error hdeed with hnone | hnone
    · exact absurd hnone (hdeclared pin (hpins ▸ List.mem_append_right _ List.mem_cons_self))
    · cases hnone.symm.trans hactive
  | continued hlength => exact ⟨_, _, hlength, rfl⟩

/-- A node that has not ended is at work. It can go on unless it waits for a branch. -/
theorem atWork_of_not_ended (hcontext : m.context? run = some c) (htasks : c.hasTasks = true)
    (hcall : call ∈ invocations (journals run))
    (hgoing : call ∉ (outcomes (journals run)).map (·.1)) :
    ∃ a, m.AtWork run a ∧ a.call = call ∧ (m.canGoOn a = true ∨
      ∃ pin scope, .triggered call pin (.ok scope) ∈ journals run ∧
        c.tracker.isPending scope = true) := by
  have hplace : (m.standing run 0).hasTasks = true := by
    rw [standing_eq hcontext]
    exact htasks
  obtain ⟨hticketed, hinline⟩ := ticketed_of_records hblank hrecords run
  obtain ⟨work, hwork, rfl⟩ :=
    (mem_works_or_outcomes (told_of_records hblank hrecords run) hplace hcall).resolve_right hgoing
  rcases List.mem_append.mp (Multiset.mem_coe.mp hwork) with hqueued | hactivity
  · -- A sequence is not a sync node, so its call is not on the queue.
    obtain ⟨queued, hmem, rfl⟩ := List.mem_map.mp hqueued
    obtain ⟨kind, hkind, hmode⟩ := hinline.onQueue queued hmem
    obtain rfl := Option.some.inj (hkind.symm.trans hjoins.kind)
    cases hmode
  · obtain ⟨a, ha, rfl⟩ := List.mem_map.mp hactivity
    have hatWork := mem_activities_view.mp ha
    obtain rfl := hatWork.1
    refine ⟨a, hatWork, rfl, ?_⟩
    cases hcan : m.canGoOn a with
    | true => exact Or.inl rfl
    | false =>
      have hstage : a.call.JoinStage pins (ownDeeds a.call.scope (journals a.run))
          (some a.progress) :=
        (staged_of_records hblank hrecords a.run).stages _ (mem_working ha) pins hjoins
      generalize hprogress : a.progress = progress at hstage
      generalize ownDeeds a.call.scope (journals a.run) = own at hstage
      cases hstage with
      | waiting hlength =>
        exact Or.inr (exists_pending_of_not_canGoOn hcontext
          (covered_of_records hblank hrecords a.run a ha _ _ pins hprogress hjoins) hticketed
          hprogress hcan)
      | _ => simp [canGoOn, hprogress] at hcan

/-- A node that is let go goes on, be it on the frames or on a task that is polled. -/
theorem continues_of_canGoOn {tickets : List Nat} {next : Behaviour} (ha : a.run = run)
    (hcall : a.call = call) (hprogress : a.progress = .joining tickets next)
    (hcan : m.canGoOn a = true) :
    (∀ home rest, m.frames = .node a home :: rest → ∃ outcome later,
      m.deeds run .advance = .triggered call "completed" outcome :: later) ∧
    ∀ task rest, m.frames = [] → takeTask task m.tasks = some (a, rest) → ∃ outcome later,
      (m.step (.poll task)).deeds run .advance = .triggered call "completed" outcome :: later := by
  subst ha hcall
  have hstage (ha : m.AtWork a.run a) :=
    (staged_of_records hblank hrecords a.run).stages _ (mem_working (mem_activities_view.mpr ha)) pins
      hjoins
  refine ⟨fun home rest hframes ↦ ?_, fun task rest hframes hfound ↦ ?_⟩
  · exact triggering_of_joining hframes hcan hprogress
      (hstage ⟨rfl, Or.inl ⟨home, hframes ▸ List.mem_cons_self⟩⟩)
  · obtain ⟨before, after, htasks, -⟩ := takeTask_eq_some hfound
    rw [show m.step (.poll task) = _ from poll_eq hframes hfound hcan]
    exact triggering_of_joining rfl hcan hprogress
      (hstage ⟨rfl, Or.inr ⟨task, by simp [htasks]⟩⟩)

end

/-- In every machine that can be reached, and for every invocation of a sequence that joins its
branches. -/
theorem joined_of_records (hblank : blank.Blank) (hrecords : Records blank m journals)
    (hcontext : m.context? run = some c) (hjoins : call.Joins blank.provider.registry pins)
    (hcall : call ∈ invocations (journals run)) : m.Joined run c (journals run) call pins where
  order := ((staged_of_records hblank hrecords run).told call hcall pins hjoins).inOrder
  barrier := fun _ _ hnext _ _ ↦ over_of_triggered hblank hrecords hjoins hcontext hnext
  undeclared := fun _ hactive _ hpin hnone _ _ ↦
    length_le_of_undeclared hblank hrecords hjoins hcall hactive hpin hnone
  completed := fun _ ↦ continued_of_declared hblank hrecords hjoins
  settled := fun pin scope hdeed hdone later more hlater c' hlaterContext ↦ by
    rw [← Bool.not_eq_true, ← pending_view_iff hcontext] at hdone
    exact isPending_eq_false hlaterContext (settled_of_later hblank hrecords hlater hdeed hdone)
  awake := fun htasks ↦ atWork_of_not_ended hblank hrecords hjoins hcontext htasks hcall
  goesOn := fun _ _ _ ↦ continues_of_canGoOn hblank hrecords hjoins

/-- The invocation of the sequence in a small graph. -/
def forkCall : NodeCall where
  scope := rootScope
  node := "fork"
  kind := "sequence"
  params := .object [("count", .ofInt 3), ("join", .bool true)]

/-- The sequence of a small graph has waited for its three branches, of which two have run a node, and
is about to go on. So the branches have completed. -/
theorem joined_of_forked :
    let m := forkedStarted.run (.poll 0 :: List.replicate 16 .advance)
    ∃ journals c, Records forked m journals ∧ m.context? 1 = some c ∧
      m.Joined 1 c (journals 1) forkCall ["then_0", "then_1", "then_2"] ∧
      ownDeeds forkCall.scope (journals 1) =
        forkCall.started ["then_0", "then_1", "then_2"] [1, 3, 5] ∧
      .triggered forkCall "completed" (.ok 6) ∈ m.deeds 1 .advance ∧
      ∀ scope ∈ [1, 3, 5], ∀ below, Below (journals 1) below scope →
        c.tracker.isPending below = false := by
  intro m
  obtain ⟨journals, hrecords, hjournal⟩ :=
    records_forked (.poll 0 :: List.replicate 16 .advance)
  obtain ⟨c, hcontext⟩ := Option.isSome_iff_exists.mp (show (m.context? 1).isSome = true from rfl)
  have hcall : forkCall ∈ invocations (journals 1) := by
    have hfirst : (invocations (journals 1)).head? = some forkCall := by
      rw [hjournal]
      rfl
    exact List.mem_of_mem_head? hfirst
  have hown : ownDeeds forkCall.scope (journals 1) =
      forkCall.started ["then_0", "then_1", "then_2"] [1, 3, 5] := by
    rw [hjournal]
    rfl
  have hdeed : .triggered forkCall "completed" (.ok 6) ∈ m.deeds 1 .advance := by
    have hfirst : (m.deeds 1 .advance).head? = some (.triggered forkCall "completed" (.ok 6)) := rfl
    exact List.mem_of_mem_head? hfirst
  have hjoined : m.Joined 1 c (journals 1) forkCall ["then_0", "then_1", "then_2"] :=
    joined_of_records forked_blank hrecords hcontext ⟨rfl, ⟨_, rfl, rfl⟩, rfl⟩ hcall
  refine ⟨journals, c, hrecords, hcontext, hjoined, hown, hdeed, fun scope hscope below hbelow ↦ ?_⟩
  obtain ⟨-, scopes, hlength, hstarted, hover⟩ :=
    hjoined.barrier _ _ (.moved .advance) _ _ hdeed (congrArg List.length hown)
  obtain ⟨pin, hbranch⟩ : ∃ pin, .triggered forkCall pin (.ok scope) ∈
      forkCall.started ["then_0", "then_1", "then_2"] [1, 3, 5] :=
    NodeCall.exists_pin_started rfl hscope
  rw [← hown, hstarted] at hbranch
  exact (hover scope (NodeCall.mem_of_started hbranch) below hbelow).1

/-! ### Without a place for tasks -/

theorem not_triggered_of_idle {pin : String} {outcome : Except EngineError Nat}
    (hframes : m.frames = []) (htasks : m.tasks = []) (schedule : List Move) :
    .triggered call pin outcome ∉ m.journalOf run schedule := by
  induction schedule generalizing m with
  | nil => nofun
  | cons move rest ih =>
    obtain ⟨now, hstep⟩ := run_of_idle hframes htasks [move]
    intro hdeed
    rcases List.mem_append.mp hdeed with hmove | hrest
    · obtain ⟨-, a, home, frames, next, resting, htriggering, -⟩ := triggering_of_deeds hmove
      cases hframes.symm.trans htriggering.frames
    · rw [show m.step move = { m with now } from hstep] at hrest
      exact ih (m := { m with now }) hframes htasks hrest

end Machine

namespace Graph

/-- A document of one sequence that joins its branches, and has none. -/
def branchlessDocument : GraphDocument where
  nodes := [
    { id := "s", kind := "sequence"
      params := .object [("count", .ofInt 0), ("join", .bool true)]
      links := [("completed", none)] }]

/-- What `branchlessDocument` is loaded to. -/
def branchless : Graph where
  version := none
  entry := some 0
  inputs := []
  outputs := []
  nodes := branchlessDocument.nodes
  index := .ofList [("s", 0)]

theorem branchless_accepted : branchless.Accepted := ⟨.standard, branchlessDocument, rfl⟩

end Graph

namespace Machine

/-- A machine on which the graph is loaded. -/
def branchless : Machine where
  provider := { fallback := .file none }
  world := { interpreter := { graphs := .ofList [(1, .branchless)] } }

theorem branchless_blank : branchless.Blank where
  context := fun _ ↦ rfl
  active := fun _ ↦ rfl
  frames := rfl
  tasks := rfl
  accepted := by
    intro handle g hget
    obtain ⟨-, rfl⟩ := Prod.mk.inj (List.mem_singleton.mp (Table.mem_of_get? hget))
    exact Graph.branchless_accepted
  aloof := fun _ hcache ↦ nomatch hcache

/-- The same machine with a run that was opened without a place for tasks. -/
def branchlessOpened : Machine :=
  (branchless.open_ { id := ⟨"branchless", by decide⟩, handle := 1, inputs := [], outputs := [] } {}
    false).2

/-- The same machine with the run started. -/
def branchlessStarted : Machine := (branchlessOpened.start 1 {}).2

/-- The invocation of its node. -/
def branchlessCall : NodeCall where
  scope := rootScope
  node := "s"
  kind := "sequence"
  params := .object [("count", .ofInt 0), ("join", .bool true)]

theorem records_branchless :
    ∃ journals, Records branchless branchlessStarted journals ∧
      journals 1 = [.invoked branchlessCall []] :=
  ⟨_, (Records.refl.next (.opened _ _ _)).next (.started 1 _ {} rfl rfl), rfl⟩

/-- Without a place for tasks, a sequence does not go on even if all its branches have completed. -/
theorem not_all_continue :
    ¬ ∀ (blank m : Machine) (journals : RunId → List Deed) (run : RunId) (active : ActiveRun)
      (call : NodeCall) (pins : List String), blank.Blank → Records blank m journals →
      (m.view run).active = some active → call.Joins blank.provider.registry pins →
      call ∈ invocations (journals run) →
      (∀ pin ∈ "completed" :: pins, active.graph.target? call.node pin ≠ none) →
      (∀ pin ∈ pins, ∃ scope, .triggered call pin (.ok scope) ∈ journals run ∧
        ¬ (m.view run).Pending scope) →
      ∃ schedule outcome, .triggered call "completed" outcome ∈
        journals run ++ m.journalOf run schedule := by
  intro hcontinues
  obtain ⟨journals, hrecords, hjournal⟩ := records_branchless
  obtain ⟨active, hactive⟩ := Option.isSome_iff_exists.mp
    (show (branchlessStarted.view 1).active.isSome = true from rfl)
  have hgraph : (branchlessStarted.view 1).active.map (·.graph) = some .branchless := rfl
  rw [hactive, Option.map_some, Option.some.injEq] at hgraph
  have hdeclared : Graph.branchless.target? branchlessCall.node "completed" = some none := rfl
  obtain ⟨schedule, outcome, hdeed⟩ := hcontinues branchless _ journals 1 active branchlessCall []
    branchless_blank hrecords hactive ⟨rfl, ⟨_, rfl, rfl⟩, rfl⟩ (hjournal ▸ List.mem_cons_self)
    (fun pin hpin ↦ by
      obtain rfl := List.mem_singleton.mp hpin
      rw [hgraph, hdeclared]
      exact Option.some_ne_none none)
    nofun
  rcases List.mem_append.mp hdeed with hbefore | hlater
  · rw [hjournal] at hbefore
    cases List.mem_singleton.mp hbefore
  · exact not_triggered_of_idle rfl rfl schedule hlater

end Machine

end Blueprint

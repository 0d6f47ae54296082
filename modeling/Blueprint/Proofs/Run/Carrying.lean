import Blueprint.Proofs.Interpreter.InputOrder
import Blueprint.Proofs.Node.Delivering
import Blueprint.Proofs.Run.Barrier

/-!
Values that are passed along exec edges. A node that delivers writes what it is after to pins of its
own, and then it starts a branch. Until it does, it stays on top of its run and goes on at once. So
no other node of the run does anything in between, and the pins hold what was written
(`RunView.Careful`, `Machine.careful_of_records`). A branch begins with the inputs of its first node;
those that are linked to such a pin are bound to what was written there, whatever was on the pins
before (`Machine.carries_of_records`).
-/

set_option autoImplicit false

namespace Blueprint

/-- What an invocation has written to a pin of its node, the last time that it did. -/
def NodeCall.written (call : NodeCall) (journal : List Deed) (pin : String) : Option Value :=
  lastPut call.node pin (ownDeeds call.scope journal)

/-- A node of a kind that delivers. -/
def NodeCall.Delivers (registry : Registry) (call : NodeCall) : Prop :=
  ∃ kind, registry.get? call.kind = some kind ∧ (kind.behaviour call).Delivers

/-- Nothing comes between what a node has written and its next request: the node is on top of its
run, it goes on at once, and the pins hold what it has written. -/
structure RunView.Carries (journal : List Deed) (v : RunView) (a : Activity) : Prop where
  top : ∃ home rest, v.frames = .node a home :: rest
  going : ∃ rest, a.progress = .going rest
  kept : ∀ pin value, a.call.written journal pin = some value →
    lastPut a.call.node pin journal = some value

/-- So it is with all nodes of a run that have something to deliver. -/
def RunView.Careful (registry : Registry) (journal : List Deed) (v : RunView) : Prop :=
  ∀ a ∈ v.activities, a.call.Delivers registry → Undelivered (ownDeeds a.call.scope journal) →
    v.Carries journal a

/-- The frames and the tasks of a run are as before, and no node of it has done anything. -/
structure RunView.Unmoved (v after : RunView) (told : List Deed) : Prop where
  frames : after.frames = v.frames
  tasks : after.tasks = v.tasks
  quiet : ∀ deed ∈ told, deed.scope? = none ∧ deed.puts = []

section

variable {registry : Registry} {journal told : List Deed} {call : NodeCall} {deed : Deed}
  {earlier : List (NodeCall × Ending × Bool)} {s later : Standing}

/-! ### What is told of a node -/

theorem mem_ownDeeds_iff {scope : Nat} :
    deed ∈ ownDeeds scope journal ↔ deed ∈ journal ∧ deed.scope? = some scope := by
  rw [ownDeeds, List.mem_filter, beq_iff_eq]

/-- Pins are as before if nothing is put on them. -/
theorem lastPut_append_of_quiet (node pin : String) (htold : ∀ deed ∈ told, deed.puts = []) :
    lastPut node pin (journal ++ told) = lastPut node pin journal := by
  have hnone : lastPut node pin told = none := by
    rw [lastPut, List.flatMap_eq_nil_iff.mpr htold]
    rfl
  rw [lastPut_append, hnone, Option.none_or]

/-- Where something was put, something was put last. -/
theorem flatMap_puts_ne_nil {node pin : String} {value : Value}
    (h : lastPut node pin journal = some value) : journal.flatMap Deed.puts ≠ [] := by
  intro hnone
  rw [lastPut, hnone] at h
  cases h

/-- An invocation that has something to deliver had it before, unless it writes. -/
theorem Undelivered.before (h : Undelivered (ownDeeds call.scope (journal ++ told)))
    (hquiet : ∀ deed ∈ told, ∀ scope, deed.scope? = some scope → deed.puts = []) :
    Undelivered (ownDeeds call.scope journal) := by
  obtain ⟨hwritten, huntriggered⟩ := h
  rw [ownDeeds_append] at hwritten huntriggered
  refine ⟨fun hnone ↦ hwritten ?_, fun deed hdeed ↦
    huntriggered deed (List.mem_append_left _ hdeed)⟩
  rw [List.flatMap_append, hnone, List.nil_append]
  refine List.flatMap_eq_nil_iff.mpr fun deed hdeed ↦ ?_
  obtain ⟨hmem, hscope⟩ := mem_ownDeeds_iff.mp hdeed
  exact hquiet deed hmem _ hscope

/-- Work comes from work that was there before, or it was invoked meanwhile. -/
theorem Standing.Steps.origin (h : Steps registry s told later) : ∀ work ∈ later.working,
    (∃ old ∈ s.working, old.1 = work.1) ∨ work.1 ∈ invocations told := by
  induction h with
  | refl => exact fun work hwork ↦ Or.inl ⟨work, hwork, rfl⟩
  | @next middle later told more hsteps hstep ih =>
    have hkept {work : Work} (hwork : ∃ old ∈ middle.working, old.1 = work.1) :
        (∃ old ∈ s.working, old.1 = work.1) ∨ work.1 ∈ invocations (told ++ more) := by
      obtain ⟨old, hold, heq⟩ := hwork
      rw [← heq, invocations_append]
      exact (ih old hold).imp_right (List.mem_append_left _)
    cases hstep with
    | opened | begun | skipped | closed => exact fun work hwork ↦ hkept ⟨work, hwork, rfl⟩
    | invoked call bound =>
      intro work hwork
      rcases Multiset.mem_cons.mp hwork with rfl | hwork
      · refine Or.inr ?_
        rw [invocations_append]
        exact List.mem_append_right _ List.mem_cons_self
      · exact hkept ⟨work, hwork, rfl⟩
    | taken call kind rest hworking | acted call rest hworking =>
      have hfirst : ∃ stage, (call, stage) ∈ middle.working := by
        rw [hworking]
        exact ⟨_, Multiset.mem_cons_self ..⟩
      obtain ⟨stage, hfirst⟩ := hfirst
      intro work hwork
      rcases Multiset.mem_cons.mp hwork with rfl | hwork
      · exact hkept ⟨_, hfirst, rfl⟩
      · exact hkept ⟨work, hworking ▸ Multiset.mem_cons_of_mem hwork, rfl⟩
    | ended call stage ending rest hworking | lost work rest hworking =>
      exact fun work hwork ↦ hkept ⟨work, hworking ▸ Multiset.mem_cons_of_mem hwork, rfl⟩

/-- Nothing was told of an invocation before it. -/
theorem Chronicle.ownDeeds_of_invoked {config : RunConfig}
    (h : Chronicle registry config (journal ++ told)) (hcall : call ∈ invocations told) :
    ownDeeds call.scope journal = [] := by
  refine h.left.ownDeeds_eq_nil fun other hother ↦ Nat.ne_of_lt ?_
  have hascend := h.scopes_ascend
  rw [invocations_append, List.map_append, List.pairwise_append] at hascend
  exact hascend.2.2 _ (List.mem_map_of_mem hother) _ (List.mem_map_of_mem hcall)

end

namespace Machine

variable {m m' : Machine} {run : RunId} {registry : Registry} {journal : List Deed}
  {earlier : List (NodeCall × Ending × Bool)} {journals more : RunId → List Deed}
  {history : RunId → List (String × Value)} {a b : Activity} {home : Option Nat}
  {rest : List Frame} {resting : Machine} {request : Behaviour}

/-- Assumes: a node at work that has something to deliver, and had it before. It was at work then. -/
theorem activity_of_undelivered (hsound : m.Sound history) (hnext : Occurs m m' more)
    (htold : Standing.Told registry journal earlier (m.standing run 0))
    (hlater : Standing.Told registry (journal ++ more run) earlier (m'.standing run 0))
    (hb : b ∈ (m'.view run).activities) (hown : Undelivered (ownDeeds b.call.scope journal)) :
    ∃ a ∈ (m.view run).activities, a.call = b.call := by
  rcases (steps_of_occurs hsound hnext run).origin _ (mem_working hb) with
    ⟨⟨call, stage⟩, hold, heq⟩ | hinvoked
  · obtain rfl : call = b.call := heq
    have hwork : (b.call, stage) ∈ (m.view run).works := Multiset.zero_add (m.view run).works ▸ hold
    rcases List.mem_append.mp (Multiset.mem_coe.mp hwork) with hqueued | hactivity
    · -- Nothing is told of a call that is on the queue.
      obtain ⟨call, -, heq⟩ := List.mem_map.mp hqueued
      obtain ⟨-, rfl⟩ := Prod.mk.inj heq
      have hnone : ownDeeds b.call.scope journal = [] := htold.stages _ hold
      rw [hnone] at hown
      exact absurd rfl hown.written
    · obtain ⟨a, ha, heq⟩ := List.mem_map.mp hactivity
      exact ⟨a, ha, (Prod.mk.inj heq).1⟩
  · rw [hlater.chronicle.ownDeeds_of_invoked hinvoked] at hown
    exact absurd rfl hown.written

/-! ### On top of a run -/

theorem unmoved_of_view {told : List Deed} (hview : m'.view run = m.view run)
    (htold : ∀ deed ∈ told, deed ∈ m.since m' run) : (m.view run).Unmoved (m'.view run) told where
  frames := by rw [hview]
  tasks := by rw [hview]
  quiet := fun deed hdeed ↦ quiet_of_since (htold deed hdeed)

/-- A move of another run does not move a run. -/
theorem unmoved_of_advance (hsound : m.Sound history) {frame : Frame} {below : List Frame}
    (hframes : m.frames = frame :: below) (hother : run ≠ frame.run) (hnew : run ≠ m.nextRun) :
    (m.view run).Unmoved (m.advance.view run) (m.deeds run .advance) := by
  have hrest (hview : m.advance.view run = m.view run)
      (hdeeds : m.deeds run .advance = m.since m.advance run) :
      (m.view run).Unmoved (m.advance.view run) (m.deeds run .advance) :=
    unmoved_of_view hview fun deed hdeed ↦ hdeeds ▸ hdeed
  obtain ⟨c, hcontext⟩ := hsound.housed.context_of_frame hframes
  cases frame with
  | drain owner =>
    refine hrest ((concerns_drain hframes hcontext).view_eq run hother) ?_
    simp only [deeds, hframes, List.nil_append]
    rfl
  | node b home =>
    change run ≠ b.run at hother
    cases hcan : m.canGoOn b with
    | false =>
      have hconcerns : Concerns b.run m m.advance := by
        rw [advance_shelved hframes hcan]
        exact (concerns_pop_frame hframes).trans (concerns_suspend _ b home)
      refine hrest (hconcerns.view_eq run hother) ?_
      simp only [deeds, hframes, hcan, Bool.false_eq_true, ↓reduceIte, List.nil_append]
      rfl
    | true =>
      have hrests := hsound.housed.rests hframes hcan hcontext
      have hpop : ({ m with frames := below } : Machine).view run = m.view run :=
        (concerns_pop_frame hframes).view_eq run hother
      have hdeeds : m.deeds run .advance = m.since m.advance run := by
        rw [deeds_served hframes hcan, asking_of_ne (Ne.symm hother), List.nil_append]
        exact fun _ _ _ _ heq ↦ hnew (heq.trans hrests.resumed.nextRun_eq)
      have hview := view_served_other hsound.housed hframes hcan hother hnew
      by_cases hwaited : ∃ next, b.progress = .nesting run next
      · -- The node has waited for the run, which is ended.
        obtain ⟨next, hprogress⟩ := hwaited
        rw [hview, hrests.resumed.view_ended run next hprogress, hpop]
        exact ⟨rfl, rfl, fun deed hdeed ↦ quiet_of_since (hdeeds ▸ hdeed)⟩
      · refine hrest ?_ hdeeds
        rw [hview, hrests.resumed.view_eq run fun next heq ↦ hwaited ⟨next, heq⟩, hpop]

/-- Assumes: a node on top of its run. It moves, or the run is not moved. -/
theorem top_of_occurs (hsound : m.Sound history) (hnext : Occurs m m' more)
    (htop : (m.view run).frames = .node a home :: rest) :
    (∃ below, m.frames = .node a home :: below ∧ m' = m.advance ∧
      more run = m.deeds run .advance) ∨
    (m.view run).Unmoved (m'.view run) (more run) := by
  have hnew : run ≠ m.nextRun := by
    rintro rfl
    rw [hsound.housed.view_nextRun] at htop
    cases htop
  cases hnext with
  | moved move =>
    cases move with
    | tick moment => exact Or.inr (unmoved_of_view rfl fun _ hdeed ↦ hdeed)
    | poll task =>
      -- Nothing is polled while anything is on the frames.
      have hidle : m.poll task = m := by
        refine poll_of_not_ready fun ⟨_, _, hframes, _⟩ ↦ ?_
        simp [view, hframes] at htop
      exact Or.inr (unmoved_of_view (congrArg (view · run) hidle) fun _ hdeed ↦ hdeed)
    | advance =>
      obtain ⟨frame, below, hframes⟩ : ∃ frame below, m.frames = frame :: below := by
        refine List.exists_cons_of_ne_nil fun hidle ↦ ?_
        simp [view, hidle] at htop
      by_cases hown : run = frame.run
      · subst hown
        obtain ⟨rfl, -⟩ := List.cons.inj ((view_pop_frame hframes).symm.trans htop)
        exact Or.inl ⟨below, hframes, rfl, rfl⟩
      · exact Or.inr (unmoved_of_advance hsound hframes hown hnew)
  | opened graph config hasTasks =>
    have hview := (concerns_open m graph config hasTasks).view_eq run hnew
    exact Or.inr (unmoved_of_view hview (by simp))
  | started owner c inputs hcontext hinputs =>
    have hne : run ≠ owner := by
      rintro rfl
      cases ((hsound.views run).unstarted c hcontext hinputs).frames.symm.trans htop
    have hview := (concerns_start hcontext hinputs inputs).view_eq run hne
    refine Or.inr (unmoved_of_view hview ?_)
    simp only [hne, ↓reduceIte, List.nil_append]
    exact fun _ hdeed ↦ hdeed
  | ended owner =>
    by_cases hown : run = owner
    · subst hown
      rw [view_endRun]
      exact Or.inr ⟨rfl, rfl, fun _ ↦ quiet_of_since⟩
    · have hview := (concerns_endRun m owner).view_eq run hown
      exact Or.inr (unmoved_of_view hview fun _ hdeed ↦ hdeed)
  | handled owner handler =>
    by_cases hown : run = owner
    · subst hown
      rw [view_onComplete]
      exact Or.inr ⟨rfl, rfl, by simp⟩
    · have hview := (concerns_onComplete m owner handler).view_eq run hown
      exact Or.inr (unmoved_of_view hview (by simp))
  | changed world hruns haccepted =>
    have hview : ({ m with world } : Machine).view run = m.view run := by
      simp [view, context?, hruns]
    exact Or.inr (unmoved_of_view hview (by simp))

/-! ### What a node has to deliver -/

/-- No two nodes at work are on one scope. -/
theorem nodup_scopes (htold : Standing.Told registry journal earlier (m.standing run 0)) :
    ((m.view run).activities.map (·.call.scope)).Nodup := by
  have hworking : (m.standing run 0).working = (m.view run).works := Multiset.zero_add _
  have hdistinct := (Multiset.nodup_add.mp htold.distinct).1
  rw [hworking, RunView.works, Multiset.map_coe, Multiset.coe_nodup, List.map_append,
    List.map_map, List.map_map] at hdistinct
  exact (List.nodup_append.mp hdistinct).2.1

/-- What a node has done, if it delivers, and the request that it makes next. -/
theorem delivery_of_requesting (hsound : m.Sound history)
    (htold : Standing.Told registry journal earlier (m.standing a.run 0))
    (hdelivers : a.call.Delivers registry) (h : m.Requesting a home rest request resting) :
    NodeCall.Delivery (ownDeeds a.call.scope journal) request := by
  obtain ⟨c, hrests⟩ := h.rests hsound.housed
  obtain ⟨kind, hkind, hpath⟩ :=
    htold.stages _ (mem_working h.mem_activities) request hrests.resumed.resumes
  obtain ⟨same, hsame, hbehaviour⟩ := hdelivers
  obtain rfl := Option.some.inj (hkind.symm.trans hsame)
  exact hpath.delivery hbehaviour

/-- A node that writes stays on top, and is told to have written that. -/
theorem wrote_of_requesting (hsound : m.Sound history) {pin : String} {value : Value}
    {next : Behaviour} (h : m.Requesting a home rest (.write pin value next) resting) :
    (∃ below, (m.view a.run).frames = .node a home :: below ∧
      (m.advance.view a.run).frames = .node { a with progress := .going next } home :: below) ∧
      (m.advance.view a.run).tasks = (m.view a.run).tasks ∧
      m.deeds a.run .advance = .wrote a.call pin value :: m.since m.advance a.run := by
  obtain ⟨c, hrests⟩ := h.rests hsound.housed
  have hserve : resting.serve a home (.write pin value next) =
      (resting.modifyContext a.run (·.bind a.call.node pin value)).enter a home (.going next) := rfl
  have hview := view_enter (resting.modifyContext a.run (·.bind a.call.node pin value)) a home
    (.going next)
  rw [← hserve, ← h.advance_eq, view_modifyContext, hrests.view_eq] at hview
  exact ⟨⟨_, view_pop_frame h.frames, congrArg RunView.frames hview⟩, by rw [hview]; rfl, h.deeds_eq⟩

/-- A node that writes has that to deliver, and whatever it had before. -/
theorem carries_of_wrote (hsound : m.Sound history)
    (htold : Standing.Told registry journal earlier (m.standing a.run 0))
    (hcareful : (m.view a.run).Careful registry journal) {pin : String} {value : Value}
    {next : Behaviour} (h : m.Requesting a home rest (.write pin value next) resting)
    (hdelivers : a.call.Delivers registry) :
    (m.advance.view a.run).Carries (journal ++ m.deeds a.run .advance)
      { a with progress := .going next } := by
  obtain ⟨⟨below, -, hlater⟩, -, hdeeds⟩ := wrote_of_requesting hsound h
  refine ⟨⟨home, below, hlater⟩, ⟨next, rfl⟩, fun other last hlast ↦ ?_⟩
  rw [hdeeds, List.append_cons] at hlast ⊢
  rw [NodeCall.written, ownDeeds_append_of_none _ fun _ hdeed ↦ (quiet_of_since hdeed).1,
    ownDeeds_append_own (List.forall_mem_singleton.mpr rfl), lastPut_append] at hlast
  rw [lastPut_append_of_quiet _ _ fun _ hdeed ↦ (quiet_of_since hdeed).2, lastPut_append]
  cases hput : lastPut a.call.node other [.wrote a.call pin value] with
  | some now =>
    rw [hput] at hlast
    exact hlast
  | none =>
    -- It is another pin, and was written before.
    rw [hput, Option.none_or] at hlast
    have hown := (delivery_of_requesting hsound htold hdelivers h).undelivered
      (flatMap_puts_ne_nil hlast) rfl
    exact (hcareful a h.mem_activities hdelivers hown).kept other last hlast

/-- No other node of the run has anything to deliver then. -/
theorem careful_of_wrote (hsound : m.Sound history)
    (htold : Standing.Told registry journal earlier (m.standing a.run 0))
    (hcareful : (m.view a.run).Careful registry journal) {pin : String} {value : Value}
    {next : Behaviour} (h : m.Requesting a home rest (.write pin value next) resting) :
    (m.advance.view a.run).Careful registry (journal ++ m.deeds a.run .advance) := by
  obtain ⟨⟨below, hframes, hlater⟩, htasks, hdeeds⟩ := wrote_of_requesting hsound h
  have hactivities : (m.view a.run).activities =
      a :: ({ m.view a.run with frames := below } : RunView).activities := by
    rw [RunView.activities, hframes]
    rfl
  have hafter : (m.advance.view a.run).activities = { a with progress := .going next } ::
      ({ m.view a.run with frames := below } : RunView).activities := by
    rw [RunView.activities, hlater, htasks]
    rfl
  intro b hb hdelivers hown
  rw [hafter] at hb
  rcases List.mem_cons.mp hb with rfl | hb
  · exact carries_of_wrote hsound htold hcareful h hdelivers
  · have hdistinct := nodup_scopes htold
    rw [hactivities, List.map_cons, List.nodup_cons] at hdistinct
    have hne : b.call.scope ≠ a.call.scope := fun heq ↦
      hdistinct.1 (heq ▸ List.mem_map_of_mem (f := (·.call.scope)) hb)
    rw [hdeeds, List.append_cons,
      ownDeeds_append_of_none _ fun _ hdeed ↦ (quiet_of_since hdeed).1,
      ownDeeds_append_of_scope hne (List.forall_mem_singleton.mpr rfl)] at hown
    obtain ⟨_, _, htop⟩ := (hcareful b (hactivities ▸ List.mem_cons_of_mem _ hb) hdelivers hown).top
    obtain ⟨heq, -⟩ := List.cons.inj (hframes.symm.trans htop)
    obtain ⟨rfl, -⟩ := Frame.node.inj heq
    exact absurd rfl hne

theorem write_of_doing {deed : Deed} (h : deed ∈ m.doing a request) (hscope : deed.scope? ≠ none)
    (hputs : deed.puts ≠ []) : ∃ pin value next, request = .write pin value next := by
  cases request with
  | write pin value next => exact ⟨pin, value, next, rfl⟩
  | trigger pin next =>
    rcases List.mem_cons.mp h with rfl | hbegun
    · exact absurd rfl hputs
    · exact absurd (scope?_of_begun hbegun) hscope
  | read | nest =>
    obtain rfl := List.mem_singleton.mp h
    exact absurd rfl hputs
  | _ => cases h

/-- A node that has something to deliver writes more when it moves, or it starts a branch. -/
theorem tells_of_undelivered (hsound : m.Sound history)
    (htold : Standing.Told registry journal earlier (m.standing a.run 0))
    (hdelivers : a.call.Delivers registry)
    (hown : Undelivered (ownDeeds a.call.scope journal))
    (hgoing : ∃ next, a.progress = .going next) (hframes : m.frames = .node a home :: rest) :
    ∃ deed ∈ m.deeds a.run .advance, deed.scope? = some a.call.scope ∧
      (deed.puts ≠ [] ∨ deed.isTriggered = true) := by
  obtain ⟨request, hprogress⟩ := hgoing
  have h : m.Requesting a home rest request { m with frames := rest } :=
    ⟨hframes, by rw [canGoOn, hprogress], by rw [hprogress]; rfl⟩
  have hdelivering := (delivery_of_requesting hsound htold hdelivers h).delivering hown
  rw [h.deeds_eq]
  cases request with
  | write pin value next =>
    exact ⟨_, List.mem_cons_self, rfl, Or.inl (List.cons_ne_nil _ _)⟩
  | trigger pin next => exact ⟨_, List.mem_cons_self, rfl, Or.inr rfl⟩
  | _ => cases hdelivering

/-- Assumes: something happens by which no node of a run writes. -/
theorem careful_of_quiet (hsound : m.Sound history) (hnext : Occurs m m' more)
    (htold : Standing.Told registry journal earlier (m.standing run 0))
    (hlater : Standing.Told registry (journal ++ more run) earlier (m'.standing run 0))
    (hcareful : (m.view run).Careful registry journal)
    (hquiet : ∀ deed ∈ more run, ∀ scope, deed.scope? = some scope → deed.puts = []) :
    (m'.view run).Careful registry (journal ++ more run) := by
  intro b hb hdelivers hown
  have hbefore := hown.before hquiet
  obtain ⟨a, ha, hcall⟩ := activity_of_undelivered hsound hnext htold hlater hb hbefore
  have hcarries := hcareful a ha (hcall ▸ hdelivers) (hcall ▸ hbefore)
  obtain ⟨home, rest, htop⟩ := hcarries.top
  rcases top_of_occurs hsound hnext htop with ⟨below, hframes, rfl, hmore⟩ | hunmoved
  · -- The node that has something to deliver moves: it would write, or it has delivered.
    obtain rfl : a.run = run := (mem_activities_view.mp ha).1
    obtain ⟨deed, hdeed, hscope, hputs | htriggered⟩ := tells_of_undelivered hsound htold
      (hcall ▸ hdelivers) (hcall ▸ hbefore) hcarries.going hframes
    · exact absurd (hquiet deed (hmore ▸ hdeed) _ hscope) hputs
    · have hmem := mem_ownDeeds_iff.mpr
        ⟨List.mem_append_right journal (hmore ▸ hdeed), hcall ▸ hscope⟩
      cases (hown.untriggered deed hmem).symm.trans htriggered
  · have hsame : (m'.view run).activities = (m.view run).activities := by
      rw [RunView.activities, hunmoved.frames, hunmoved.tasks]
      rfl
    obtain ⟨htop, hgoing, hkept⟩ := hcareful b (hsame ▸ hb) hdelivers hbefore
    refine ⟨hunmoved.frames ▸ htop, hgoing, fun pin value hwritten ↦ ?_⟩
    rw [NodeCall.written, ownDeeds_append_of_none _ fun deed hdeed ↦ (hunmoved.quiet deed hdeed).1]
      at hwritten
    rw [lastPut_append_of_quiet _ _ fun deed hdeed ↦ (hunmoved.quiet deed hdeed).2]
    exact hkept pin value hwritten

theorem careful_of_occurs (hsound : m.Sound history) (hnext : Occurs m m' more)
    (htold : Standing.Told registry journal earlier (m.standing run 0))
    (hlater : Standing.Told registry (journal ++ more run) earlier (m'.standing run 0))
    (hcareful : (m.view run).Careful registry journal) :
    (m'.view run).Careful registry (journal ++ more run) := by
  by_cases hwrites : ∃ deed ∈ more run, deed.scope? ≠ none ∧ deed.puts ≠ []
  · obtain ⟨deed, hdeed, hscope, hputs⟩ := hwrites
    obtain ⟨rfl, hmore, a, home, rest, request, resting, hrequesting, rfl, hdoing⟩ :=
      requesting_of_occurs hnext hdeed hscope
    obtain ⟨pin, value, next, rfl⟩ := write_of_doing hdoing hscope hputs
    rw [hmore]
    exact careful_of_wrote hsound htold hcareful hrequesting
  · refine careful_of_quiet hsound hnext htold hlater hcareful fun deed hdeed scope hscope ↦ ?_
    by_contra hputs
    exact hwrites ⟨deed, hdeed, hscope ▸ Option.some_ne_none scope, hputs⟩

/-- In every machine that can be reached, and for every run: nothing comes between what a node has
written and its next request, for the nodes that deliver. -/
theorem careful_of_records (hblank : m.Blank) (hrecords : Records m m' journals) (run : RunId) :
    (m'.view run).Careful m.provider.registry (journals run) := by
  induction hrecords with
  | refl =>
    intro a ha
    have hwork := RunView.mem_works_of_activity ha
    rw [(told_of_idle (hblank.told run) (hblank.idle run)).2] at hwork
    cases hwork
  | next hrecords hnext ih =>
    obtain ⟨history, hleads⟩ := hrecords.leads
    exact careful_of_occurs (hblank.leads hleads) hnext (told_of_records hblank hrecords run)
      (told_of_records hblank (hrecords.next hnext) run) ih

/-! ### Along a wire -/

variable {call : NodeCall} {kind : NodeKind} {outcome : Except EngineError Nat} {exit : String}
  {active : ActiveRun} {target : NodeDocument} {later : Machine}

/-- A trigger of a wired pin starts the node that it leads to. -/
theorem triggerReply_of_wired (hactive : m.world.interpreter.runs.get? a.run = some active)
    (hgraph : active.graph.Wired)
    (hwired : active.graph.target? a.call.node exit = some (some target.id))
    (htarget : target ∈ active.graph.nodes) :
    (m.triggerReply a exit).outcome = .ok active.scopes.next ∧
      (m.triggerReply a exit).callbacks = .dispatched active.scopes.next ::
        Interpreter.startNode active.inputs (m.bindings a.run) target active.scopes.next := by
  have htriggers := Interpreter.triggers_trigger hactive hgraph a.call.scope a.call.node exit
    (m.bindings a.run)
  unfold triggerReply
  generalize m.world.interpreter.trigger a.run a.call.scope a.call.node exit (m.bindings a.run) =
    reply at htriggers
  cases htriggers with
  | refused error hpin | unwired hpin => cases hpin.symm.trans hwired
  | wired next hpin hnext =>
    have hid : next.id = target.id := Option.some.inj (Option.some.inj (hpin.symm.trans hwired))
    obtain rfl : next = target := Option.some.inj <|
      (hgraph.node?_of_mem next hnext).symm.trans (hid ▸ hgraph.node?_of_mem target htarget)
    exact ⟨rfl, rfl⟩

theorem mem_boundOf {inputs : Inputs} {view : Bindings} {pin : String} {value : Value} :
    (pin, value) ∈ boundOf inputs view target ↔
      .bind target.id pin value ∈ Interpreter.bindInputs target.id inputs view target.inputs := by
  rw [boundOf, List.mem_filterMap]
  constructor
  · rintro ⟨callback, hmem, hbound⟩
    obtain ⟨other, source, given, -, rfl⟩ := Interpreter.mem_bindInputs hmem
    obtain ⟨rfl, rfl⟩ := Prod.mk.inj (Option.some.inj hbound)
    exact hmem
  · exact fun hmem ↦ ⟨_, hmem, rfl⟩

/-- What is told when a node triggers a pin that is wired: the node there is asked for. -/
theorem deeds_of_wired (hsound : m.Sound history) {next : Except EngineError Nat → Behaviour}
    (h : m.Requesting a home rest (.trigger exit next) resting)
    (hactive : m.world.interpreter.runs.get? a.run = some active)
    (hwired : active.graph.target? a.call.node exit = some (some target.id))
    (htarget : target ∈ active.graph.nodes) :
    m.deeds a.run .advance = .triggered a.call exit (.ok active.scopes.next) ::
      .invoked (callOf target active.scopes.next)
        (boundOf active.inputs (m.bindings a.run) target) :: m.since m.advance a.run := by
  obtain ⟨c, hrests⟩ := h.rests hsound.housed
  have hstill : resting.world.interpreter.runs.get? a.run = some active :=
    (congrArg RunView.active hrests.view_eq).trans hactive
  have hview : resting.bindings a.run = m.bindings a.run :=
    congrArg (fun v ↦ ((v.context.map (·.bindings)).getD {} : Bindings)) hrests.view_eq
  obtain ⟨houtcome, hcallbacks⟩ :=
    triggerReply_of_wired hstill (hrests.wired active hstill) hwired htarget
  have hdoing : resting.doing a (.trigger exit next) =
      .triggered a.call exit (resting.triggerReply a exit).outcome ::
        begun (resting.triggerReply a exit).callbacks := rfl
  rw [houtcome, hcallbacks, begun_starts, hview] at hdoing
  rw [h.deeds_eq, hdoing]
  rfl

/-- When a node that delivers triggers a pin, its pins hold what this invocation has written. -/
theorem held_of_requesting (hblank : m.Blank) (hrecords : Records m m' journals)
    (hdelivers : a.call.Delivers m.provider.registry) {next : Except EngineError Nat → Behaviour}
    (h : m'.Requesting a home rest (.trigger exit next) resting) {pin : String} {value : Value}
    (hwritten : a.call.written (journals a.run) pin = some value) :
    (m'.bindings a.run).get? (a.call.node, pin) = some value := by
  obtain ⟨history, hleads⟩ := hrecords.leads
  have htold := told_of_records hblank hrecords a.run
  have hown := (delivery_of_requesting (hblank.leads hleads) htold hdelivers h).undelivered
    (flatMap_puts_ne_nil hwritten) rfl
  have hcarries := careful_of_records hblank hrecords a.run a h.mem_activities hdelivers hown
  exact (htold.get?_bindings a.call.node pin).trans (hcarries.kept pin value hwritten)

/-- In every machine that can be reached, and in every run that is under way: when a node that loads
an asset or runs a graph triggers a pin that is wired to another node, that node is asked for, and
each of its inputs that is linked to a pin that this invocation has written is bound to what was
written there. -/
theorem carries_of_records (hblank : m.Blank) (hrecords : Records m m' journals)
    (hnext : Occurs m' later more) (hkind : m.provider.registry.get? call.kind = some kind)
    (hdelivering : kind ∈ NodeKind.delivering)
    (htriggered : .triggered call exit outcome ∈ more run)
    (hactive : m'.world.interpreter.runs.get? run = some active)
    (hwired : active.graph.target? call.node exit = some (some target.id))
    (htarget : target ∈ active.graph.nodes) (hother : call.node ≠ target.id) :
    ∃ bound rest, more run = .triggered call exit (.ok active.scopes.next) ::
        .invoked (callOf target active.scopes.next) bound :: rest ∧
      ∀ pin value, call.written (journals run) pin = some value →
        ∀ input, (input, .link call.node pin) ∈ target.inputs →
          (input, value) ∈ bound ∧
            ((target.inputs.map (·.1)).Nodup → ∀ given, (input, given) ∈ bound → given = value) := by
  obtain ⟨history, hleads⟩ := hrecords.leads
  obtain ⟨-, hmore, a, home, rest, request, resting, hrequesting, rfl, hdoing⟩ :=
    requesting_of_occurs hnext htriggered (Option.some_ne_none _)
  obtain ⟨next, rfl, rfl, -⟩ := trigger_of_doing hdoing
  refine ⟨_, _, hmore.trans (deeds_of_wired (hblank.leads hleads) hrequesting hactive hwired
    htarget), fun pin value hwritten input hinput ↦ ?_⟩
  have hdelivers : a.call.Delivers m.provider.registry :=
    ⟨kind, hkind, NodeKind.delivers hdelivering a.call⟩
  have hheld := held_of_requesting hblank hrecords hdelivers hrequesting hwritten
  have hbound : .bind target.id input value ∈ Interpreter.bindInputs target.id active.inputs
      (m'.bindings a.run) target.inputs := Interpreter.bind_of_link hother hinput hheld
  exact ⟨mem_boundOf.mpr hbound, fun hpins given hgiven ↦
    Interpreter.eq_of_bind hpins (mem_boundOf.mp hgiven) hbound⟩

end Machine

/-! ### A graph that passes on an output -/

namespace Graph

/-- Logs the output of another node. -/
def logNode : NodeDocument where
  id := "L"
  kind := "log"
  inputs := [("message", .link "E" "x")]
  links := [("then", none)]

/-- Runs another graph, and logs its output. -/
def pipedDocument : GraphDocument where
  nodes := [
    { id := "E", kind := "execute_blueprint", params := .object [("id", .string "part")]
      links := [("then", some "L")] },
    logNode]

/-- What `pipedDocument` is loaded to. -/
def piped : Graph where
  version := none
  entry := some 0
  inputs := []
  outputs := []
  nodes := pipedDocument.nodes
  index := .ofList [("E", 0), ("L", 1)]

end Graph

namespace Machine

/-- A machine on which that graph is loaded, and the one that it runs. -/
def piped : Machine where
  provider := { fallback := .file none }
  world := { interpreter := { graphs := .ofList [(1, .piped), (2, .inner)] } }

theorem piped_blank : piped.Blank where
  context := fun _ ↦ rfl
  active := fun _ ↦ rfl
  frames := rfl
  tasks := rfl
  accepted := by
    intro handle g hget
    have hmem : (handle, g) ∈ [(1, Graph.piped), (2, .inner)] := Table.mem_of_get? hget
    rcases List.mem_cons.mp hmem with heq | hmem
    · obtain ⟨-, rfl⟩ := Prod.mk.inj heq
      exact ⟨.standard, Graph.pipedDocument, rfl⟩
    · obtain ⟨-, rfl⟩ := Prod.mk.inj (List.mem_singleton.mp hmem)
      exact ⟨.standard, Graph.innerDocument, rfl⟩
  aloof := fun _ hcache ↦ nomatch hcache

/-- The same machine with a run that was opened. -/
def pipedOpened : Machine :=
  (piped.open_ { id := ⟨"whole", by decide⟩, handle := 1, inputs := [], outputs := [] }
    { loaded := .ofList [("part",
      { graph :=
          { id := ⟨"part", by decide⟩, handle := 2, inputs := Graph.inner.inputs
            outputs := Graph.inner.outputs }
        inputs := {} })] } true).2

/-- The same machine with a run that was started. -/
def pipedStarted : Machine := (pipedOpened.start 1 {}).2

/-- The first node has run the other graph and has written its output. -/
def pipedWritten : Machine := pipedStarted.run (.poll 0 :: List.replicate 16 .advance)

/-- The invocation of the first node. -/
def pipedCall : NodeCall where
  scope := rootScope
  node := "E"
  kind := "execute_blueprint"
  params := .object [("id", .string "part")]

theorem records_piped :
    ∃ journals, Records piped pipedWritten journals ∧
      journals 1 = begun (pipedOpened.world.interpreter.execute 1 1 {} {}).callbacks ++
        pipedStarted.journalOf 1 (.poll 0 :: List.replicate 16 .advance) :=
  ⟨_, ((Records.refl.next (.opened _ _ _)).next (.started 1 _ {} rfl rfl)).trans
    (records_run pipedStarted _), rfl⟩

/-- The first node triggers its pin, and the message of the second one is the output. -/
theorem carries_of_piped :
    ∃ journals bound rest, Records piped pipedWritten journals ∧
      pipedCall.written (journals 1) "x" = some (.string "left over") ∧
      pipedWritten.deeds 1 .advance = .triggered pipedCall "then" (.ok 1) ::
        .invoked (callOf Graph.logNode 1) bound :: rest ∧
      ("message", .string "left over") ∈ bound := by
  obtain ⟨journals, hrecords, hjournal⟩ := records_piped
  have hwritten : pipedCall.written (journals 1) "x" = some (.string "left over") := by
    rw [hjournal]
    rfl
  have hnext : Occurs pipedWritten pipedWritten.advance fun run ↦ pipedWritten.deeds run .advance :=
    .moved .advance
  have hkind : piped.provider.registry.get? pipedCall.kind = some .executeBlueprint := rfl
  have hfirst : (pipedWritten.deeds 1 .advance).head? =
      some (.triggered pipedCall "then" (.ok 1)) := rfl
  obtain ⟨active, hactive⟩ := Option.isSome_iff_exists.mp
    (show (pipedWritten.world.interpreter.runs.get? 1).isSome = true from rfl)
  have hknown : (pipedWritten.world.interpreter.runs.get? 1).map
      (fun active ↦ (active.graph, active.scopes.next)) = some (.piped, 1) := rfl
  rw [hactive, Option.map_some, Option.some.injEq, Prod.mk.injEq] at hknown
  obtain ⟨hgraph, hscope⟩ := hknown
  have hwired : active.graph.target? pipedCall.node "then" = some (some Graph.logNode.id) := by
    rw [hgraph]
    rfl
  have hmem : Graph.logNode ∈ active.graph.nodes := by
    rw [hgraph]
    exact List.mem_cons_of_mem _ List.mem_cons_self
  obtain ⟨bound, rest, hdeeds, hcarries⟩ := carries_of_records piped_blank hrecords hnext hkind
    (by simp [NodeKind.delivering]) (List.mem_of_mem_head? hfirst) hactive hwired hmem (by decide)
  rw [hscope] at hdeeds
  exact ⟨journals, bound, rest, hrecords, hwritten, hdeeds,
    (hcarries "x" _ hwritten "message" List.mem_cons_self).1⟩

end Machine

end Blueprint

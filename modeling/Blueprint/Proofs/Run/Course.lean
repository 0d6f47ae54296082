import Blueprint.Proofs.Run.Requests

/-!
The course of a run. Whatever happens on a machine takes each run some steps further, and the
journal of the run tells just what is told of these steps (`Machine.steps_of_occurs`,
`Machine.steps_of_records`). So what the few steps of a standing keep to, every run keeps to.
-/

set_option autoImplicit false

namespace Blueprint.Machine

variable {m m' : Machine} {run other : RunId} {a : Activity} {c : Context}

/-! ### Runs that nothing is done with -/

/-- A run that is as before. -/
theorem steps_same (registry : Registry) (hview : m'.view run = m.view run)
    (hendings : m'.endings run = m.endings run) (hand : Multiset Work) :
    Standing.Steps registry (m.standing run hand) (m.since m' run) (m'.standing run hand) := by
  rw [since_of_eq hendings fun hsome ↦ by rwa [hview], standing_congr hview hendings]
  exact .refl _

/-- The interpreter forgets a run. -/
theorem steps_closed (registry : Registry)
    (hview : m'.view run = { m.view run with active := none })
    (hendings : m'.endings run = m.endings run) (hand : Multiset Work) :
    Standing.Steps registry (m.standing run hand) (m.since m' run) (m'.standing run hand) := by
  have hstanding : m'.standing run hand = { m.standing run hand with next? := none } := by
    rw [standing, hview, hendings]
    rfl
  cases hactive : (m.view run).active with
  | none =>
    refine steps_same registry ?_ hendings hand
    rw [hview, ← hactive]
  | some active =>
    have hsome : (m.world.interpreter.runs.get? run).isSome = true := congrArg Option.isSome hactive
    have hnone : (m'.world.interpreter.runs.get? run).isNone = true :=
      congrArg (fun v ↦ v.active.isNone) hview
    have hsince : m.since m' run = [.closed] := by
      rw [since, hendings, List.drop_length, hsome, hnone]
      rfl
    rw [hsince, hstanding]
    have hopen : (m.standing run hand).next?.isSome = true :=
      (Option.isSome_map ..).trans (congrArg Option.isSome hactive)
    exact (Standing.Step.closed hopen).steps

/-! ### Graphs on runs of their own -/

section

variable {home : Option Nat} {graph : GraphInstance} {inputs : Inputs}
  {next : RunResult → Behaviour}

theorem endings_nest (hcontext : m.context? a.run = some c) (hne : m.nextRun ≠ other) :
    (m.serve a home (.nest graph inputs next)).endings other = m.endings other := by
  have hstarted : ((m.waiting a c home graph next).start m.nextRun inputs).2.endings other =
      m.endings other := endings_start_of_ne hne inputs
  cases hstart : (m.waiting a c home graph next).start m.nextRun inputs with
  | mk outcome later =>
    rw [hstart] at hstarted
    cases outcome with
    | ok scope => rwa [serve_nest_of_ok hcontext hstart]
    | error error =>
      rw [serve_nest_of_error hcontext hstart]
      exact hstarted

/-- Assumes: a node on top of the frames that were there before. -/
theorem standing_entered {later : Progress} (hcontext : m.context? a.run = some c)
    (hview : m'.view a.run = { m.view a.run with
      context := some c,
      frames := .node { a with progress := later } home :: (m.view a.run).frames })
    (hendings : m'.endings a.run = m.endings a.run) (hand : Multiset Work) :
    m'.standing a.run hand = m.standing a.run ((a.call, some later) ::ₘ hand) := by
  have hsame : { m.view a.run with context := some c } = m.view a.run := by
    rw [← show (m.view a.run).context = some c from hcontext]
  have hworks : (m'.view a.run).works = (a.call, some later) ::ₘ (m.view a.run).works := by
    rw [hview, ← congrArg RunView.works hsame]
    exact RunView.works_push_node { m.view a.run with context := some c }
      { a with progress := later } home
  exact standing_of_works hcontext (congrArg RunView.context hview) (hview ▸ rfl)
    hendings ⟨rfl, rfl, rfl, rfl⟩ rfl hworks hand

/-- The node's own run. -/
theorem steps_nest (hcontext : m.context? a.run = some c) (hold : a.run < m.nextRun)
    (hnew : m.view m.nextRun = {}) (haccepted : m.world.interpreter.GraphsAccepted)
    (hresumes : RunView.Resumes a.progress (.nest graph inputs next)) (hand : Multiset Work) :
    Standing.Steps m.provider.registry (m.standing a.run ((a.call, some a.progress) ::ₘ hand))
      (m.doing a (.nest graph inputs next) ++
        m.since (m.serve a home (.nest graph inputs next)) a.run)
      ((m.serve a home (.nest graph inputs next)).standing a.run hand) := by
  have hendings : (m.serve a home (.nest graph inputs next)).endings a.run = m.endings a.run :=
    endings_nest hcontext (Nat.ne_of_gt hold)
  have hserves := (nests_serve (.refl m) hcontext hold hnew haccepted home graph inputs next).serves
  generalize hafter : (m.serve a home (.nest graph inputs next)).view a.run = after at hserves
  cases hserves with
  | ended ending hending => cases hending
  | paused hpause => cases hpause
  | @answered _ after' later _ hanswers =>
    have hasks : after' = c ∧ (Behaviour.nest graph inputs next).Asks c.config c.bindings a.call
        [.nested a.call graph inputs] later := by
      cases hanswers with
      | nestRefused _ _ _ result => exact ⟨rfl, .nestRefused graph inputs next result⟩
      | nesting _ _ _ child => exact ⟨rfl, .nesting graph inputs next child⟩
    obtain ⟨rfl, hasks⟩ := hasks
    rw [standing_entered hcontext hafter hendings,
      since_of_eq hendings fun hsome ↦ by rwa [hafter], List.append_nil]
    exact steps_asked hcontext hresumes hasks rfl hand

/-- The run that is begun. -/
theorem steps_nested (hcontext : m.context? a.run = some c) (hold : a.run < m.nextRun)
    (hnew : m.view m.nextRun = {}) (haccepted : m.world.interpreter.GraphsAccepted) :
    Standing.Steps m.provider.registry (m.standing m.nextRun 0)
      (begun (m.world.interpreter.execute graph.handle m.nextRun inputs {}).callbacks ++
        m.since (m.serve a home (.nest graph inputs next)) m.nextRun)
      ((m.serve a home (.nest graph inputs next)).standing m.nextRun 0) := by
  have hne : a.run ≠ m.nextRun := Nat.ne_of_lt hold
  have hchild : (m.waiting a c home graph next).view m.nextRun =
      { context := some { graph, config := c.config } } := view_waiting_child hne hnew
  have hopened : (m.waiting a c home graph next).context? m.nextRun =
      some { graph, config := c.config } := congrArg RunView.context hchild
  have hwaits : (m.waiting a c home graph next).standing m.nextRun 0 =
      { m.standing m.nextRun 0 with config := c.config, hasTasks := true } := by
    have hendings : (m.waiting a c home graph next).endings m.nextRun = m.endings m.nextRun := rfl
    rw [standing, hchild, hendings, standing, hnew]
    rfl
  have hstarted : (m.standing m.nextRun 0).started = false := by
    rw [standing, hnew]
    rfl
  have hbegins := steps_start hopened rfl (congrArg RunView.active hchild) haccepted inputs 0
  rw [hwaits] at hbegins
  have hsteps := (Standing.Step.opened c.config true hstarted).steps.trans hbegins
  cases hstart : (m.waiting a c home graph next).start m.nextRun inputs with
  | mk outcome later =>
    rw [hstart] at hsteps
    cases outcome with
    | ok scope =>
      rw [serve_nest_of_ok hcontext hstart]
      exact hsteps
    | error error =>
      -- The run that was refused is ended, but it was never under way.
      obtain ⟨-, hrefused⟩ := view_start_of_error hopened rfl haccepted hstart
      rw [hchild] at hrefused
      generalize hfinal : m.serve a home (.nest graph inputs next) = final
      rw [serve_nest_of_error hcontext hstart] at hfinal
      have hview : final.view m.nextRun = later.view m.nextRun := by
        have hreset : ({ (later.refuse m.nextRun error).2 with frames := m.frames } :
            Machine).view m.nextRun =
              { later.view m.nextRun with
                active := none, frames := (m.view m.nextRun).frames } := by
          simp [view, refuse, endRun, withInterpreter, Interpreter.endRun, context?]
        rw [← hfinal, (concerns_enter _ a home _).view_eq _ (Ne.symm hne), hreset, hrefused, hnew]
      have hendings : final.endings m.nextRun = later.endings m.nextRun := by
        rw [← hfinal]
        exact endings_of_events rfl _
      have hsince : m.since final m.nextRun = m.since later m.nextRun :=
        since_congr rfl rfl hendings (by rw [hview])
      rw [hsince, standing_congr hview hendings]
      exact hsteps

end

/-! ### Moves

A request is not about another run, if it does not begin it. -/

section

variable {request : Behaviour}

theorem endings_serve_of_ne (hcontext : m.context? a.run = some c) (hne : a.run ≠ other)
    (hquiet : ∀ graph inputs next, request = .nest graph inputs next → other ≠ m.nextRun)
    (home : Option Nat) : (m.serve a home request).endings other = m.endings other := by
  have hended (ending : Ending) :
      (m.conclude a.run a.call ending).endings other = m.endings other := by
    rw [endings_conclude, if_neg hne, List.append_nil]
  have hfetched (id : String) {served : Machine}
      (hserved : served.events = (m.beginFetch id).2.events) :
      served.endings other = m.endings other :=
    endings_of_events (hserved.trans (events_beginFetch m id)) other
  have hpaused (progress : Progress) :
      (m.suspend { a with progress } home).endings other = m.endings other := by
    refine endings_of_events ?_ other
    cases home with
    | none => exact events_spawn m _
    | some task => rfl
  cases request with
  | succeed => exact hended .done
  | fail failure => exact hended (.failed failure)
  | panic message => exact hended (.panicked message)
  | read | write | publish | sleep => rfl
  | log level message next => simp [serve, enter, endings, record]
  | trigger pin next => exact endings_accept_of_ne hne _
  | join scopes next => exact endings_of_events (events_takeTickets a.run scopes m) other
  | load form id next =>
    refine hfetched id ?_
    rw [serve]
    split <;> rename_i hbegin <;> rw [hbegin] <;> rfl
  | find id next =>
    rw [serve]
    split
    · rfl
    · refine hfetched id ?_
      split <;> rename_i hbegin <;> rw [hbegin] <;> rfl
  | nest graph inputs next => exact endings_nest hcontext (hquiet graph inputs next rfl).symm
  | yield next => exact hpaused (.going next)
  | stall => exact hpaused .stalled

theorem view_serve_of_ne (hcontext : m.context? a.run = some c) (hold : a.run < m.nextRun)
    (hnew : m.view m.nextRun = {}) (haccepted : m.world.interpreter.GraphsAccepted)
    (hwired : ∀ active, m.world.interpreter.runs.get? a.run = some active → active.graph.Wired)
    (haloof : m.Aloof) (hne : a.run ≠ other)
    (hquiet : ∀ graph inputs next, request = .nest graph inputs next → other ≠ m.nextRun)
    (home : Option Nat) : (m.serve a home request).view other = m.view other := by
  by_cases hnest : ∃ graph inputs next, request = .nest graph inputs next
  · obtain ⟨graph, inputs, next, rfl⟩ := hnest
    have hnests := nests_serve (.refl m) hcontext hold hnew haccepted home graph inputs next
    exact hnests.view_eq other (Ne.symm hne) (hquiet graph inputs next rfl)
  · have hserves := serves_serve (.refl m) hcontext hwired haloof home
      fun graph inputs next heq ↦ hnest ⟨graph, inputs, next, heq⟩
    exact hserves.1.view_eq other (Ne.symm hne)

theorem asking_own : m.asking a.run a request = m.doing a request := if_pos rfl

theorem asking_of_ne (hne : a.run ≠ other)
    (hquiet : ∀ graph inputs next, request = .nest graph inputs next → other ≠ m.nextRun) :
    m.asking other a request = [] := by
  unfold asking
  rw [if_neg hne]
  cases request with
  | nest graph inputs next => exact if_neg (hquiet graph inputs next rfl)
  | _ => rfl

end

theorem standing_pop_node {home : Option Nat} {rest : List Frame}
    (hframes : m.frames = .node a home :: rest) (hand : Multiset Work) :
    m.standing a.run hand =
      ({ m with frames := rest } : Machine).standing a.run
        ((a.call, some a.progress) ::ₘ hand) := by
  have hview : m.view a.run = { ({ m with frames := rest } : Machine).view a.run with
      frames := .node a home :: (({ m with frames := rest } : Machine).view a.run).frames } :=
    congrArg (fun frames ↦ { m.view a.run with frames }) (view_pop_frame hframes)
  have hworks := RunView.works_push_node (({ m with frames := rest } : Machine).view a.run) a home
  have hendings : m.endings a.run = ({ m with frames := rest } : Machine).endings a.run := rfl
  rw [standing_cons, standing, hview, hendings, RunView.standing, hworks, Multiset.add_cons]
  rfl

theorem deeds_served {home : Option Nat} {rest : List Frame}
    (hframes : m.frames = .node a home :: rest) (hcan : m.canGoOn a = true) (run : RunId) :
    m.deeds run .advance = (({ m with frames := rest } : Machine).resume a.progress).2.asking run a
      (({ m with frames := rest } : Machine).resume a.progress).1 ++ m.since m.advance run := by
  unfold deeds
  simp only [hframes, hcan, ↓reduceIte]
  rfl

variable {history : RunId → List (String × Value)}

/-- A node on the frames that can go on, for its own run. -/
theorem steps_served (h : m.Sound history) {home : Option Nat} {rest : List Frame}
    (hframes : m.frames = .node a home :: rest) (hcan : m.canGoOn a = true) :
    Standing.Steps m.provider.registry (m.standing a.run 0) (m.deeds a.run .advance)
      (m.advance.standing a.run 0) := by
  obtain ⟨c, hcontext⟩ := h.housed.context_of_frame hframes
  change m.context? a.run = some c at hcontext
  obtain ⟨lost, hbalanced⟩ := (h.views a.run).balanced
  have haccepts := (hbalanced.takeNode hcontext (view_pop_frame hframes)).accepts
  have hrests := h.housed.rests hframes hcan hcontext
  have hevents := events_resume { m with frames := rest } a.progress
  rw [deeds_served hframes hcan, asking_own, advance_served hframes hcan]
  generalize ({ m with frames := rest } : Machine).resume a.progress = resumed at hrests hevents
  obtain ⟨request, resting⟩ := resumed
  have hendings : resting.endings a.run = m.endings a.run := endings_of_events hevents _
  have hpopped : m.standing a.run 0 = resting.standing a.run ((a.call, some a.progress) ::ₘ 0) := by
    rw [standing_pop_node hframes]
    exact (standing_congr hrests.view_eq hendings _).symm
  have hactive : (resting.view a.run).active.isSome = (m.view a.run).active.isSome := by
    rw [hrests.view_eq]
    rfl
  rw [hpopped, ← since_congr hendings hactive rfl rfl, ← hrests.later.provider_eq]
  have hresumes : RunView.Resumes a.progress request := hrests.resumed.resumes
  by_cases hnest : ∃ graph inputs next, request = .nest graph inputs next
  · obtain ⟨graph, inputs, next, rfl⟩ := hnest
    exact steps_nest hrests.context hrests.old hrests.new hrests.accepted hresumes 0
  · have hopen : (resting.view a.run).Accepts a.call.scope := by
      rw [hrests.view_eq]
      exact haccepts
    exact steps_serve hrests.context hrests.wired hrests.aloof hopen hresumes
      (fun graph inputs next heq ↦ hnest ⟨graph, inputs, next, heq⟩) home 0

/-- A node on the frames that can go on, for another run. -/
theorem steps_served_of_ne (h : m.Sound history) {home : Option Nat} {rest : List Frame}
    (hframes : m.frames = .node a home :: rest) (hcan : m.canGoOn a = true) (hne : a.run ≠ other) :
    Standing.Steps m.provider.registry (m.standing other 0) (m.deeds other .advance)
      (m.advance.standing other 0) := by
  obtain ⟨c, hcontext⟩ := h.housed.context_of_frame hframes
  change m.context? a.run = some c at hcontext
  have hrests := h.housed.rests hframes hcan hcontext
  have hevents := events_resume { m with frames := rest } a.progress
  rw [deeds_served hframes hcan, advance_served hframes hcan]
  generalize ({ m with frames := rest } : Machine).resume a.progress = resumed at hrests hevents
  obtain ⟨request, resting⟩ := resumed
  simp only at hrests hevents ⊢
  have hendings : resting.endings other = m.endings other := endings_of_events hevents _
  by_cases hbegins : ∃ graph inputs next,
      request = .nest graph inputs next ∧ other = resting.nextRun
  · -- The node begins the run, which is new.
    obtain ⟨graph, inputs, next, rfl, rfl⟩ := hbegins
    have hnew : m.view resting.nextRun = {} := by
      rw [hrests.resumed.nextRun_eq]
      exact h.housed.view_nextRun
    have hactive : (resting.view resting.nextRun).active.isSome =
        (m.view resting.nextRun).active.isSome := by
      rw [hrests.new, hnew]
    rw [← standing_congr (hrests.new.trans hnew.symm) hendings 0,
      ← since_congr hendings hactive rfl rfl, ← hrests.later.provider_eq, asking, if_neg hne]
    simp only [↓reduceIte]
    exact steps_nested hrests.context hrests.old hrests.new hrests.accepted
  · have hquiet : ∀ graph inputs next,
        request = .nest graph inputs next → other ≠ resting.nextRun :=
      fun graph inputs next hrequest hother ↦ hbegins ⟨graph, inputs, next, hrequest, hother⟩
    have hserved := view_serve_of_ne hrests.context hrests.old hrests.new hrests.accepted
      hrests.wired hrests.aloof hne hquiet home
    have hkept := (endings_serve_of_ne hrests.context hne hquiet home).trans hendings
    have hpop : ({ m with frames := rest } : Machine).view other = m.view other :=
      (concerns_pop_frame hframes).view_eq other (Ne.symm hne)
    rw [asking_of_ne hne hquiet, List.nil_append]
    by_cases hwaited : ∃ next, a.progress = .nesting other next
    · -- The node has waited for the run, which is ended.
      obtain ⟨next, hprogress⟩ := hwaited
      refine steps_closed _ (hserved.trans ?_) hkept 0
      rw [hrests.resumed.view_ended other next hprogress, hpop]
    · refine steps_same _ (hserved.trans ?_) hkept 0
      rw [hrests.resumed.view_eq other fun next heq ↦ hwaited ⟨next, heq⟩, hpop]

/-- A node on the frames that has to wait. -/
theorem steps_shelved (hcontext : m.context? a.run = some c) {home : Option Nat} {rest : List Frame}
    (hframes : m.frames = .node a home :: rest) (hcan : m.canGoOn a = false) :
    Standing.Steps m.provider.registry (m.standing a.run 0) (m.since m.advance a.run)
      (m.advance.standing a.run 0) := by
  rw [advance_shelved hframes hcan, standing_pop_node hframes]
  exact steps_suspend (m := { m with frames := rest }) hcontext home 0

/-- The drain of a run ends when its queue is empty. -/
theorem steps_released (registry : Registry) (hcontext : m.context? run = some c)
    {rest : List Frame} (hframes : m.frames = .drain run :: rest) (hcalls : c.queue.calls = []) :
    Standing.Steps registry (m.standing run 0) (m.since m.advance run)
      (m.advance.standing run 0) := by
  have hview := view_released hframes hcontext hcalls
  have hpop : (m.view run).frames = .drain run :: _ := view_pop_frame hframes
  have hendings : m.advance.endings run = m.endings run := by
    rw [advance_released hframes hcontext hcalls]
    exact endings_of_events rfl run
  have hworks : (m.advance.view run).works = (m.view run).works := by
    have hidle : (m.view run).works =
        ({ m.view run with
          frames := (({ m with frames := rest } : Machine).view run).frames } : RunView).works := by
      rw [RunView.works, RunView.activities, hpop]
      rfl
    rw [hview, hidle]
    exact RunView.works_of_queue (v := { m.view run with frames := _ }) _ hcontext rfl
      (m.view run).active
  rw [since_of_eq hendings fun hsome ↦ by rwa [hview],
    standing_of_works_eq hcontext (congrArg RunView.context hview) (hview ▸ rfl) hendings
      ⟨rfl, rfl, rfl, rfl⟩ rfl hworks]
  exact .refl _

/-- The drain of a run takes the first call of its queue. -/
theorem steps_drained (h : m.Sound history) (hcontext : m.context? run = some c) {rest : List Frame}
    (hframes : m.frames = .drain run :: rest) {call : NodeCall} {calls : List NodeCall}
    (hcalls : c.queue.calls = call :: calls) :
    Standing.Steps m.provider.registry (m.standing run 0) (m.since m.advance run)
      (m.advance.standing run 0) := by
  -- The machine without the call, which is in hand.
  generalize htaken : m.modifyContext run (fun c' ↦
    { c' with queue := { c.queue with calls } }) = taken
  have hview : taken.view run =
      { m.view run with context := some { c with queue := { c.queue with calls } } } :=
    htaken ▸ view_withQueue hcontext _
  have hendings : taken.endings run = m.endings run := htaken ▸ endings_of_events rfl run
  have hprovider : taken.provider = m.provider := htaken ▸ rfl
  have hworks : (m.view run).works = (call, none) ::ₘ (taken.view run).works := by
    rw [hview]
    exact RunView.works_pop_call hcontext hcalls rfl
  have hstanding : m.standing run 0 = taken.standing run ((call, none) ::ₘ 0) :=
    standing_of_works (congrArg RunView.context hview) hcontext (hview ▸ rfl) hendings.symm
      ⟨rfl, rfl, rfl, rfl⟩ rfl hworks 0
  have hactive : (taken.view run).active.isSome = (m.view run).active.isSome := by
    rw [hview]
  rw [hstanding, ← since_congr hendings hactive rfl rfl, ← hprovider]
  cases hkind : m.provider.registry.get? call.kind with
  | none =>
    obtain ⟨lost, hbalanced⟩ := (h.views run).balanced
    have haccepts : (taken.view run).Accepts call.scope := by
      rw [hview]
      exact (hbalanced.takeCall hcontext hcalls).accepts
    rw [advance_skipped hframes hcontext hcalls hkind, htaken]
    exact steps_conclude (congrArg RunView.context hview) haccepts
      (.unknown (hprovider ▸ hkind)) 0
  | some kind =>
    have hentered : m.advance.endings run = taken.endings run := by
      rw [advance_taken hframes hcontext hcalls hkind, htaken]
      exact endings_of_events rfl run
    have hactives : (taken.view run).active.isSome = true →
        (m.advance.view run).active.isSome = true := by
      rw [hview, view_taken hframes hcontext hcalls hkind]
      exact id
    rw [since_of_eq hentered hactives, advance_taken hframes hcontext hcalls hkind, htaken,
      standing_enter taken { run, call, progress := .stalled }]
    exact steps_taken run (hprovider ▸ hkind) 0

/-- The drain of a run's queue moves. -/
theorem steps_drain (h : m.Sound history) (hcontext : m.context? run = some c) {rest : List Frame}
    (hframes : m.frames = .drain run :: rest) :
    Standing.Steps m.provider.registry (m.standing run 0) (m.since m.advance run)
      (m.advance.standing run 0) := by
  cases hcalls : c.queue.calls with
  | nil => exact steps_released _ hcontext hframes hcalls
  | cons call calls => exact steps_drained h hcontext hframes hcalls

theorem endings_drain_of_ne (hcontext : m.context? run = some c) {rest : List Frame}
    (hframes : m.frames = .drain run :: rest) (hne : run ≠ other) :
    m.advance.endings other = m.endings other := by
  cases hcalls : c.queue.calls with
  | nil =>
    rw [advance_released hframes hcontext hcalls]
    exact endings_of_events rfl other
  | cons call calls =>
    cases hkind : m.provider.registry.get? call.kind with
    | none =>
      rw [advance_skipped hframes hcontext hcalls hkind, endings_conclude, if_neg hne,
        List.append_nil]
      exact endings_of_events rfl other
    | some kind =>
      rw [advance_taken hframes hcontext hcalls hkind]
      exact endings_of_events rfl other

/-- The topmost frame moves. -/
theorem steps_advance (h : m.Sound history) (run : RunId) :
    Standing.Steps m.provider.registry (m.standing run 0) (m.deeds run .advance)
      (m.advance.standing run 0) := by
  by_cases hidle : m.frames = []
  · have hadvance : m.advance = m := by simp only [advance, hidle]
    have hdeeds : m.deeds run .advance = m.since m.advance run := by
      simp only [deeds, hidle, List.nil_append]
      rfl
    rw [hdeeds, hadvance]
    exact steps_same _ rfl rfl 0
  · obtain ⟨frame, rest, hframes⟩ := List.exists_cons_of_ne_nil hidle
    obtain ⟨c, hcontext⟩ := h.housed.context_of_frame hframes
    cases frame with
    | drain owner =>
      have hdeeds : m.deeds run .advance = m.since m.advance run := by
        simp only [deeds, hframes, List.nil_append]
        rfl
      rw [hdeeds]
      by_cases hrun : owner = run
      · subst hrun
        exact steps_drain h hcontext hframes
      · exact steps_same _ ((concerns_drain hframes hcontext).view_eq run (Ne.symm hrun))
          (endings_drain_of_ne hcontext hframes hrun) 0
    | node a home =>
      cases hcan : m.canGoOn a with
      | true =>
        by_cases hrun : a.run = run
        · subst hrun
          exact steps_served h hframes hcan
        · exact steps_served_of_ne h hframes hcan hrun
      | false =>
        have hdeeds : m.deeds run .advance = m.since m.advance run := by
          simp only [deeds, hframes, hcan, Bool.false_eq_true, ↓reduceIte, List.nil_append]
          rfl
        rw [hdeeds]
        by_cases hrun : a.run = run
        · subst hrun
          exact steps_shelved hcontext hframes hcan
        · have hevents : m.advance.events = m.events := by
            rw [advance_shelved hframes hcan]
            cases home with
            | none => exact events_spawn { m with frames := rest } a
            | some task => rfl
          have hconcerns : Concerns a.run m m.advance := by
            rw [advance_shelved hframes hcan]
            exact (concerns_pop_frame hframes).trans (concerns_suspend _ a home)
          exact steps_same _ (hconcerns.view_eq run (Ne.symm hrun))
            (endings_of_events hevents run) 0

/-- A suspended activity is put back. -/
theorem steps_poll (run : RunId) (task : Nat) :
    Standing.Steps m.provider.registry (m.standing run 0) (m.since (m.poll task) run)
      ((m.poll task).standing run 0) := by
  by_cases hready : ∃ a tasks, m.frames = [] ∧ takeTask task m.tasks = some (a, tasks) ∧
      m.canGoOn a = true
  · obtain ⟨a, tasks, hframes, hfound, hcan⟩ := hready
    have hendings : (m.poll task).endings run = m.endings run := by
      rw [poll_eq hframes hfound hcan]
      exact endings_of_events rfl run
    by_cases hrun : a.run = run
    · subst hrun
      obtain ⟨before, after, htasks, hview⟩ := view_poll hframes hfound hcan
      have hworks : ((m.poll task).view a.run).works = (m.view a.run).works := by
        have hidle : (m.view a.run).frames = [] := by
          simp [view, hframes]
        refine Multiset.coe_eq_coe.mpr ?_
        rw [hview, RunView.activities, RunView.activities, htasks, hidle]
        refine List.Perm.append_left _ (List.Perm.map _ ?_)
        simpa [Frame.activity?] using List.perm_middle.symm
      have hstanding : (m.poll task).standing a.run 0 = m.standing a.run 0 := by
        rw [standing, RunView.standing, hworks, hendings, hview]
        rfl
      rw [since_of_eq hendings fun hsome ↦ by rwa [hview], hstanding]
      exact .refl _
    · exact steps_same _ ((concerns_poll hframes hfound hcan).view_eq run (Ne.symm hrun)) hendings 0
  · rw [poll_of_not_ready hready]
    exact steps_same _ rfl rfl 0

theorem steps_step (h : m.Sound history) (run : RunId) (move : Move) :
    Standing.Steps m.provider.registry (m.standing run 0) (m.deeds run move)
      ((m.step move).standing run 0) := by
  cases move with
  | advance => exact steps_advance h run
  | poll task => exact steps_poll run task
  | tick moment => exact steps_same _ rfl rfl 0

/-! ### Everything that may happen -/

/-- A context is created. -/
theorem steps_open (h : m.Sound history) (graph : GraphInstance) (config : RunConfig)
    (hasTasks : Bool) (run : RunId) :
    Standing.Steps m.provider.registry (m.standing run 0) []
      ((m.open_ graph config hasTasks).2.standing run 0) := by
  have hendings : (m.open_ graph config hasTasks).2.endings run = m.endings run := rfl
  by_cases hrun : run = m.nextRun
  · subst hrun
    have hnew := h.housed.view_nextRun
    have hstarted : (m.standing m.nextRun 0).started = false := by
      rw [standing, hnew]
      rfl
    have hopened : (m.open_ graph config hasTasks).2.standing m.nextRun 0 =
        { m.standing m.nextRun 0 with config, hasTasks } := by
      rw [standing, view_open, hendings, standing, hnew]
      rfl
    rw [hopened]
    exact (Standing.Step.opened config hasTasks hstarted).steps
  · rw [standing_congr ((concerns_open m graph config hasTasks).view_eq run hrun) hendings]
    exact .refl _

theorem standing_onComplete (m : Machine) (owner : RunId) (handler : CompletionHandler)
    (run : RunId) (hand : Multiset Work) :
    (m.onComplete owner handler).standing run hand = m.standing run hand := by
  have hendings := endings_onComplete m owner handler run
  by_cases hrun : owner = run
  · subst hrun
    have hview := view_onComplete m owner handler
    cases hcontext : (m.view owner).context with
    | none =>
      refine standing_congr ?_ hendings hand
      rw [hview, hcontext, Option.map_none, ← hcontext]
    | some c =>
      rw [hcontext, Option.map_some] at hview
      exact standing_of_works_eq hcontext (congrArg RunView.context hview) (hview ▸ rfl) hendings
        ⟨rfl, rfl, rfl, rfl⟩ rfl (works_of_view hcontext hview rfl) hand
  · exact standing_congr ((concerns_onComplete m owner handler).view_eq run (Ne.symm hrun))
      hendings hand

variable {more journal : RunId → List Deed}

/-- Whatever happens takes each run some steps further. -/
theorem steps_of_occurs (h : m.Sound history) (hnext : Occurs m m' more) (run : RunId) :
    Standing.Steps m.provider.registry (m.standing run 0) (more run) (m'.standing run 0) := by
  cases hnext with
  | moved move => exact steps_step h run move
  | opened graph config hasTasks => exact steps_open h graph config hasTasks run
  | started owner c inputs hcontext hinputs =>
    by_cases hrun : owner = run
    · subst hrun
      have hidle := ((h.views owner).unstarted c hcontext hinputs).active
      simp only [↓reduceIte]
      exact steps_start hcontext hinputs hidle h.accepted inputs 0
    · simp only [Ne.symm hrun, ↓reduceIte, List.nil_append]
      exact steps_same _ ((concerns_start hcontext hinputs inputs).view_eq run (Ne.symm hrun))
        (endings_start_of_ne hrun inputs) 0
  | ended owner =>
    by_cases hrun : owner = run
    · subst hrun
      exact steps_closed _ (view_endRun m owner) (endings_of_events rfl owner) 0
    · exact steps_same _ ((concerns_endRun m owner).view_eq run (Ne.symm hrun))
        (endings_of_events rfl run) 0
  | handled owner handler => exact .of_eq (standing_onComplete m owner handler run 0).symm
  | changed world hruns haccepted =>
    have hview : ({ m with world } : Machine).view run = m.view run := by
      simp [view, context?, hruns]
    exact .of_eq (standing_congr hview (endings_of_events rfl run) 0).symm

/-- Everything that happens in some order takes each run some steps further, and its journal tells
just what is told of them. -/
theorem steps_of_records (h : m.Sound history) (hrecords : Records m m' journal) (run : RunId) :
    Standing.Steps m.provider.registry (m.standing run 0) (journal run) (m'.standing run 0) := by
  induction hrecords with
  | refl => exact .refl _
  | next hrecords hnext ih =>
    obtain ⟨written, hleads⟩ := hrecords.leads
    have hsteps := steps_of_occurs (h.leads hleads) hnext run
    rw [(later_of_leads h hleads).provider_eq] at hsteps
    exact ih.trans hsteps

end Blueprint.Machine

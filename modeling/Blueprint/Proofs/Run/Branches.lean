import Blueprint.Proofs.Node.Joining
import Blueprint.Proofs.Run.Nesting
import Blueprint.Proofs.Run.Onward

/-!
The branches that nodes start. What becomes of a run is one of four things (`RunView.Passes`): it is
not started yet, it is started, it rests, or some of its work is done. What the journal tells of a
trigger is borne out by the scopes before and after it (`Machine.opens_of_triggered`).

So in every run the scope of a branch stays below the scope of the node that has started it: that one
is pending as long as the branch is. And the scope of a node is pending as long as the node is at
work (`Machine.stemmed_of_records`). Pins that were triggered are those that the graph of the run
declares (`Machine.wires_of_records`).
-/

set_option autoImplicit false

namespace Blueprint

namespace RunView

variable {m m' : Machine} {run : RunId} {v after : RunView} {c : Context} {provider : Provider}
  {history written : List (String × Value)}

/-- A run that has not been started. -/
def Idle (v : RunView) : Prop := ∀ c, v.context = some c → c.inputs = none

/-- What may become of a run, as far as its books and its work go. -/
inductive Passes (m m' : Machine) (run : RunId) (v : RunView) : RunView → Prop
  | idle {after : RunView} (hidle : after.Idle) : Passes m m' run v after
  /-- The run is started. -/
  | begun {before after : RunView} {c : Context} {graphs : Table Nat Graph} {inputs : Inputs}
      {lost : List Nat} (hidle : v.Idle) (hunstarted : before.Unstarted c)
      (hbegins : Begins m m' run graphs before c inputs after lost) : Passes m m' run v after
  /-- At most the interpreter forgets the run. -/
  | rested {c later : Context} {active : Option ActiveRun} (hcontext : v.context = some c)
      (hpending : later.tracker.pending = c.tracker.pending)
      (hwaiters : later.tracker.waiters = c.tracker.waiters) (hqueue : later.queue = c.queue)
      (hactive : active = v.active ∨ active = none) :
      Passes m m' run v { v with context := some later, active }
  | worked {after : RunView} {c : Context} {written : List (String × Value)} {lost : List Nat}
      (hcontext : v.context = some c) (hlabour : Labour m m' run v c after written lost) :
      Passes m m' run v after

/-- Assumes: a run whose books and work are as they were. -/
theorem passes_of_rest {change : Context → Context} (active : Option ActiveRun)
    (hpending : ∀ c, (change c).tracker.pending = c.tracker.pending)
    (hwaiters : ∀ c, (change c).tracker.waiters = c.tracker.waiters)
    (hqueue : ∀ c, (change c).queue = c.queue) (hactive : active = v.active ∨ active = none) :
    Passes m m' run v { v with context := v.context.map change, active } := by
  cases hcontext : v.context with
  | none => exact .idle nofun
  | some c => exact .rested hcontext (hpending c) (hwaiters c) (hqueue c) hactive

/-- Whatever alters a run. -/
theorem Alters.passes (h : Alters m m' run v after written) (hsound : Sound provider run history v) :
    Passes m m' run v after := by
  have hrest (active : Option ActiveRun) (hactive : active = v.active ∨ active = none) :
      Passes m m' run v { v with context := v.context.map fun c ↦ c, active } :=
    passes_of_rest active (fun _ ↦ rfl) (fun _ ↦ rfl) (fun _ ↦ rfl) hactive
  rw [Option.map_id'] at hrest
  cases h with
  | changed hchanges =>
    cases hchanges with
    | same => exact hrest v.active (Or.inl rfl)
    | worked hcontext hlabour => exact .worked hcontext hlabour
    | ended => exact hrest none (Or.inr rfl)
    | begun graphs graph config inputs a home rest next hframes hresumes hrun hnext hgraphs hbegins =>
      refine .begun nofun ?_ hbegins
      exact ⟨rfl, rfl, rfl, rfl, ⟨fun _ ↦ rfl, rfl, rfl, rfl⟩, rfl, rfl⟩
  | opened graph config hasTasks hrun =>
    refine .idle fun c hcontext ↦ ?_
    obtain rfl := Option.some.inj hcontext
    rfl
  | started graphs inputs hcontext hinputs hgraphs hbegins =>
    refine .begun (fun c' hcontext' ↦ ?_) (hsound.unstarted _ hcontext hinputs) hbegins
    obtain rfl := Option.some.inj (hcontext.symm.trans hcontext')
    exact hinputs
  | ended => exact hrest none (Or.inr rfl)
  | handled _ handler =>
    refine passes_of_rest v.active (fun c ↦ (c.tracker.extends_onComplete handler).pending_eq)
      (fun c ↦ ?_) (fun _ ↦ rfl) (Or.inl rfl)
    unfold Tracker.onComplete
    split_ifs <;> rfl

/-! ### Tickets, and nodes without a task -/

theorem Unstarted.quiet (h : v.Unstarted c) : v.Quiet :=
  ⟨by simp [RunView.activities, h.frames, h.tasks], by simp [queued, h.context, h.calls]⟩

theorem Sound.quiet_of_idle (h : Sound provider run history v) (hidle : v.Idle) : v.Quiet := by
  cases hcontext : v.context with
  | none =>
    rw [h.empty hcontext]
    exact ⟨rfl, rfl⟩
  | some c => exact (h.unstarted c hcontext (hidle c hcontext)).quiet

/-- Before the start nobody waits, and no call is queued. -/
theorem Sound.ticketed_of_idle (h : Sound provider run history v) (hidle : v.Idle) (next : Nat)
    (registry : Registry) : v.Ticketed next ∧ v.Inline registry := by
  obtain ⟨hactivities, hqueued⟩ := h.quiet_of_idle hidle
  refine ⟨⟨fun c hcontext waiter hwaiter ↦ ?_, fun a ha ↦ ?_⟩, fun call hcall ↦ ?_, fun a ha ↦ ?_⟩
  · rw [(h.unstarted c hcontext (hidle c hcontext)).tracker.waiters] at hwaiter
    cases hwaiter
  · rw [hactivities] at ha
    cases ha
  · rw [hqueued] at hcall
    cases hcall
  · have hmem : a ∈ v.activities := mem_activities.mpr (Or.inl ⟨none, ha⟩)
    rw [hactivities] at hmem
    cases hmem

theorem Passes.ticketed (h : Passes m m' run v after) (hsound : Sound provider run history after)
    (hle : m.nextTicket ≤ m'.nextTicket) (hticketed : v.Ticketed m.nextTicket)
    (hinline : v.Inline m.provider.registry) :
    after.Ticketed m'.nextTicket ∧ after.Inline m.provider.registry := by
  cases h with
  | idle hidle => exact hsound.ticketed_of_idle hidle _ _
  | begun hidle hunstarted hbegins => exact hunstarted.ticketed_begins hbegins _
  | @rested c later active hcontext hpending hwaiters hqueue hactive =>
    refine ⟨⟨fun c' hc' waiter hwaiter ↦ ?_, fun a ha tickets next hprogress ticket hticket ↦ ?_⟩, ?_⟩
    · obtain rfl := Option.some.inj hc'
      rw [hwaiters] at hwaiter
      obtain ⟨hwaits, hlt⟩ := hticketed.waiters c hcontext waiter hwaiter
      rw [Tracker.isPending] at hwaits ⊢
      exact ⟨hpending ▸ hwaits, Nat.lt_of_lt_of_le hlt hle⟩
    · exact Nat.lt_of_lt_of_le (hticketed.tickets a ha tickets next hprogress ticket hticket) hle
    · refine hinline.of_eq ?_ fun _ ha ↦ ha
      simp only [queued, hcontext, Option.map_some, hqueue]
  | worked hcontext hlabour =>
    exact ⟨hticketed.labour hle hcontext hlabour, hinline.labour hlabour hcontext⟩

end RunView

namespace Machine

variable {m m' : Machine} {journals : RunId → List Deed}

/-- Before anything has happened, no run has been started. -/
theorem Blank.idle (h : m.Blank) (run : RunId) : (m.view run).Idle :=
  fun _ hcontext ↦ nomatch (h.context run).symm.trans hcontext

/-- In every machine that can be reached, the tickets of a run were given out, and its nodes that have
no task are sync nodes. -/
theorem ticketed_of_records (hblank : m.Blank) (hrecords : Records m m' journals) (run : RunId) :
    (m'.view run).Ticketed m'.nextTicket ∧ (m'.view run).Inline m.provider.registry := by
  induction hrecords with
  | refl => exact (hblank.sound.views run).ticketed_of_idle (hblank.idle run) _ _
  | @next middle later journal more hrecords hnext ih =>
    obtain ⟨history, hleads⟩ := hrecords.leads
    obtain ⟨written, hhappens⟩ := hnext.happens
    have hsound := hblank.leads hleads
    have hpasses := (alters_of_happens hsound.housed hhappens run).passes (hsound.views run)
    rw [← (later_of_leads hblank.sound hleads).provider_eq] at ih ⊢
    exact hpasses.ticketed ((hsound.happens hhappens).views run)
      (later_of_happens hsound.housed hhappens).nextTicket_le ih.1 ih.2

/-- In every machine that can be reached, and for every run without a place for tasks: only sync nodes
are at work. -/
theorem sync_of_records (hblank : m.Blank) (hrecords : Records m m' journals) {run : RunId}
    {c : Context} (hcontext : m'.context? run = some c) (hplace : c.hasTasks = false) {a : Activity}
    (ha : a ∈ (m'.view run).activities) : RunView.IsSync m.provider.registry a.call := by
  refine (ticketed_of_records hblank hrecords run).2.sync_of_seated ?_ hcontext hplace ha
  clear hcontext ha
  induction hrecords generalizing run with
  | refl => exact fun c hcontext ↦ nomatch (hblank.context run).symm.trans hcontext
  | next hrecords hnext ih =>
    obtain ⟨history, hleads⟩ := hrecords.leads
    obtain ⟨written, hhappens⟩ := hnext.happens
    exact (hblank.leads hleads).seated_happens hhappens (fun other ↦ ih) run

/-! ### Triggers -/

variable {run : RunId} {a : Activity} {home : Option Nat} {rest : List Frame} {c : Context}
  {call : NodeCall} {pin : String} {outcome : Except EngineError Nat}
  {next : Except EngineError Nat → Behaviour} {history : RunId → List (String × Value)}

/-- What the interpreter asks for is not done by a node. -/
theorem scope?_of_begun {callbacks : List Callback} {deed : Deed} (h : deed ∈ begun callbacks) :
    deed.scope? = none := by
  obtain ⟨call, -, rfl⟩ := List.mem_map.mp h
  rfl

/-- What has ended is not done by a node either, and puts nothing on pins. -/
theorem quiet_of_since {deed : Deed} (h : deed ∈ m.since m' run) :
    deed.scope? = none ∧ deed.puts = [] := by
  rcases List.mem_append.mp h with hended | hclosed
  · obtain ⟨ended, -, rfl⟩ := List.mem_map.mp hended
    exact ⟨rfl, rfl⟩
  · split_ifs at hclosed
    · obtain rfl := List.mem_singleton.mp hclosed
      exact ⟨rfl, rfl⟩
    · cases hclosed

/-- A node that is on top of the frames and can go on makes a request. -/
structure Requesting (m : Machine) (a : Activity) (home : Option Nat) (rest : List Frame)
    (request : Behaviour) (resting : Machine) : Prop where
  frames : m.frames = .node a home :: rest
  can : m.canGoOn a = true
  resume_eq : ({ m with frames := rest } : Machine).resume a.progress = (request, resting)

theorem doing_of_asking {request : Behaviour} {deed : Deed} (h : deed ∈ m.asking run a request)
    (hscope : deed.scope? ≠ none) : a.run = run ∧ deed ∈ m.doing a request := by
  unfold asking at h
  by_cases hrun : a.run = run
  · rw [if_pos hrun] at h
    exact ⟨hrun, h⟩
  · rw [if_neg hrun] at h
    cases request with
    | nest graph inputs next =>
      dsimp only at h
      split_ifs at h
      · exact absurd (scope?_of_begun h) hscope
      · cases h
    | _ => cases h

/-- What is told of a node is what it does by the request that it makes. -/
theorem requesting_of_deeds {move : Move} {deed : Deed} (h : deed ∈ m.deeds run move)
    (hscope : deed.scope? ≠ none) :
    move = .advance ∧ ∃ a home rest request resting, m.Requesting a home rest request resting ∧
      a.run = run ∧ deed ∈ resting.doing a request := by
  rcases List.mem_append.mp h with hasked | hended
  · split at hasked
    · rename_i a home rest hframes
      split_ifs at hasked with hcan
      · generalize hresume : ({ m with frames := rest } : Machine).resume a.progress = resumed
          at hasked
        obtain ⟨request, resting⟩ := resumed
        obtain ⟨hrun, hdoing⟩ := doing_of_asking hasked hscope
        exact ⟨rfl, a, home, rest, request, resting, ⟨hframes, hcan, hresume⟩, hrun, hdoing⟩
      · cases hasked
    · cases hasked
  · exact absurd (quiet_of_since hended).1 hscope

theorem requesting_of_occurs {more : RunId → List Deed} (hnext : Occurs m m' more) {deed : Deed}
    (h : deed ∈ more run) (hscope : deed.scope? ≠ none) :
    m' = m.advance ∧ more run = m.deeds run .advance ∧ ∃ a home rest request resting,
      m.Requesting a home rest request resting ∧ a.run = run ∧ deed ∈ resting.doing a request := by
  cases hnext with
  | moved move =>
    obtain ⟨rfl, hrequesting⟩ := requesting_of_deeds h hscope
    exact ⟨rfl, rfl, hrequesting⟩
  | started owner c inputs =>
    rcases List.mem_append.mp h with hbegun | hended
    · split_ifs at hbegun
      · exact absurd (scope?_of_begun hbegun) hscope
      · cases hbegun
    · exact absurd (quiet_of_since hended).1 hscope
  | ended owner => exact absurd (quiet_of_since h).1 hscope
  | opened | handled | changed => cases h

/-- What is told of a run when one of its nodes makes a request. -/
theorem Requesting.deeds_eq {request : Behaviour} {resting : Machine}
    (h : m.Requesting a home rest request resting) :
    m.deeds a.run .advance = resting.doing a request ++ m.since m.advance a.run := by
  rw [deeds_served h.frames h.can, h.resume_eq, asking_own]

/-- The node has taken in what it waited for, and its run is as it was. -/
theorem Requesting.rests {request : Behaviour} {resting : Machine}
    (h : m.Requesting a home rest request resting) (hhoused : m.Housed) :
    ∃ c, Rests m resting a c rest request := by
  obtain ⟨c, hcontext⟩ := hhoused.context_of_frame h.frames
  have hrests := hhoused.rests h.frames h.can hcontext
  rw [h.resume_eq] at hrests
  exact ⟨c, hrests⟩

/-- Then the request is served. -/
theorem Requesting.advance_eq {request : Behaviour} {resting : Machine}
    (h : m.Requesting a home rest request resting) : m.advance = resting.serve a home request := by
  rw [advance_served h.frames h.can, h.resume_eq]

theorem Requesting.mem_activities {request : Behaviour} {resting : Machine}
    (h : m.Requesting a home rest request resting) : a ∈ (m.view a.run).activities :=
  mem_activities_view.mpr ⟨rfl, Or.inl ⟨home, h.frames ▸ List.mem_cons_self⟩⟩

/-- A node that is on top of the frames and can go on triggers a pin. -/
structure Triggering (m : Machine) (a : Activity) (home : Option Nat) (rest : List Frame)
    (pin : String) (next : Except EngineError Nat → Behaviour) (resting : Machine) : Prop where
  frames : m.frames = .node a home :: rest
  can : m.canGoOn a = true
  resume_eq : ({ m with frames := rest } : Machine).resume a.progress = (.trigger pin next, resting)

theorem Triggering.requesting {resting : Machine} (h : m.Triggering a home rest pin next resting) :
    m.Requesting a home rest (.trigger pin next) resting := ⟨h.frames, h.can, h.resume_eq⟩

/-- What the interpreter replies to a node that triggers a pin. -/
def triggerReply (m : Machine) (a : Activity) (pin : String) : Interpreter.Reply Nat :=
  m.world.interpreter.trigger a.run a.call.scope a.call.node pin (m.bindings a.run)

theorem trigger_of_doing {request : Behaviour}
    (h : .triggered call pin outcome ∈ m.doing a request) :
    ∃ next, request = .trigger pin next ∧ a.call = call ∧
      outcome = (m.triggerReply a pin).outcome := by
  cases request with
  | trigger other next =>
    rcases List.mem_cons.mp h with hdeed | hbegun
    · obtain ⟨rfl, rfl, rfl⟩ := Deed.triggered.inj hdeed
      exact ⟨next, rfl, rfl, rfl⟩
    · cases scope?_of_begun hbegun
  | _ => simp [doing] at h

/-- Whatever tells of a trigger is the move of the node. -/
theorem triggering_of_deeds {move : Move} (h : .triggered call pin outcome ∈ m.deeds run move) :
    move = .advance ∧ ∃ a home rest next resting, m.Triggering a home rest pin next resting ∧
      a.run = run ∧ a.call = call ∧ outcome = (resting.triggerReply a pin).outcome := by
  obtain ⟨hmove, a, home, rest, request, resting, ⟨hframes, hcan, hresume⟩, hrun, hdoing⟩ :=
    requesting_of_deeds h (Option.some_ne_none _)
  obtain ⟨next, rfl, hcall, houtcome⟩ := trigger_of_doing hdoing
  exact ⟨hmove, a, home, rest, next, resting, ⟨hframes, hcan, hresume⟩, hrun, hcall, houtcome⟩

theorem triggering_of_occurs {m' : Machine} {more : RunId → List Deed} (hnext : Occurs m m' more)
    (h : .triggered call pin outcome ∈ more run) :
    m' = m.advance ∧ ∃ a home rest next resting, m.Triggering a home rest pin next resting ∧
      a.run = run ∧ a.call = call ∧ outcome = (resting.triggerReply a pin).outcome := by
  obtain ⟨hlater, -, a, home, rest, request, resting, ⟨hframes, hcan, hresume⟩, hrun, hdoing⟩ :=
    requesting_of_occurs hnext h (Option.some_ne_none _)
  obtain ⟨next, rfl, hcall, houtcome⟩ := trigger_of_doing hdoing
  exact ⟨hlater, a, home, rest, next, resting, ⟨hframes, hcan, hresume⟩, hrun, hcall, houtcome⟩

/-- What a trigger tells is its deed, before anything else. -/
theorem Triggering.deeds_eq {resting : Machine} (h : m.Triggering a home rest pin next resting) :
    ∃ later, m.deeds a.run .advance =
      .triggered a.call pin (resting.triggerReply a pin).outcome :: later :=
  ⟨_, h.requesting.deeds_eq⟩

end Machine

/-- What a trigger does to the scopes of a run, by its outcome. -/
inductive RunView.Opens (v after : RunView) (call : NodeCall) (pin : String) :
    Except EngineError Nat → Prop
  | refused (error : EngineError)
      (hpin : ∀ active, v.active = some active → active.graph.target? call.node pin = none) :
      Opens v after call pin (.error error)
  | opened {active later : ActiveRun} (wired : Bool) (hactive : v.active = some active)
      (hlater : after.active = some later)
      (hpin : active.graph.target? call.node pin ≠ none)
      (hscopes : (active.scopes.openNext wired call.scope).Onward later.scopes) :
      Opens v after call pin (.ok active.scopes.next)

namespace Machine

variable {m m' : Machine} {run : RunId} {a : Activity} {home : Option Nat} {rest : List Frame}
  {c : Context} {call : NodeCall} {pin : String} {outcome : Except EngineError Nat}
  {next : Except EngineError Nat → Behaviour} {history : RunId → List (String × Value)}

/-- Assumes: the graph of the run, if it is under way, is wired. -/
theorem opens_trigger (hcontext : m.context? a.run = some c)
    (hwired : ∀ active, m.world.interpreter.runs.get? a.run = some active → active.graph.Wired)
    (home : Option Nat) (pin : String) (next : Except EngineError Nat → Behaviour) :
    RunView.Opens (m.view a.run) ((m.serve a home (.trigger pin next)).view a.run) a.call pin
      (m.triggerReply a pin).outcome := by
  have hserve : m.serve a home (.trigger pin next) =
      (m.enter a home (.going (next (m.triggerReply a pin).outcome))).accept a.run
        (m.triggerReply a pin) := rfl
  rw [hserve, triggerReply]
  cases hactive : m.world.interpreter.runs.get? a.run with
  | none =>
    rw [Interpreter.trigger_of_no_run hactive]
    exact .refused _ fun active hsome ↦ nomatch hactive.symm.trans hsome
  | some active =>
    have htriggers := Interpreter.triggers_trigger hactive (hwired active hactive) a.call.scope
      a.call.node pin (m.bindings a.run)
    generalize m.world.interpreter.trigger a.run a.call.scope a.call.node pin
      (m.bindings a.run) = reply at htriggers
    cases htriggers with
    | refused error hpin =>
      refine .refused error fun other hother ↦ ?_
      obtain rfl := Option.some.inj (hactive.symm.trans hother)
      exact hpin
    | unwired hpin =>
      have hlater := Table.get?_insert_self m.world.interpreter.runs a.run
        { active with scopes := active.scopes.openNext false a.call.scope }
      exact .opened false hactive
        ((congrArg RunView.active (view_accept_of_quiet (by simp))).trans hlater)
        (hpin ▸ Option.some_ne_none _) (.refl _)
    | wired target hpin htarget =>
      have hlater := Table.get?_insert_self m.world.interpreter.runs a.run
        { active with scopes := active.scopes.openNext true a.call.scope }
      have hentered := (congrArg RunView.context
        (view_enter m a home (.going (next (.ok active.scopes.next))))).trans hcontext
      obtain ⟨bindings, lost, hinvokes⟩ := invokes_accept
        { outcome := Except.ok active.scopes.next
          state := { m.world.interpreter with
            runs := m.world.interpreter.runs.insert a.run
              { active with scopes := active.scopes.openNext true a.call.scope } }
          callbacks := .dispatched active.scopes.next ::
            Interpreter.startNode active.inputs (m.bindings a.run) target active.scopes.next }
        hentered (.refl _) rfl (fun other hother ↦ Table.get?_insert_of_ne _ (Ne.symm hother) _) rfl
      have honward : RunView.Onward 0 0 _ _ := hinvokes.onward rfl
      obtain ⟨later, hsome, -, hscopes⟩ := honward.active _ hlater
      exact .opened true hactive hsome (hpin ▸ Option.some_ne_none _) hscopes

/-- What a journal tells of a trigger is borne out by the scopes. -/
theorem opens_of_triggered (h : m.Sound history) {more : RunId → List Deed}
    (hnext : Occurs m m' more) (htold : .triggered call pin outcome ∈ more run) :
    RunView.Opens (m.view run) (m'.view run) call pin outcome := by
  obtain ⟨rfl, a, home, rest, next, resting, htriggering, rfl, rfl, rfl⟩ :=
    triggering_of_occurs hnext htold
  obtain ⟨c, hrests⟩ := htriggering.requesting.rests h.housed
  rw [htriggering.requesting.advance_eq]
  have hopens := opens_trigger hrests.context hrests.wired home pin next
  rw [hrests.view_eq] at hopens
  generalize (resting.triggerReply a pin).outcome = outcome at hopens ⊢
  cases hopens with
  | refused error hpin => exact .refused error hpin
  | opened wired hactive hlater hpin hscopes => exact .opened wired hactive hlater hpin hscopes

end Machine

/-! ### Where the branches are -/

namespace RunView

variable {m m' : Machine} {run : RunId} {v after : RunView} {c : Context} {provider : Provider}
  {history : List (String × Value)} {hand lost : List Nat} {journal told : List Deed}
  {active later : ActiveRun} {call : NodeCall} {pin : String} {scope : Nat}

/-- A scope of a run is pending. -/
def Pending (v : RunView) (scope : Nat) : Prop :=
  ∃ c, v.context = some c ∧ c.tracker.isPending scope = true

theorem pending_congr {before later : Context} (hcontext : v.context = some before)
    (hafter : after.context = some later) (hpending : later.tracker.pending = before.tracker.pending)
    (scope : Nat) : after.Pending scope ↔ v.Pending scope := by
  simp only [Pending, hcontext, hafter, Option.some.injEq, exists_eq_left', Tracker.isPending,
    hpending]

/-- While a run is under way, the open scopes are pending. -/
theorem Balanced.pending_iff (h : v.Balanced hand lost) (hcontext : v.context = some c)
    (hactive : v.active = some active) (scope : Nat) :
    v.Pending scope ↔ (active.scopes.entries.get? scope).isSome = true := by
  have hagrees := (h.agrees c active hcontext hactive).pending scope
  simp only [Pending, hcontext, Option.some.injEq, exists_eq_left', Tracker.isPending,
    Table.contains, hagrees, Option.isSome_map]

/-- The scope of a node that is at work or queued is pending. -/
theorem Balanced.pending_of_works (h : v.Balanced [] lost) (hcontext : v.context = some c)
    (hactive : v.active = some active) {work : Work} (hwork : work ∈ v.works) :
    v.Pending work.1.scope := by
  refine (h.pending_iff hcontext hactive _).mpr (ScopeTable.isSome_of_awaits ?_)
  rcases List.mem_append.mp (Multiset.mem_coe.mp hwork) with hqueued | hactivity
  · obtain ⟨call, hcall, rfl⟩ := List.mem_map.mp hqueued
    by_contra hfinished
    have hbalance := h.balance active hactive call.scope
    have hsome : 0 < v.queued.countP (·.scope == call.scope) :=
      List.countP_pos_iff.mpr ⟨_, hcall, by simp⟩
    rw [if_neg hfinished, workOn] at hbalance
    omega
  · obtain ⟨a, ha, rfl⟩ := List.mem_map.mp hactivity
    exact h.awaits_of_mem hactive ha

theorem Sound.exists_context (h : Sound provider run history v) (hactive : v.active = some active) :
    ∃ c, v.context = some c := by
  cases hcontext : v.context with
  | some c => exact ⟨c, rfl⟩
  | none =>
    rw [h.empty hcontext] at hactive
    cases hactive

theorem Sound.active_of_idle (h : Sound provider run history v) (hidle : v.Idle) :
    v.active = none := by
  cases hcontext : v.context with
  | none => rw [h.empty hcontext]
  | some c => exact (h.unstarted c hcontext (hidle c hcontext)).active

/-- Assumes: a run that is under way, and was started before. -/
theorem Passes.scopes (h : Passes m m' run v after) (hsound : Sound provider run history after)
    (hlater : after.active = some later) : v.Idle ∨ ∃ active, v.active = some active ∧
      later.graph = active.graph ∧ active.scopes.Onward later.scopes := by
  cases h with
  | idle hidle => cases (hsound.active_of_idle hidle).symm.trans hlater
  | begun hidle => exact Or.inl hidle
  | rested hcontext hpending hwaiters hqueue hactive =>
    rcases hactive with rfl | rfl
    · exact Or.inr ⟨later, hlater, rfl, .refl _⟩
    · cases hlater
  | worked hcontext hlabour =>
    have honward := hlabour.onward hcontext
    cases hactive : v.active with
    | none => cases (honward.idle hactive).symm.trans hlater
    | some active =>
      obtain ⟨other, hother, hgraph, hscopes⟩ := honward.active active hactive
      obtain rfl := Option.some.inj (hlater.symm.trans hother)
      exact Or.inr ⟨active, rfl, hgraph, hscopes⟩

theorem works_eq_zero (hactivities : v.activities = []) (hqueued : v.queued = []) : v.works = 0 := by
  rw [works, hactivities, hqueued]
  rfl

/-- Assumes: a run that was started and is not under way. Either that has happened just now and there
is no work, or the same scopes are pending as before. -/
theorem Passes.closed (h : Passes m m' run v after) (hsound : Sound provider run history v)
    (hstarted : ¬ after.Idle) (hnone : after.active = none) : (v.Idle ∧ after.works = 0) ∨
      (∀ scope, after.Pending scope ↔ v.Pending scope) ∧
        (after.works = v.works ∨ ¬ v.Idle ∧ v.active = none) := by
  cases h with
  | idle hidle => exact absurd hidle hstarted
  | begun hidle hunstarted hbegins =>
    obtain ⟨hactivities, hqueued⟩ := hbegins.quiet hunstarted.context hunstarted.quiet hnone
    exact Or.inl ⟨hidle, works_eq_zero hactivities hqueued⟩
  | @rested c later active hcontext hpending hwaiters hqueue =>
    exact Or.inr ⟨pending_congr hcontext rfl hpending,
      Or.inl (works_of_queue later hcontext (congrArg SyncQueue.calls hqueue) active)⟩
  | @worked _ c _ _ hcontext hlabour =>
    have honward := hlabour.onward hcontext
    cases hactive : v.active with
    | none =>
      obtain ⟨later, hafter, -, hpending⟩ := honward.tracker _ hcontext
      refine Or.inr ⟨pending_congr hcontext hafter (hpending hactive),
        Or.inr ⟨fun hidle ↦ ?_, rfl⟩⟩
      have hunstarted := hsound.unstarted c hcontext (hidle c hcontext)
      exact not_labour_of_idle hunstarted.frames hunstarted.tasks hlabour
    | some active =>
      obtain ⟨later, hsome, -⟩ := honward.active active hactive
      cases hsome.symm.trans hnone

/-- The scope of a branch is the next one, below the scope of the node that starts it. -/
theorem Opens.parent (h : v.Opens after call pin (.ok scope)) (hsound : Sound provider run history v)
    {a : Activity} (ha : a ∈ v.activities) (hcall : a.call = call)
    (hlater : after.active = some later) :
    scope < later.scopes.next ∧ ∀ opened, later.scopes.entries.get? scope = some opened →
      opened.parent = some call.scope := by
  obtain ⟨lost, hbalanced⟩ := hsound.balanced
  cases h with
  | @opened active other wired hactive hother hpin hscopes =>
    obtain rfl := Option.some.inj (hlater.symm.trans hother)
    have hlt : active.scopes.next < (active.scopes.openNext wired call.scope).next := by
      rw [ScopeTable.next_openNext]
      exact Nat.lt_succ_self _
    refine ⟨Nat.lt_of_lt_of_le hlt hscopes.next_le, fun opened hopened ↦ ?_⟩
    obtain ⟨was, hwas, hsame⟩ := hscopes.parent _ hlt opened hopened
    rw [hsame]
    cases wired with
    | true =>
      rw [ScopeTable.get?_openNext_next] at hwas
      obtain rfl := Option.some.inj hwas
      have hopen := ScopeTable.isSome_of_awaits (hbalanced.awaits_of_mem hactive ha)
      rw [hcall] at hopen
      obtain ⟨above, habove⟩ := Option.isSome_iff_exists.mp hopen
      simp only [habove, Option.map_some]
    | false =>
      have hnone := (hbalanced.scopes active hactive).tree.get?_next
      rw [ScopeTable.openNext_unwired] at hwas
      cases hnone.symm.trans hwas

/-- The branches that a journal tells of are below the nodes that have started them, and these are
pending as long as the branches are. So are the scopes of the nodes at work. -/
structure Stemmed (journal : List Deed) (v : RunView) : Prop where
  parent : ∀ call pin scope, .triggered call pin (.ok scope) ∈ journal →
    ∀ active, v.active = some active → scope < active.scopes.next ∧
      ∀ opened, active.scopes.entries.get? scope = some opened → opened.parent = some call.scope
  below : ∀ call pin scope, .triggered call pin (.ok scope) ∈ journal →
    v.Pending scope → v.Pending call.scope
  held : ∀ work ∈ v.works, v.Pending work.1.scope

theorem stemmed_of_idle (hjournal : journal = []) (hworks : v.works = 0) : v.Stemmed journal where
  parent := fun _ _ _ hdeed ↦ by
    rw [hjournal] at hdeed
    cases hdeed
  below := fun _ _ _ hdeed ↦ by
    rw [hjournal] at hdeed
    cases hdeed
  held := fun work hwork ↦ by
    rw [hworks] at hwork
    cases hwork

/-- Assumes: a run under way. -/
theorem stemmed_of_parent (hsound : Sound provider run history v) (hactive : v.active = some active)
    (hparent : ∀ call pin scope, .triggered call pin (.ok scope) ∈ journal →
      scope < active.scopes.next ∧ ∀ opened, active.scopes.entries.get? scope = some opened →
        opened.parent = some call.scope) : v.Stemmed journal := by
  obtain ⟨c, hcontext⟩ := hsound.exists_context hactive
  obtain ⟨lost, hbalanced⟩ := hsound.balanced
  constructor
  case parent =>
    intro call pin scope hdeed other hother
    obtain rfl := Option.some.inj (hactive.symm.trans hother)
    exact hparent call pin scope hdeed
  case below =>
    intro call pin scope hdeed hpending
    rw [hbalanced.pending_iff hcontext hactive] at hpending ⊢
    obtain ⟨opened, hopened⟩ := Option.isSome_iff_exists.mp hpending
    have habove := (hparent call pin scope hdeed).2 opened hopened
    exact ((hbalanced.scopes active hactive).tree.parent_open _ opened _ hopened habove).2
  case held => exact fun work hwork ↦ hbalanced.pending_of_works hcontext hactive hwork

end RunView

namespace Standing

variable {registry : Registry} {s later : Standing} {told : List Deed}

/-- No node is invoked in a run that was started and is not under way any more. -/
theorem Steps.working_of_closed (h : Steps registry s told later) (hstarted : s.started = true)
    (hnext : s.next? = none) : (later.started = true ∧ later.next? = none) ∧
      ∀ work ∈ later.working, ∃ old ∈ s.working, old.1 = work.1 := by
  induction h with
  | refl => exact ⟨⟨hstarted, hnext⟩, fun work hwork ↦ ⟨work, hwork, rfl⟩⟩
  | next hsteps hstep ih =>
    obtain ⟨⟨hstarted, hnext⟩, hold⟩ := ih
    cases hstep with
    | opened config hasTasks hunstarted | begun next? hunstarted =>
      cases hunstarted.symm.trans hstarted
    | invoked call bound hsome => cases hnext.symm.trans hsome
    | skipped next hsome => cases hnext.symm.trans hsome
    | closed hsome => simp [hnext] at hsome
    | taken call kind rest hworking | acted call rest hworking =>
      refine ⟨⟨hstarted, hnext⟩, fun work hwork ↦ ?_⟩
      have hcall := Multiset.mem_map_of_mem (fun work : Work ↦ work.1) hwork
      rw [map_restaged (fun call ↦ call) hworking] at hcall
      obtain ⟨before, hbefore, hsame⟩ := Multiset.mem_map.mp hcall
      obtain ⟨old, hmem, heq⟩ := hold before hbefore
      exact ⟨old, hmem, heq.trans hsame⟩
    | ended call stage ending rest hworking | lost work rest hworking =>
      exact ⟨⟨hstarted, hnext⟩, fun work hwork ↦
        hold _ (hworking ▸ Multiset.mem_cons_of_mem hwork)⟩

end Standing

namespace Machine

variable {m m' : Machine} {run : RunId} {journals more : RunId → List Deed}
  {history : RunId → List (String × Value)} {earlier : List (NodeCall × Ending × Bool)}

theorem started_standing_iff : (m.standing run 0).started = false ↔ (m.view run).Idle := by
  rw [standing, RunView.standing, RunView.Idle]
  cases (m.view run).context with
  | none => simp
  | some c => simp

/-- Nothing is told of a run that has not been started, and nothing of it is at work. -/
theorem told_of_idle {registry : Registry} {journal : List Deed}
    (htold : Standing.Told registry journal earlier (m.standing run 0))
    (hidle : (m.view run).Idle) : journal = [] ∧ (m.view run).works = 0 := by
  obtain ⟨hjournal, -, hworking⟩ := htold.unstarted (started_standing_iff.mpr hidle)
  exact ⟨hjournal, (Multiset.zero_add _).symm.trans hworking⟩

theorem Triggering.mem_activities {a : Activity} {home : Option Nat} {rest : List Frame} {pin : String}
    {next : Except EngineError Nat → Behaviour} {resting : Machine}
    (h : m.Triggering a home rest pin next resting) : a ∈ (m.view a.run).activities :=
  h.requesting.mem_activities

theorem stemmed_of_occurs {registry : Registry} {journal : List Deed} (h : m.Sound history)
    (hnext : Occurs m m' more) (htold : Standing.Told registry journal earlier (m.standing run 0))
    (hlater : Standing.Told registry (journal ++ more run) earlier (m'.standing run 0))
    (hstemmed : (m.view run).Stemmed journal) : (m'.view run).Stemmed (journal ++ more run) := by
  obtain ⟨written, hhappens⟩ := hnext.happens
  have hsound := (h.happens hhappens).views run
  have hpasses := (alters_of_happens h.housed hhappens run).passes (h.views run)
  by_cases hidle : (m'.view run).Idle
  · obtain ⟨hjournal, hworks⟩ := told_of_idle hlater hidle
    exact RunView.stemmed_of_idle hjournal hworks
  cases hactive : (m'.view run).active with
  | some later =>
    refine RunView.stemmed_of_parent hsound hactive fun call pin scope hdeed ↦ ?_
    rcases List.mem_append.mp hdeed with hold | hnew
    · rcases hpasses.scopes hsound hactive with hnone | ⟨active, hbefore, -, hscopes⟩
      · rw [(told_of_idle htold hnone).1] at hold
        cases hold
      · obtain ⟨hlt, hparent⟩ := hstemmed.parent call pin scope hold active hbefore
        refine ⟨Nat.lt_of_lt_of_le hlt hscopes.next_le, fun opened hopened ↦ ?_⟩
        obtain ⟨was, hwas, hsame⟩ := hscopes.parent scope hlt opened hopened
        exact hsame.trans (hparent was hwas)
    · obtain ⟨-, a, home, rest, next, resting, htriggering, rfl, hcall, -⟩ :=
        triggering_of_occurs hnext hnew
      exact (opens_of_triggered h hnext hnew).parent (h.views a.run) htriggering.mem_activities hcall
        hactive
  | none =>
    -- A branch is started in a run that is under way only.
    have hold {call : NodeCall} {pin : String} {scope : Nat}
        (hdeed : .triggered call pin (.ok scope) ∈ journal ++ more run) :
        .triggered call pin (.ok scope) ∈ journal := by
      refine (List.mem_append.mp hdeed).resolve_right fun hnew ↦ ?_
      cases opens_of_triggered h hnext hnew with
      | opened wired _ hsome => cases hsome.symm.trans hactive
    rcases hpasses.closed (h.views run) hidle hactive with ⟨hnone, hworks⟩ | ⟨hpending, hworks⟩
    · refine ⟨fun call pin scope hdeed active hsome ↦ (nomatch hactive.symm.trans hsome),
        fun call pin scope hdeed ↦ ?_, fun work hwork ↦ ?_⟩
      · have hdeed := hold hdeed
        rw [(told_of_idle htold hnone).1] at hdeed
        cases hdeed
      · rw [hworks] at hwork
        cases hwork
    · refine ⟨fun call pin scope hdeed active hsome ↦ (nomatch hactive.symm.trans hsome),
        fun call pin scope hdeed ↦ ?_, fun work hwork ↦ ?_⟩
      · rw [hpending, hpending]
        exact hstemmed.below call pin scope (hold hdeed)
      · rw [hpending]
        rcases hworks with hsame | ⟨hstarted, hnone⟩
        · exact hstemmed.held work (hsame ▸ hwork)
        · have hsteps := (steps_of_occurs h hnext run).working_of_closed
            ((Bool.not_eq_false _).mp fun hunstarted ↦ hstarted (started_standing_iff.mp hunstarted))
            (congrArg (Option.map _) hnone)
          obtain ⟨old, hmem, heq⟩ := hsteps.2 work (Multiset.mem_add.mpr (Or.inr hwork))
          rw [← heq]
          exact hstemmed.held old ((Multiset.zero_add (m.view run).works) ▸ hmem)

/-- In every machine that can be reached, for every run: the scope of a branch is below the scope of
the node that has started it, which is pending as long as the branch is; and the scope of a node is
pending as long as it is at work. -/
theorem stemmed_of_records (hblank : m.Blank) (hrecords : Records m m' journals) (run : RunId) :
    (m'.view run).Stemmed (journals run) := by
  induction hrecords with
  | refl => exact RunView.stemmed_of_idle rfl (told_of_idle (hblank.told run) (hblank.idle run)).2
  | next hrecords hnext ih =>
    obtain ⟨history, hleads⟩ := hrecords.leads
    exact stemmed_of_occurs (hblank.leads hleads) hnext (told_of_records hblank hrecords run)
      (told_of_records hblank (hrecords.next hnext) run) ih

end Machine

/-! ### Declared pins -/

namespace RunView

variable {v : RunView} {journal : List Deed}

theorem mem_works_of_activity {a : Activity} (ha : a ∈ v.activities) :
    (a.call, some a.progress) ∈ v.works :=
  Multiset.mem_coe.mpr (List.mem_append_right _ (List.mem_map.mpr ⟨a, ha, rfl⟩))

/-- The pins that a journal tells of are those that a graph declares. What was refused is not
declared, or the run is not under way any more. -/
structure Wires (g : Graph) (journal : List Deed) (v : RunView) : Prop where
  started : ¬ v.Idle
  graph : ∀ active, v.active = some active → active.graph = g
  declared : ∀ call pin scope, .triggered call pin (.ok scope) ∈ journal →
    g.target? call.node pin ≠ none
  refused : ∀ call pin error, .triggered call pin (.error error) ∈ journal →
    g.target? call.node pin = none ∨ v.active = none

end RunView

theorem Standing.Steps.started {registry : Registry} {s later : Standing} {told : List Deed}
    (h : Steps registry s told later) (hstarted : s.started = true) : later.started = true := by
  induction h with
  | refl => exact hstarted
  | next hsteps hstep ih =>
    cases hstep with
    | begun => rfl
    | _ => exact ih

namespace Machine

variable {m m' : Machine} {run : RunId} {journals more : RunId → List Deed} {g : Graph}
  {history : RunId → List (String × Value)} {journal : List Deed}

theorem wires_of_occurs (h : m.Sound history) (hnext : Occurs m m' more)
    (hwires : (m.view run).Wires g journal) : (m'.view run).Wires g (journal ++ more run) := by
  obtain ⟨written, hhappens⟩ := hnext.happens
  have hsound := (h.happens hhappens).views run
  have hpasses := (alters_of_happens h.housed hhappens run).passes (h.views run)
  have hbefore (later : ActiveRun) (hlater : (m'.view run).active = some later) :
      ∃ active, (m.view run).active = some active ∧ later.graph = active.graph := by
    obtain ⟨active, hactive, hgraph, -⟩ := (hpasses.scopes hsound hlater).resolve_left hwires.started
    exact ⟨active, hactive, hgraph⟩
  constructor
  case started =>
    rw [← started_standing_iff, Bool.not_eq_false]
    refine (steps_of_occurs h hnext run).started ?_
    rw [← Bool.not_eq_false, started_standing_iff]
    exact hwires.started
  case graph =>
    intro later hlater
    obtain ⟨active, hactive, hgraph⟩ := hbefore later hlater
    exact hgraph.trans (hwires.graph active hactive)
  case declared =>
    intro call pin scope hdeed
    rcases List.mem_append.mp hdeed with hold | hnew
    · exact hwires.declared call pin scope hold
    · cases opens_of_triggered h hnext hnew with
      | opened wired hactive hlater hpin => exact hwires.graph _ hactive ▸ hpin
  case refused =>
    intro call pin error hdeed
    cases hlater : (m'.view run).active with
    | none => exact Or.inr rfl
    | some later =>
      obtain ⟨active, hactive, -⟩ := hbefore later hlater
      refine Or.inl ?_
      rcases List.mem_append.mp hdeed with hold | hnew
      · refine (hwires.refused call pin error hold).resolve_right fun hnone ↦ ?_
        cases hnone.symm.trans hactive
      · cases opens_of_triggered h hnext hnew with
        | refused _ hpin => exact hwires.graph active hactive ▸ hpin active hactive

/-- The graph of a run stays the one that its pins are declared by. -/
theorem wires_of_later (h : m.Sound history) (hwires : (m.view run).Wires g journal)
    (hrecords : Records m m' more) : (m'.view run).Wires g (journal ++ more run) := by
  induction hrecords with
  | refl => exact (List.append_nil journal).symm ▸ hwires
  | next hrecords hnext ih =>
    obtain ⟨written, hleads⟩ := hrecords.leads
    rw [← List.append_assoc]
    exact wires_of_occurs (h.leads hleads) hnext ih

/-- In every machine that can be reached, the pins that were triggered in a run under way are those
that its graph declares. -/
theorem wires_of_records (hblank : m.Blank) (hrecords : Records m m' journals) {active : ActiveRun}
    (hactive : (m'.view run).active = some active) :
    (m'.view run).Wires active.graph (journals run) := by
  induction hrecords generalizing active with
  | refl => cases (hblank.active run).symm.trans hactive
  | @next middle later journal more hrecords hnext ih =>
    obtain ⟨history, hleads⟩ := hrecords.leads
    obtain ⟨written, hhappens⟩ := hnext.happens
    have hmiddle := hblank.leads hleads
    have hsound := (hmiddle.happens hhappens).views run
    have hpasses := (alters_of_happens hmiddle.housed hhappens run).passes (hmiddle.views run)
    rcases hpasses.scopes hsound hactive with hidle | ⟨before, hbefore, hgraph, -⟩
    · obtain ⟨hjournal, hworks⟩ := told_of_idle (told_of_records hblank hrecords run) hidle
      -- Before the start no node is at work that could trigger a pin.
      have hnone (call : NodeCall) (pin : String) (outcome : Except EngineError Nat) :
          .triggered call pin outcome ∉ journal run ++ more run := by
        intro hdeed
        rw [hjournal, List.nil_append] at hdeed
        obtain ⟨-, a, home, rest, next, resting, htriggering, rfl, -⟩ :=
          triggering_of_occurs hnext hdeed
        have hmem := RunView.mem_works_of_activity htriggering.mem_activities
        rw [hworks] at hmem
        cases hmem
      refine ⟨fun hidle ↦ ?_, fun other hother ↦ ?_, fun call pin scope hdeed ↦ ?_,
        fun call pin error hdeed ↦ ?_⟩
      · cases (hsound.active_of_idle hidle).symm.trans hactive
      · rw [Option.some.inj (hother.symm.trans hactive)]
      · exact absurd hdeed (hnone _ _ _)
      · exact absurd hdeed (hnone _ _ _)
    · exact hgraph ▸ wires_of_occurs hmiddle hnext (ih hbefore)

end Machine

end Blueprint

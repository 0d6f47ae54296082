import Blueprint.Proofs.Run.View

/-!
The books of a run balance. Every open scope whose node has not finished has one piece of work on
the machine, an activity or a queued call, unless that was lost for want of a place for tasks; other
scopes have none. So a node finishes on an open scope and triggers from an open scope only, and the
tracker of the run's context agrees with the open scopes (`RunView.Balanced`).

The work of a run keeps that (`Balanced.labour`), and starting a run establishes it
(`Balanced.begins`).
-/

set_option autoImplicit false

namespace Blueprint

namespace Frame

/-- A node at work on a scope. -/
def isAt (scope : Nat) : Frame → Bool
  | .drain _ => false
  | .node a _ => a.call.scope == scope

def isDrain : Frame → Bool
  | .drain _ => true
  | .node _ _ => false

end Frame

namespace RunView

/-- The sync calls that are queued. -/
def queued (v : RunView) : List NodeCall := (v.context.map (·.queue.calls)).getD []

/-- How much work there is on a scope. -/
def workOn (v : RunView) (scope : Nat) : Nat :=
  v.frames.countP (·.isAt scope) + v.tasks.countP (fun entry ↦ entry.2.call.scope == scope) +
    v.queued.countP (·.scope == scope)

/-- The books of a run balance, with some scopes whose work is in hand and others whose work is
lost. -/
structure Balanced (v : RunView) (hand lost : List Nat) : Prop where
  scopes : ∀ active, v.active = some active → active.scopes.Sound
  agrees : ∀ c active, v.context = some c → v.active = some active →
    c.tracker.Agrees active.scopes.entries
  balance : ∀ active, v.active = some active → ∀ scope,
    v.workOn scope + hand.count scope + lost.count scope =
      if active.scopes.awaits scope then 1 else 0
  /-- A run that has finished before it was ended leaves nothing behind. -/
  finished : ∀ c, v.context = some c → v.active = none → c.tracker.finished = true →
    (∀ scope, v.workOn scope + hand.count scope = 0) ∧
      ∀ scope, c.tracker.pending.get? scope = none
  drains : ∀ c, v.context = some c →
    v.frames.countP Frame.isDrain = (if c.queue.draining then 1 else 0) ∧
      (c.queue.draining = false → c.queue.calls = [])

variable {v after : RunView} {c : Context} {hand lost more : List Nat} {scope : Nat}

/-- Assumes: work in hand on a scope of a run under way. The scope is open. -/
theorem Balanced.awaits (h : v.Balanced (scope :: hand) lost) {active : ActiveRun}
    (hactive : v.active = some active) : active.scopes.awaits scope = true := by
  have hbalance := h.balance active hactive scope
  rw [List.count_cons_self] at hbalance
  by_contra hfinished
  rw [if_neg hfinished] at hbalance
  omega

/-- Assumes: work in hand. The run has not finished. -/
theorem Balanced.finished_eq_false (h : v.Balanced (scope :: hand) lost)
    (hcontext : v.context = some c) : c.tracker.finished = false := by
  by_contra hfinished
  rw [Bool.not_eq_false] at hfinished
  cases hactive : v.active with
  | none =>
    have hnone := (h.finished c hcontext hactive hfinished).1 scope
    rw [List.count_cons_self] at hnone
    omega
  | some active =>
    have hscopes := h.scopes active hactive
    have hroot := (h.agrees c active hcontext hactive).finished_iff.mp hfinished
    have hclosed := hscopes.tree.get?_of_root hscopes.rooted hroot scope
    have hopen := ScopeTable.isSome_of_awaits (h.awaits hactive)
    simp [hclosed] at hopen

/-- Assumes: the same run with the same scopes, and as much work, some of it elsewhere. -/
theorem Balanced.update {c' : Context} {hand' : List Nat} (h : v.Balanced hand lost)
    (hcontext : v.context = some c) (hcontext' : after.context = some c')
    (hactive : after.active = v.active) (hextends : c.tracker.Extends c'.tracker)
    (hwork : ∀ scope, after.workOn scope + hand'.count scope = v.workOn scope + hand.count scope)
    (hdrains : after.frames.countP Frame.isDrain = (if c'.queue.draining then 1 else 0) ∧
      (c'.queue.draining = false → c'.queue.calls = [])) :
    after.Balanced hand' lost := by
  constructor
  case scopes => exact fun active hactive' ↦ h.scopes active (hactive ▸ hactive')
  case agrees =>
    intro c₁ active hc₁ hactive'
    obtain rfl := Option.some.inj (hcontext'.symm.trans hc₁)
    exact (h.agrees c active hcontext (hactive ▸ hactive')).extends hextends
  case balance =>
    intro active hactive' scope
    rw [← h.balance active (hactive ▸ hactive') scope, hwork scope]
  case finished =>
    intro c₁ hc₁ hactive' hfinished
    obtain rfl := Option.some.inj (hcontext'.symm.trans hc₁)
    obtain ⟨hnone, hpending⟩ :=
      h.finished c hcontext (hactive ▸ hactive') (hextends.finished_eq ▸ hfinished)
    exact ⟨fun scope ↦ (hwork scope).trans (hnone scope), hextends.pending_eq ▸ hpending⟩
  case drains =>
    intro c₁ hc₁
    obtain rfl := Option.some.inj (hcontext'.symm.trans hc₁)
    exact hdrains

/-! ### Finishing -/

/-- Only the queue of a context counts as work. -/
theorem workOn_map (v : RunView) (active : Option ActiveRun) (change : Context → Context)
    (hqueue : ∀ c, (change c).queue = c.queue) (scope : Nat) :
    ({ v with context := v.context.map change, active } : RunView).workOn scope = v.workOn scope := by
  unfold workOn queued
  cases v.context with
  | none => rfl
  | some c => simp only [Option.map_some, hqueue]

theorem workOn_finish (v : RunView) (scope other : Nat) :
    (v.finish scope).workOn other = v.workOn other := by
  unfold RunView.finish
  split
  · rfl
  · split
    · rfl
    · exact workOn_map v _ (fun c ↦ { c with tracker := c.tracker.completeAll _ }) (fun _ ↦ rfl) other

/-- A change of what is neither queue nor pending. -/
theorem Balanced.mapContext (h : v.Balanced hand lost) (change : Context → Context)
    (hextends : ∀ c : Context, c.tracker.Extends (change c).tracker)
    (hqueue : ∀ c, (change c).queue = c.queue) :
    ({ v with context := v.context.map change } : RunView).Balanced hand lost := by
  have hwork := workOn_map v v.active change hqueue
  constructor
  case scopes => exact h.scopes
  case agrees =>
    intro c active hcontext hactive
    obtain ⟨was, hwas, rfl⟩ := Option.map_eq_some_iff.mp hcontext
    exact (h.agrees was active hwas hactive).extends (hextends was)
  case balance => exact fun active hactive scope ↦ hwork scope ▸ h.balance active hactive scope
  case finished =>
    intro c hcontext hactive hfinished
    obtain ⟨was, hwas, rfl⟩ := Option.map_eq_some_iff.mp hcontext
    obtain ⟨hnone, hpending⟩ := h.finished was hwas hactive ((hextends was).finished_eq ▸ hfinished)
    exact ⟨fun scope ↦ hwork scope ▸ hnone scope, (hextends was).pending_eq ▸ hpending⟩
  case drains =>
    intro c hcontext
    obtain ⟨was, hwas, rfl⟩ := Option.map_eq_some_iff.mp hcontext
    exact hqueue was ▸ h.drains was hwas

/-- The node on a scope returns. -/
theorem Balanced.finish (h : v.Balanced (scope :: hand) lost) :
    (v.finish scope).Balanced hand lost := by
  have hwork := workOn_finish v scope
  cases hactive : v.active with
  | none =>
    have hsame : v.finish scope = v := by rw [RunView.finish, hactive]
    rw [hsame]
    constructor
    case scopes => exact h.scopes
    case agrees => exact h.agrees
    case balance => exact fun active hnone ↦ nomatch hactive.symm.trans hnone
    case finished =>
      intro c hcontext _ hfinished
      cases (h.finished_eq_false hcontext).symm.trans hfinished
    case drains => exact h.drains
  | some active =>
    obtain ⟨closed, scopes, hfinish⟩ := ScopeTable.finish_of_awaits (h.awaits hactive)
    obtain ⟨hfinishes, hsound⟩ := (h.scopes active hactive).finishes hfinish
    have hview : v.finish scope = { v with
        active := some { active with scopes }
        context := v.context.map fun c ↦ { c with tracker := c.tracker.completeAll closed } } := by
      rw [RunView.finish, hactive]
      simp only [hfinish]
    rw [hview] at hwork ⊢
    constructor
    case scopes =>
      intro later hlater
      obtain rfl := Option.some.inj hlater
      exact hsound
    case agrees =>
      intro c later hcontext hlater
      obtain rfl := Option.some.inj hlater
      obtain ⟨was, hwas, rfl⟩ := Option.map_eq_some_iff.mp hcontext
      exact (h.agrees was active hwas hactive).finish hfinishes
    case balance =>
      intro later hlater other
      obtain rfl := Option.some.inj hlater
      have hbalance := h.balance active hactive other
      rw [hwork other, hfinishes.awaits other]
      by_cases hother : scope = other
      · subst hother
        rw [h.awaits hactive, List.count_cons_self, if_pos rfl] at hbalance
        simp only [bne_self_eq_false, Bool.and_false, Bool.false_eq_true, ↓reduceIte]
        omega
      · rw [List.count_cons_of_ne hother] at hbalance
        simpa [hother] using hbalance
    case finished => exact fun c _ hnone ↦ absurd hnone (Option.some_ne_none _)
    case drains =>
      intro c hcontext
      obtain ⟨was, hwas, rfl⟩ := Option.map_eq_some_iff.mp hcontext
      exact h.drains was hwas

theorem Balanced.conclude {call : NodeCall} (h : v.Balanced (call.scope :: hand) lost)
    (ending : Ending) : (v.conclude call ending).Balanced hand lost := by
  unfold RunView.conclude
  split_ifs with hdone
  · exact h.finish
  · exact (h.mapContext (fun c ↦ { c with failedBranches := c.failedBranches + 1 })
      (fun _ ↦ .refl _) fun _ ↦ rfl).finish

/-! ### Triggering -/

/-- A trigger of a pin that leads nowhere. -/
theorem Balanced.openUnwired (h : v.Balanced hand lost) (hcontext : v.context = some c)
    {active : ActiveRun} (hactive : v.active = some active) (parent : Nat) :
    ({ v with
      context := some { c with
        tracker := ((c.tracker.dispatch active.scopes.next).complete active.scopes.next).tracker }
      active := some { active with scopes := active.scopes.openNext false parent } } :
      RunView).Balanced hand lost := by
  have hscopes := h.scopes active hactive
  have hwork (scope : Nat) : ({ v with
      context := some { c with
        tracker := ((c.tracker.dispatch active.scopes.next).complete active.scopes.next).tracker }
      active := some { active with scopes := active.scopes.openNext false parent } } :
      RunView).workOn scope = v.workOn scope := by
    simp only [workOn, queued, hcontext, Option.map_some]
  constructor
  case scopes =>
    intro later hlater
    obtain rfl := Option.some.inj hlater
    exact hscopes.openUnwired parent
  case agrees =>
    intro c' later hcontext' hlater
    obtain rfl := Option.some.inj hlater
    obtain rfl := Option.some.inj hcontext'
    exact (h.agrees c active hcontext hactive).openUnwired hscopes.tree.get?_next hscopes.positive
  case balance =>
    intro later hlater scope
    obtain rfl := Option.some.inj hlater
    rw [hwork]
    exact h.balance active hactive scope
  case finished => exact fun _ _ hnone ↦ absurd hnone (Option.some_ne_none _)
  case drains =>
    intro c' hcontext'
    obtain rfl := Option.some.inj hcontext'
    exact h.drains c hcontext

/-- A trigger of a wired pin, from a scope with work in hand. The work on the new scope is in hand
too. -/
theorem Balanced.openWired {parent : Nat} (h : v.Balanced (parent :: hand) lost)
    (hcontext : v.context = some c) {active : ActiveRun} (hactive : v.active = some active)
    (bindings : Bindings) :
    ({ v with
      context := some { c with tracker := c.tracker.dispatch active.scopes.next, bindings }
      active := some { active with scopes := active.scopes.openNext true parent } } :
      RunView).Balanced (parent :: active.scopes.next :: hand) lost := by
  have hscopes := h.scopes active hactive
  have hparent := ScopeTable.isSome_of_awaits (h.awaits hactive)
  have hnew : active.scopes.awaits active.scopes.next = false := by
    rw [ScopeTable.awaits, hscopes.tree.get?_next]
    rfl
  have hwork (scope : Nat) : ({ v with
      context := some { c with tracker := c.tracker.dispatch active.scopes.next, bindings }
      active := some { active with scopes := active.scopes.openNext true parent } } :
      RunView).workOn scope = v.workOn scope := by
    simp only [workOn, queued, hcontext, Option.map_some]
  constructor
  case scopes =>
    intro later hlater
    obtain rfl := Option.some.inj hlater
    exact hscopes.openWired hparent
  case agrees =>
    intro c' later hcontext' hlater
    obtain rfl := Option.some.inj hlater
    obtain rfl := Option.some.inj hcontext'
    exact (h.agrees c active hcontext hactive).openWired hscopes.tree.get?_next hscopes.positive parent
  case balance =>
    intro later hlater scope
    obtain rfl := Option.some.inj hlater
    have hbalance := h.balance active hactive scope
    rw [hwork, ScopeTable.awaits_openNext]
    rw [List.count_cons] at hbalance
    rw [List.count_cons]
    by_cases hscope : active.scopes.next = scope
    · rw [← hscope, hnew] at hbalance
      rw [← hscope, List.count_cons_self, beq_self_eq_true, Bool.true_or, if_pos rfl]
      simp only [Bool.false_eq_true, ↓reduceIte] at hbalance
      omega
    · rw [List.count_cons_of_ne hscope, beq_false_of_ne (Ne.symm hscope), Bool.false_or]
      exact hbalance
  case finished => exact fun _ _ hnone ↦ absurd hnone (Option.some_ne_none _)
  case drains =>
    intro c' hcontext'
    obtain rfl := Option.some.inj hcontext'
    exact h.drains c hcontext

/-! ### Frames, tasks and the queue -/

/-- A node is put on the frames, with what is known of the tracker afterwards. -/
theorem Balanced.enter {a : Activity} {c' : Context} (h : v.Balanced (a.call.scope :: hand) lost)
    (hcontext : v.context = some c) (hextends : c.tracker.Extends c'.tracker)
    (hqueue : c'.queue = c.queue) (home : Option Nat) :
    ({ v with context := some c', frames := .node a home :: v.frames } : RunView).Balanced hand
      lost := by
  refine h.update hcontext rfl rfl hextends (fun scope ↦ ?_) ?_
  · simp only [workOn, queued, hcontext, Option.map_some, hqueue, List.countP_cons, Frame.isAt,
      List.count_cons]
    omega
  · rw [hqueue, List.countP_cons_of_neg (by simp [Frame.isDrain])]
    exact h.drains c hcontext

/-- A node is taken off the frames. -/
theorem Balanced.takeNode {a : Activity} {home : Option Nat} {rest : List Frame}
    (h : v.Balanced hand lost) (hcontext : v.context = some c)
    (hframes : v.frames = .node a home :: rest) :
    ({ v with frames := rest } : RunView).Balanced (a.call.scope :: hand) lost := by
  refine h.update hcontext hcontext rfl (.refl _) (fun scope ↦ ?_) ?_
  · simp only [workOn, hframes, List.countP_cons, Frame.isAt, List.count_cons, queued]
    omega
  · have hdrains := h.drains c hcontext
    rw [hframes, List.countP_cons_of_neg (by simp [Frame.isDrain])] at hdrains
    exact hdrains

/-- A call is taken off the queue. -/
theorem Balanced.takeCall {call : NodeCall} {calls : List NodeCall} (h : v.Balanced hand lost)
    (hcontext : v.context = some c) (hcalls : c.queue.calls = call :: calls) :
    ({ v with context := some { c with queue := { c.queue with calls } } } : RunView).Balanced
      (call.scope :: hand) lost := by
  have hdrains := h.drains c hcontext
  refine h.update hcontext rfl rfl (.refl _) (fun scope ↦ ?_) ⟨hdrains.1, fun hidle ↦ ?_⟩
  · simp only [workOn, queued, hcontext, Option.map_some, Option.getD_some, hcalls,
      List.countP_cons, List.count_cons]
    omega
  · cases hcalls.symm.trans (hdrains.2 hidle)

/-- Work in hand is lost. -/
theorem Balanced.lose (h : v.Balanced (scope :: hand) lost) : v.Balanced hand (scope :: lost) := by
  constructor
  case scopes => exact h.scopes
  case agrees => exact h.agrees
  case balance =>
    intro active hactive other
    rw [← h.balance active hactive other, List.count_cons, List.count_cons]
    omega
  case finished =>
    intro c hcontext hactive hfinished
    cases (h.finished_eq_false hcontext).symm.trans hfinished
  case drains => exact h.drains

theorem Balanced.shelve {m m' : Machine} {a : Activity} {home : Option Nat}
    {tasks : List (Nat × Activity)} (h : v.Balanced (a.call.scope :: hand) lost)
    (hcontext : v.context = some c) (hshelves : Shelves m m' c a v.tasks home tasks more) :
    ({ v with tasks } : RunView).Balanced hand (more ++ lost) := by
  cases hshelves with
  | back task | spawned task =>
    refine h.update hcontext hcontext rfl (.refl _) (fun scope ↦ ?_) (h.drains c hcontext)
    simp only [workOn, List.countP_append, List.countP_cons, List.countP_nil, List.count_cons,
      queued]
    omega
  | lost htasks => exact h.lose

/-- Assumes: the call that is to be run is in hand. -/
theorem Balanced.invoke {m m' : Machine} {run : RunId} {call : NodeCall}
    (h : v.Balanced (call.scope :: hand) lost) (hcontext : v.context = some c)
    (hinvokes : Invokes m m' run call v c after more) : after.Balanced hand (more ++ lost) := by
  have hdrains := h.drains c hcontext
  cases hinvokes with
  | unknown hkind => exact h.conclude _
  | spawned kind task hkind hmode htasks hold hnew =>
    exact h.shelve (a := { run, call, progress := .going (kind.behaviour call) }) hcontext
      (.spawned task htasks hold hnew)
  | lost kind hkind hmode htasks =>
    have hlost : Shelves m m' c { run, call, progress := .going (kind.behaviour call) } v.tasks none
        v.tasks [call.scope] := .lost htasks
    exact h.shelve hcontext hlost
  | queued kind hkind hmode hdraining =>
    refine h.update hcontext rfl rfl (.refl _) (fun scope ↦ ?_) ⟨hdrains.1, fun hidle ↦ ?_⟩
    · simp only [workOn, queued, hcontext, Option.map_some, Option.getD_some, List.countP_append,
        List.countP_cons, List.countP_nil, List.count_cons]
      omega
    · cases hdraining.symm.trans hidle
  | drained kind hkind hmode hdraining =>
    refine h.update hcontext rfl rfl (.refl _) (fun scope ↦ ?_) ⟨?_, fun hidle ↦ nomatch hidle⟩
    · simp only [workOn, queued, hcontext, Option.map_some, Option.getD_some, List.countP_append,
        List.countP_cons, List.countP_nil, List.count_cons, Frame.isAt, Bool.false_eq_true,
        ↓reduceIte]
      omega
    · rw [List.countP_cons_of_pos rfl, hdrains.1, hdraining]
      rfl

/-! ### The work of a run -/

/-- What an answer does to a context: more may wait, and other things that do not count. -/
theorem Answers.extends {m m' : Machine} {run : RunId} {node : String} {request : Behaviour}
    {c' : Context} {progress : Progress} {written : List (String × Value)}
    (h : Answers m m' run node c request c' progress written) :
    c.tracker.Extends c'.tracker ∧ c'.queue = c.queue := by
  cases h with
  | join scopes next held hheld =>
    refine ⟨⟨rfl, rfl, rfl, fun waiter hwaiter ↦ ?_⟩, rfl⟩
    exact (List.mem_append.mp hwaiter).imp_right fun hnew ↦ (hheld waiter hnew).2.1
  | _ => exact ⟨.refl _, rfl⟩

theorem Balanced.serve {m m' : Machine} {run : RunId} {a : Activity} {home : Option Nat}
    {request : Behaviour} {written : List (String × Value)}
    (h : v.Balanced (a.call.scope :: hand) lost) (hcontext : v.context = some c)
    (hserves : Serves m m' run v c a home request after written more) :
    after.Balanced hand (more ++ lost) := by
  cases hserves with
  | ended ending hending => exact h.conclude ending
  | @answered _ c' progress _ hanswers =>
    exact Balanced.enter (a := { a with progress }) h hcontext hanswers.extends.1
      hanswers.extends.2 home
  | @paused _ progress _ _ hpause hshelves =>
    exact Balanced.shelve (a := { a with progress }) h hcontext hshelves
  | unwired pin next active hactive hpin =>
    exact Balanced.enter
      (a := { a with progress := .going (next (.ok active.scopes.next)) })
      (h.openUnwired hcontext hactive a.call.scope) rfl (.refl _) rfl home
  | wired pin next active target bindings hactive hpin htarget hinvokes =>
    have hopen := h.openWired hcontext hactive bindings
    have henter := Balanced.enter
      (a := { a with progress := .going (next (.ok active.scopes.next)) }) hopen rfl (.refl _) rfl home
    exact henter.invoke rfl hinvokes

/-- One move of the work of a run keeps the balance, with what the move loses. -/
theorem Balanced.labour {m m' : Machine} {run : RunId} {written : List (String × Value)}
    (h : v.Balanced [] lost) (hcontext : v.context = some c)
    (hlabour : Labour m m' run v c after written more) : after.Balanced [] (more ++ lost) := by
  have hdrains := h.drains c hcontext
  cases hlabour with
  | polled before rest task a htasks hcan =>
    refine h.update hcontext hcontext rfl (.refl _) (fun scope ↦ ?_) ?_
    · simp only [workOn, htasks, List.countP_append, List.countP_cons, Frame.isAt, List.count_nil,
        queued]
      omega
    · rw [List.countP_cons_of_neg (by simp [Frame.isDrain])]
      exact hdrains
  | shelved a home rest hframes hcan hshelves =>
    exact (h.takeNode hcontext hframes).shelve hcontext hshelves
  | served a home rest hframes hcan hresumes hserves =>
    exact (h.takeNode hcontext hframes).serve hcontext hserves
  | released rest hframes hcalls =>
    refine h.update hcontext rfl rfl (.refl _) (fun scope ↦ ?_) ⟨?_, fun _ ↦ hcalls⟩
    · simp only [workOn, hframes, queued, hcontext, Option.map_some, Option.getD_some,
        List.countP_cons, Frame.isAt, List.count_nil, Bool.false_eq_true, ↓reduceIte, Nat.add_zero]
    · have hone := hdrains.1
      rw [hframes, List.countP_cons_of_pos rfl] at hone
      split_ifs at hone with hdraining
      · simpa using hone
  | taken rest call calls kind hframes hcalls hkind =>
    refine h.update hcontext rfl rfl (.refl _) (fun scope ↦ ?_) ⟨?_, fun hidle ↦ ?_⟩
    · simp only [workOn, queued, hcontext, Option.map_some, Option.getD_some, hcalls,
        List.countP_cons, Frame.isAt, List.count_nil]
      omega
    · rw [List.countP_cons_of_neg (by simp [Frame.isDrain])]
      exact hdrains.1
    · cases hcalls.symm.trans (hdrains.2 hidle)
  | skipped rest call calls hframes hcalls hkind =>
    exact (h.takeCall hcontext hcalls).conclude _

/-! ### Beginning and ending -/

/-- A run that has a context and was not started. -/
structure Unstarted (v : RunView) (c : Context) : Prop where
  context : v.context = some c
  active : v.active = none
  frames : v.frames = []
  tasks : v.tasks = []
  tracker : c.tracker.Unused
  calls : c.queue.calls = []
  draining : c.queue.draining = false

theorem Unstarted.balanced (h : v.Unstarted c) : v.Balanced [] [] := by
  constructor
  case scopes => exact fun active hactive ↦ nomatch h.active.symm.trans hactive
  case agrees => exact fun c active _ hactive ↦ nomatch h.active.symm.trans hactive
  case balance => exact fun active hactive ↦ nomatch h.active.symm.trans hactive
  case finished =>
    intro c' hcontext _ hfinished
    obtain rfl := Option.some.inj (h.context.symm.trans hcontext)
    cases h.tracker.finished.symm.trans hfinished
  case drains =>
    intro c' hcontext
    obtain rfl := Option.some.inj (h.context.symm.trans hcontext)
    simp [h.frames, h.draining, h.calls]

/-- Starting a run establishes the balance. -/
theorem Unstarted.balanced_begins {m m' : Machine} {run : RunId} {graphs : Table Nat Graph}
    {inputs : Inputs} (h : v.Unstarted c) (hbegins : Begins m m' run graphs v c inputs after more) :
    after.Balanced [] more := by
  have hnone {later : Context} (active : Option ActiveRun) (hcalls : later.queue.calls = [])
      (scope : Nat) : ({ v with context := some later, active } : RunView).workOn scope = 0 := by
    simp [workOn, queued, hcalls, h.frames, h.tasks]
  cases hbegins with
  | refused hgraph =>
    have hstarted : ({ v with context := some { c with inputs := some inputs } } : RunView).Unstarted
        { c with inputs := some inputs } :=
      ⟨rfl, h.active, h.frames, h.tasks, h.tracker, h.calls, h.draining⟩
    exact hstarted.balanced
  | entered graph entry bindings hgraph hentry hinvokes =>
    have hentered : ({ v with
        context := some
          { c with inputs := some inputs, tracker := c.tracker.dispatch rootScope, bindings }
        active := some { graph, inputs, scopes := .initial } } : RunView).Balanced [rootScope] [] := by
      constructor
      case scopes =>
        intro active hactive
        obtain rfl := Option.some.inj hactive
        exact ScopeTable.sound_initial
      case agrees =>
        intro c' active hcontext hactive
        obtain rfl := Option.some.inj hactive
        obtain rfl := Option.some.inj hcontext
        exact h.tracker.dispatch
      case balance =>
        intro active hactive scope
        obtain rfl := Option.some.inj hactive
        rw [hnone, ScopeTable.awaits_initial, List.count_singleton, List.count_nil, Nat.zero_add,
          Nat.add_zero, Bool.beq_comm]
        exact h.calls
      case finished => exact fun _ _ hnone ↦ absurd hnone (Option.some_ne_none _)
      case drains =>
        intro c' hcontext
        obtain rfl := Option.some.inj hcontext
        simp [h.frames, h.draining, h.calls]
    exact List.append_nil more ▸ hentered.invoke rfl hinvokes
  | nodeless graph hgraph hnodes =>
    have hagrees : ((c.tracker.dispatch rootScope).complete rootScope).tracker.Agrees
        (Table.empty : Table Nat OpenScope) := by
      refine (h.tracker.dispatch.complete (Table.get?_insert_self _ _ _)).congr fun scope ↦ ?_
      simp [ScopeTable.initial]
    constructor
    case scopes =>
      intro active hactive
      obtain rfl := Option.some.inj hactive
      exact (ScopeTable.sound_initial.finishes ScopeTable.finish_initial).2
    case agrees =>
      intro c' active hcontext hactive
      obtain rfl := Option.some.inj hactive
      obtain rfl := Option.some.inj hcontext
      exact hagrees
    case balance =>
      intro active hactive scope
      obtain rfl := Option.some.inj hactive
      rw [hnone]
      · rfl
      · exact h.calls
    case finished => exact fun _ _ hnone ↦ absurd hnone (Option.some_ne_none _)
    case drains =>
      intro c' hcontext
      obtain rfl := Option.some.inj hcontext
      simp [h.frames, h.draining, h.calls]

/-- A run is ended. Assumes: it has finished, or nothing is said of it any more. -/
theorem Balanced.ended (h : v.Balanced [] lost) : ({ v with active := none } : RunView).Balanced []
    lost := by
  constructor
  case scopes => exact fun _ hactive ↦ nomatch hactive
  case agrees => exact fun _ _ _ hactive ↦ nomatch hactive
  case balance => exact fun _ hactive ↦ nomatch hactive
  case finished =>
    intro c hcontext _ hfinished
    cases hactive : v.active with
    | none => exact h.finished c hcontext hactive hfinished
    | some active =>
      have hscopes := h.scopes active hactive
      have hagrees := h.agrees c active hcontext hactive
      have hclosed := hscopes.tree.get?_of_root hscopes.rooted (hagrees.finished_iff.mp hfinished)
      refine ⟨fun scope ↦ ?_, fun scope ↦ by rw [hagrees.pending, hclosed scope]; rfl⟩
      have hbalance := h.balance active hactive scope
      rw [ScopeTable.awaits, hclosed scope] at hbalance
      simp only [Option.any_none, Bool.false_eq_true, ↓reduceIte] at hbalance
      change v.workOn scope + _ = 0
      omega
  case drains => exact h.drains

end RunView

end Blueprint

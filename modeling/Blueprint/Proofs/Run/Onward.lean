import Blueprint.Proofs.Run.Hosting
import Blueprint.Proofs.Run.Standing

/-!
What the work of a run does not take back. A scope that has cleared does not become pending again, it
stays below the scope it was opened below, and whoever waits for a scope waits as long as it is
pending. `Tracker.Onward` and `ScopeTable.Onward` say so of the two books on a run; each report keeps
to it, and so does whatever a run does (`RunView.Labour.onward`).

A node that joins scopes takes a ticket for each that is pending (`Labour.joining`). Tickets are given
out once, and held as long as the scope is pending that they are for (`RunView.Ticketed`). Nodes
that are at work without a task are sync nodes (`RunView.Inline`).
-/

set_option autoImplicit false

namespace Blueprint

namespace Tracker

variable {given wider : Nat → Prop} {low high : Nat} {t middle later : Tracker}

/-- One tracker comes after another: scopes that were given out before do not become pending again,
and tickets that are taken meanwhile are new. -/
structure Onward (given : Nat → Prop) (low high : Nat) (t later : Tracker) : Prop where
  pending : ∀ scope, given scope → later.isPending scope = true → t.isPending scope = true
  waits : ∀ waiter ∈ t.waiters, given waiter.1 → later.isPending waiter.1 = true →
    waiter ∈ later.waiters
  fresh : ∀ waiter ∈ later.waiters, waiter ∈ t.waiters ∨ low ≤ waiter.2 ∧ waiter.2 < high
  awaited : (∀ waiter ∈ t.waiters, t.isPending waiter.1 = true) →
    ∀ waiter ∈ later.waiters, later.isPending waiter.1 = true

/-- The same scopes are pending, and the same wait. -/
theorem Onward.of_eq (hpending : ∀ scope, later.isPending scope = t.isPending scope)
    (hwaiters : later.waiters = t.waiters) : t.Onward given low high later where
  pending := fun scope _ hlater ↦ hpending scope ▸ hlater
  waits := fun _ hwaiter _ _ ↦ hwaiters ▸ hwaiter
  fresh := fun _ hwaiter ↦ Or.inl (hwaiters ▸ hwaiter)
  awaited := fun hawaited waiter hwaiter ↦
    (hpending waiter.1).trans (hawaited waiter (hwaiters ▸ hwaiter))

theorem Onward.refl (t : Tracker) : t.Onward given low high t := .of_eq (fun _ ↦ rfl) rfl

theorem Onward.trans (h : t.Onward given low high middle) (hlater : middle.Onward wider low high later)
    (hwider : ∀ scope, given scope → wider scope) : t.Onward given low high later where
  pending := fun scope hgiven hpending ↦
    h.pending scope hgiven (hlater.pending scope (hwider scope hgiven) hpending)
  waits := fun waiter hwaiter hgiven hpending ↦
    have hwide := hwider waiter.1 hgiven
    hlater.waits waiter (h.waits waiter hwaiter hgiven (hlater.pending _ hwide hpending)) hwide hpending
  fresh := fun waiter hwaiter ↦ (hlater.fresh waiter hwaiter).elim (h.fresh waiter) Or.inr
  awaited := fun hawaited ↦ hlater.awaited (h.awaited hawaited)

/-- One completion clears a scope with all who wait for it, or it changes neither. -/
theorem complete_cases (t : Tracker) (scope : Nat) :
    ((t.complete scope).tracker.pending = t.pending.erase scope ∧
      (t.complete scope).tracker.waiters = t.waiters.filter fun waiter ↦ waiter.1 != scope) ∨
    ((∀ other, (t.complete scope).tracker.isPending other = t.isPending other) ∧
      (t.complete scope).tracker.waiters = t.waiters) := by
  unfold complete
  split
  · exact Or.inr ⟨fun _ ↦ rfl, rfl⟩
  · dsimp only
    split_ifs <;> exact Or.inl ⟨rfl, rfl⟩
  · rename_i n hcount
    refine Or.inr ⟨fun other ↦ ?_, rfl⟩
    rw [isPending, isPending, Table.contains, Table.contains, Table.get?_insert]
    split_ifs with heq
    · rw [count, heq] at hcount
      cases hget : t.pending.get? other with
      | none => simp [hget] at hcount
      | some k => rfl
    · rfl

theorem onward_complete (t : Tracker) (scope : Nat) :
    t.Onward given low high (t.complete scope).tracker := by
  rcases t.complete_cases scope with ⟨hpending, hwaiters⟩ | ⟨hpending, hwaiters⟩
  · have hget (other : Nat) : (t.complete scope).tracker.isPending other =
        if scope = other then false else t.isPending other := by
      rw [isPending, isPending, Table.contains, Table.contains, hpending, Table.get?_erase]
      split_ifs <;> rfl
    have hkept (other : Nat) (hother : (t.complete scope).tracker.isPending other = true) :
        scope ≠ other ∧ t.isPending other = true := by
      rw [hget] at hother
      split_ifs at hother with heq
      exact ⟨heq, hother⟩
    constructor
    case pending => exact fun other _ hother ↦ (hkept other hother).2
    case waits =>
      intro waiter hwaiter _ hother
      rw [hwaiters]
      exact List.mem_filter.mpr ⟨hwaiter, bne_iff_ne.mpr (hkept _ hother).1.symm⟩
    case fresh =>
      intro waiter hwaiter
      rw [hwaiters] at hwaiter
      exact Or.inl (List.mem_filter.mp hwaiter).1
    case awaited =>
      intro hawaited waiter hwaiter
      rw [hwaiters] at hwaiter
      obtain ⟨hold, hne⟩ := List.mem_filter.mp hwaiter
      rw [hget, if_neg (bne_iff_ne.mp hne).symm]
      exact hawaited waiter hold
  · exact .of_eq hpending hwaiters

theorem onward_completeAll (t : Tracker) (closed : List Nat) :
    t.Onward given low high (t.completeAll closed) := by
  induction closed generalizing t with
  | nil => exact .refl t
  | cons first rest ih => exact (t.onward_complete first).trans (ih _) fun _ ↦ id

/-- A scope is dispatched that was not given out before. -/
theorem onward_dispatch (t : Tracker) {scope : Nat} (hnew : ¬ given scope) :
    t.Onward given low high (t.dispatch scope) := by
  have hget (other : Nat) : (t.dispatch scope).isPending other =
      if scope = other then true else t.isPending other := by
    rw [isPending, isPending, Table.contains, Table.contains, get?_dispatch]
    split_ifs <;> rfl
  constructor
  case pending =>
    intro other hgiven hother
    have hne : scope ≠ other := fun heq ↦ hnew (heq ▸ hgiven)
    rw [hget, if_neg hne] at hother
    exact hother
  case waits => exact fun _ hwaiter _ _ ↦ hwaiter
  case fresh => exact fun _ hwaiter ↦ Or.inl hwaiter
  case awaited =>
    intro hawaited waiter hwaiter
    rw [hget]
    split_ifs
    · rfl
    · exact hawaited waiter hwaiter

/-- New tickets are taken for pending scopes. -/
theorem onward_wait (t : Tracker) {held : List (Nat × Nat)}
    (hheld : ∀ waiter ∈ held, t.isPending waiter.1 = true ∧ low ≤ waiter.2 ∧ waiter.2 < high) :
    t.Onward given low high { t with waiters := t.waiters ++ held } where
  pending := fun _ _ hpending ↦ hpending
  waits := fun _ hwaiter _ _ ↦ List.mem_append_left _ hwaiter
  fresh := fun waiter hwaiter ↦
    (List.mem_append.mp hwaiter).imp_right fun hnew ↦ (hheld waiter hnew).2
  awaited := fun hawaited waiter hwaiter ↦
    (List.mem_append.mp hwaiter).elim (hawaited waiter) fun hnew ↦ (hheld waiter hnew).1

end Tracker

namespace ScopeTable

variable {t middle later : ScopeTable}

/-- One scope table comes after another: scopes stay where they are, and new ones get new ids. -/
structure Onward (t later : ScopeTable) : Prop where
  next_le : t.next ≤ later.next
  parent : ∀ id < t.next, ∀ scope, later.entries.get? id = some scope →
    ∃ was, t.entries.get? id = some was ∧ scope.parent = was.parent

theorem Onward.refl (t : ScopeTable) : t.Onward t :=
  ⟨Nat.le_refl _, fun _ _ scope hscope ↦ ⟨scope, hscope, rfl⟩⟩

theorem Onward.trans (h : t.Onward middle) (hlater : middle.Onward later) : t.Onward later := by
  refine ⟨Nat.le_trans h.next_le hlater.next_le, fun id hid scope hscope ↦ ?_⟩
  obtain ⟨between, hbetween, hparent⟩ :=
    hlater.parent id (Nat.lt_of_lt_of_le hid h.next_le) scope hscope
  obtain ⟨was, hwas, hbefore⟩ := h.parent id hid between hbetween
  exact ⟨was, hwas, hparent.trans hbefore⟩

theorem onward_openNext (t : ScopeTable) (wired : Bool) (parent : Nat) :
    t.Onward (t.openNext wired parent) := by
  refine ⟨next_openNext t wired parent ▸ Nat.le_succ _, fun id hid scope hscope ↦ ?_⟩
  cases wired with
  | false => exact ⟨scope, hscope, rfl⟩
  | true =>
    obtain ⟨change, hchange⟩ := get?_openNext_of_ne (Nat.ne_of_gt hid) parent
    obtain ⟨was, hwas, rfl⟩ := Option.map_eq_some_iff.mp (hchange.symm.trans hscope)
    exact ⟨was, hwas, rfl⟩

theorem onward_finish {id : Nat} {closed : List Nat} (h : t.finish id = some (closed, later)) :
    t.Onward later := by
  unfold finish at h
  cases hopen : t.entries.get? id with
  | none => simp [hopen] at h
  | some opened =>
    simp only [hopen] at h
    split_ifs at h
    have hcloses := closeUp_closes
      (Nat.le_refl (t.entries.insert id { opened with nodeFinished := true }).size) (some id)
    obtain ⟨rfl, rfl⟩ := Prod.mk.inj (Option.some.inj h)
    refine ⟨Nat.le_refl _, fun other hother scope hscope ↦ ?_⟩
    generalize closeUp _ _ _ = closing at hcloses hscope
    obtain ⟨closed, rest⟩ := closing
    by_cases hclosed : other ∈ closed
    · cases (hcloses.get?_closed hclosed).2.symm.trans hscope
    · obtain ⟨change, hchange⟩ := hcloses.get?_rest hclosed
      obtain ⟨marked, hmarked, rfl⟩ := Option.map_eq_some_iff.mp (hchange.symm.trans hscope)
      rw [Table.get?_insert] at hmarked
      split_ifs at hmarked with heq
      · obtain rfl := Option.some.inj hmarked
        exact ⟨opened, heq ▸ hopen, rfl⟩
      · exact ⟨marked, hmarked, rfl⟩

end ScopeTable

namespace RunView

/-- A scope was given out before, if the run is under way. -/
def Given (v : RunView) (scope : Nat) : Prop :=
  ∀ active, v.active = some active → scope < active.scopes.next

/-- One run comes after another, in its two books. -/
structure Onward (low high : Nat) (v after : RunView) : Prop where
  tracker : ∀ c, v.context = some c → ∃ later, after.context = some later ∧
    c.tracker.Onward v.Given low high later.tracker ∧
    (v.active = none → later.tracker.pending = c.tracker.pending)
  active : ∀ active, v.active = some active → ∃ later, after.active = some later ∧
    later.graph = active.graph ∧ active.scopes.Onward later.scopes
  idle : v.active = none → after.active = none

variable {low high : Nat} {v middle after : RunView} {c : Context}

theorem Onward.given (h : Onward low high v after) {scope : Nat} (hgiven : v.Given scope) :
    after.Given scope := by
  intro later hlater
  cases hactive : v.active with
  | none => cases (h.idle hactive).symm.trans hlater
  | some active =>
    obtain ⟨other, hother, -, honward⟩ := h.active active hactive
    obtain rfl := Option.some.inj (hlater.symm.trans hother)
    exact Nat.lt_of_lt_of_le (hgiven active hactive) honward.next_le

/-- Assumes: the same scopes in the interpreter, and a tracker that goes on by itself. -/
theorem Onward.of_context {later : Context} (hcontext : v.context = some c)
    (hlater : after.context = some later) (hactive : after.active = v.active)
    (htracker : c.tracker.Onward v.Given low high later.tracker)
    (hpending : later.tracker.pending = c.tracker.pending) : Onward low high v after where
  tracker := fun other hother ↦ by
    obtain rfl := Option.some.inj (hcontext.symm.trans hother)
    exact ⟨later, hlater, htracker, fun _ ↦ hpending⟩
  active := fun active hsome ↦ ⟨active, hactive.trans hsome, rfl, .refl _⟩
  idle := hactive.trans

/-- Assumes: nothing of the books is changed. -/
theorem Onward.of_eq {later : Context} (hcontext : v.context = some c)
    (hlater : after.context = some later) (hactive : after.active = v.active)
    (htracker : later.tracker = c.tracker) : Onward low high v after :=
  .of_context hcontext hlater hactive (htracker ▸ .refl _) (congrArg _ htracker)

theorem Onward.trans (h : Onward low high v middle) (hafter : Onward low high middle after) :
    Onward low high v after where
  tracker := fun c hcontext ↦ by
    obtain ⟨between, hbetween, hfirst, hsame⟩ := h.tracker c hcontext
    obtain ⟨later, hlater, hsecond, hsame'⟩ := hafter.tracker between hbetween
    exact ⟨later, hlater, hfirst.trans hsecond fun _ ↦ h.given,
      fun hnone ↦ (hsame' (h.idle hnone)).trans (hsame hnone)⟩
  active := fun active hactive ↦ by
    obtain ⟨between, hbetween, hgraph, hfirst⟩ := h.active active hactive
    obtain ⟨later, hlater, hgraph', hsecond⟩ := hafter.active between hbetween
    exact ⟨later, hlater, hgraph'.trans hgraph, hfirst.trans hsecond⟩
  idle := fun hnone ↦ hafter.idle (h.idle hnone)

theorem onward_finish (hcontext : v.context = some c) (scope : Nat) :
    Onward low high v (v.finish scope) := by
  cases hactive : v.active with
  | none =>
    have hsame : v.finish scope = v := by simp only [RunView.finish, hactive]
    rw [hsame]
    exact .of_eq hcontext hcontext rfl rfl
  | some active =>
    unfold RunView.finish
    simp only [hactive]
    split
    · exact .of_eq hcontext hcontext rfl rfl
    · rename_i closed scopes hfinish
      constructor
      case tracker =>
        intro other hother
        refine ⟨_, congrArg (Option.map _) hother, other.tracker.onward_completeAll closed, ?_⟩
        exact fun hnone ↦ by cases hactive.symm.trans hnone
      case active =>
        intro other hother
        obtain rfl := Option.some.inj (hactive.symm.trans hother)
        exact ⟨_, rfl, rfl, ScopeTable.onward_finish hfinish⟩
      case idle => exact fun hnone ↦ by cases hactive.symm.trans hnone

theorem onward_conclude (hcontext : v.context = some c) (call : NodeCall) (ending : Ending) :
    Onward low high v (v.conclude call ending) := by
  unfold RunView.conclude
  split_ifs with hdone
  · exact onward_finish hcontext call.scope
  · have hfailed : Onward low high v { v with
        context := v.context.map fun c ↦ { c with failedBranches := c.failedBranches + 1 } } :=
      .of_eq hcontext (congrArg (Option.map _) hcontext) rfl rfl
    exact hfailed.trans (onward_finish (congrArg (Option.map _) hcontext) call.scope)

variable {m m' : Machine} {run : RunId} {lost : List Nat} {written : List (String × Value)}

theorem Invokes.onward {call : NodeCall} (h : Invokes m m' run call v c after lost)
    (hcontext : v.context = some c) : Onward low high v after := by
  cases h with
  | unknown hkind => exact onward_conclude hcontext call _
  | spawned | lost => exact .of_eq hcontext hcontext rfl rfl
  | queued | drained => exact .of_eq hcontext rfl rfl rfl

theorem Serves.onward {a : Activity} {home : Option Nat} {request : Behaviour}
    (h : Serves m m' run v c a home request after written lost) (hcontext : v.context = some c) :
    Onward m.nextTicket m'.nextTicket v after := by
  -- A new scope is the next one.
  have hnew (active : ActiveRun) (hactive : v.active = some active) :
      ¬ v.Given active.scopes.next := fun hgiven ↦ Nat.lt_irrefl _ (hgiven active hactive)
  cases h with
  | ended ending hending => exact onward_conclude hcontext a.call ending
  | paused => exact .of_eq hcontext hcontext rfl rfl
  | answered hanswers =>
    cases hanswers with
    | join scopes next held hheld =>
      refine .of_context hcontext rfl rfl (c.tracker.onward_wait fun waiter hwaiter ↦ ?_) rfl
      exact (hheld waiter hwaiter).2
    | _ => exact .of_eq hcontext rfl rfl rfl
  | unwired pin next active hactive hpin =>
    constructor
    case tracker =>
      intro other hother
      obtain rfl := Option.some.inj (hcontext.symm.trans hother)
      refine ⟨_, rfl, ?_, fun hnone ↦ nomatch hactive.symm.trans hnone⟩
      exact (c.tracker.onward_dispatch (hnew active hactive)).trans
        (Tracker.onward_complete _ _) fun _ ↦ id
    case active =>
      intro other hother
      obtain rfl := Option.some.inj (hactive.symm.trans hother)
      exact ⟨_, rfl, rfl, active.scopes.onward_openNext false a.call.scope⟩
    case idle => exact fun hnone ↦ nomatch hactive.symm.trans hnone
  | wired pin next active target bindings hactive hpin htarget hinvokes =>
    refine Onward.trans ?_ (hinvokes.onward rfl)
    constructor
    case tracker =>
      intro other hother
      obtain rfl := Option.some.inj (hcontext.symm.trans hother)
      exact ⟨_, rfl, c.tracker.onward_dispatch (hnew active hactive),
        fun hnone ↦ nomatch hactive.symm.trans hnone⟩
    case active =>
      intro other hother
      obtain rfl := Option.some.inj (hactive.symm.trans hother)
      exact ⟨_, rfl, rfl, active.scopes.onward_openNext true a.call.scope⟩
    case idle => exact fun hnone ↦ nomatch hactive.symm.trans hnone

/-- The work of a run takes nothing back. -/
theorem Labour.onward (h : Labour m m' run v c after written lost) (hcontext : v.context = some c) :
    Onward m.nextTicket m'.nextTicket v after := by
  cases h with
  | polled | shelved => exact .of_eq hcontext hcontext rfl rfl
  | served a home rest hframes hcan hresumes hserves =>
    have honward := hserves.onward hcontext
    exact ⟨honward.tracker, honward.active, honward.idle⟩
  | released | taken => exact .of_eq hcontext rfl rfl rfl
  | skipped rest call calls hframes hcalls hkind =>
    have htaken : Onward m.nextTicket m'.nextTicket v
        { v with context := some { c with queue := { c.queue with calls } } } :=
      .of_eq hcontext rfl rfl rfl
    exact htaken.trans (onward_conclude rfl call _)

/-! ### Tickets -/

variable {a b : Activity} {tickets : List Nat} {next : Behaviour}

theorem Invokes.joining {call : NodeCall} (h : Invokes m m' run call v c after lost)
    (hb : b ∈ after.activities) (hprogress : b.progress = .joining tickets next) :
    b ∈ v.activities := by
  cases h with
  | unknown hkind => exact conclude_activities v call _ ▸ hb
  | spawned kind task =>
    rcases mem_activities.mp hb with hframe | ⟨other, htask⟩
    · exact mem_activities.mpr (Or.inl hframe)
    · rcases List.mem_append.mp htask with hold | hnew
      · exact mem_activities.mpr (Or.inr ⟨other, hold⟩)
      · obtain ⟨-, rfl⟩ := Prod.mk.inj (List.mem_singleton.mp hnew)
        cases hprogress
  | lost | queued => exact hb
  | drained => simpa [RunView.activities, Frame.activity?] using hb

/-- A node begins to join some scopes, and takes tickets. -/
structure TakesTickets (m m' : Machine) (c : Context) (after : RunView) (scopes tickets : List Nat) :
    Prop where
  taken : ∃ held : List (Nat × Nat), tickets = held.map (·.2) ∧
    (∀ waiter ∈ held, waiter.1 ∈ scopes ∧ m.nextTicket ≤ waiter.2 ∧ waiter.2 < m'.nextTicket) ∧
    (∀ scope ∈ scopes, c.tracker.isPending scope = true → ∃ waiter ∈ held, waiter.1 = scope) ∧
    after.context = some
      { c with tracker := { c.tracker with waiters := c.tracker.waiters ++ held } }

theorem Serves.joining {home : Option Nat} {request : Behaviour}
    (h : Serves m m' run v c a home request after written lost) (hb : b ∈ after.activities)
    (hprogress : b.progress = .joining tickets next) :
    b ∈ v.activities ∨ b.call = a.call ∧ ∃ scopes, request = .join scopes next ∧
      TakesTickets m m' c after scopes tickets := by
  cases h with
  | ended ending hending => exact Or.inl (conclude_activities v a.call ending ▸ hb)
  | answered hanswers =>
    rcases List.mem_cons.mp hb with rfl | hold
    · cases hanswers with
      | join scopes following held hheld hall =>
        obtain ⟨rfl, rfl⟩ := Progress.joining.inj hprogress
        exact Or.inr ⟨rfl, scopes, rfl, ⟨held, rfl,
          fun waiter hwaiter ↦ ⟨(hheld waiter hwaiter).1, (hheld waiter hwaiter).2.2⟩, hall, rfl⟩⟩
      | _ => cases hprogress
    · exact Or.inl hold
  | paused hpause hshelves =>
    rcases mem_activities.mp hb with hframe | ⟨task, htask⟩
    · exact Or.inl (mem_activities.mpr (Or.inl hframe))
    · rcases hshelves.mem_or htask with hold | rfl
      · exact Or.inl (mem_activities.mpr (Or.inr ⟨task, hold⟩))
      · simp only at hprogress
        subst hprogress
        cases request <;> cases hpause
  | unwired pin following active hactive hpin =>
    rcases List.mem_cons.mp hb with rfl | hold
    · cases hprogress
    · exact Or.inl hold
  | wired pin following active target bindings hactive hpin htarget hinvokes =>
    rcases List.mem_cons.mp (hinvokes.joining hb hprogress) with rfl | hold
    · cases hprogress
    · exact Or.inl hold

/-- A node that joins some scopes did so before, or it begins to. -/
theorem Labour.joining (h : Labour m m' run v c after written lost) (hb : b ∈ after.activities)
    (hprogress : b.progress = .joining tickets next) :
    b ∈ v.activities ∨ ∃ a ∈ v.activities, a.call = b.call ∧ ∃ scopes,
      Resumes a.progress (.join scopes next) ∧ TakesTickets m m' c after scopes tickets := by
  cases h with
  | polled before rest task a htasks hcan => exact Or.inl (mem_of_polled htasks hb)
  | shelved a home rest hframes hcan hshelves => exact Or.inl (mem_of_shelved hframes hshelves hb)
  | served a home rest hframes hcan hresumes hserves =>
    rcases hserves.joining hb hprogress with hold | ⟨hcall, scopes, rfl, htakes⟩
    · rw [RunView.activities, hframes]
      exact Or.inl (List.mem_cons_of_mem _ hold)
    · have ha : a ∈ v.activities := mem_activities.mpr (Or.inl ⟨home, by simp [hframes]⟩)
      exact Or.inr ⟨a, ha, hcall.symm, scopes, hresumes, htakes⟩
  | released rest hframes hcalls =>
    rw [RunView.activities, hframes]
    exact Or.inl hb
  | taken rest call calls kind hframes hcalls hkind =>
    rcases List.mem_cons.mp hb with rfl | hold
    · cases hprogress
    · exact Or.inl hold
  | skipped rest call calls hframes hcalls hkind =>
    rw [conclude_activities] at hb
    exact Or.inl hb

/-! ### Nodes without a task -/

theorem queued_conclude (hcontext : v.context = some c) (call : NodeCall) (ending : Ending) :
    (v.conclude call ending).queued = v.queued := by
  unfold RunView.conclude
  rw [queued_finish]
  split_ifs with hdone
  · rfl
  · simp only [queued, hcontext, Option.map_some]

theorem frames_conclude (v : RunView) (call : NodeCall) (ending : Ending) :
    (v.conclude call ending).frames = v.frames := by
  obtain ⟨context, active, hconclude⟩ := conclude_eq v call ending
  rw [hconclude]

/-- The nodes of a kind are sync. -/
def IsSync (registry : Registry) (call : NodeCall) : Prop :=
  ∃ kind, registry.get? call.kind = some kind ∧ kind.mode = .sync

/-- Nodes that have no task of their own are sync nodes, be they on the queue or on the frames. -/
structure Inline (registry : Registry) (v : RunView) : Prop where
  onQueue : ∀ call ∈ v.queued, IsSync registry call
  onFrames : ∀ a, .node a none ∈ v.frames → IsSync registry a.call

section

variable {registry : Registry}

theorem Inline.of_eq (h : v.Inline registry) (hqueued : after.queued = v.queued)
    (hframes : ∀ a, .node a none ∈ after.frames → .node a none ∈ v.frames) :
    after.Inline registry :=
  ⟨fun call hcall ↦ h.onQueue call (hqueued ▸ hcall), fun a ha ↦ h.onFrames a (hframes a ha)⟩

theorem Inline.conclude (h : v.Inline registry) (hcontext : v.context = some c) (call : NodeCall)
    (ending : Ending) : (v.conclude call ending).Inline registry :=
  h.of_eq (queued_conclude hcontext call ending) fun _ ha ↦ frames_conclude v call ending ▸ ha

/-- Assumes: a node that is put on the frames with the task that it had, or is sync. -/
theorem Inline.push {home : Option Nat} (h : v.Inline registry)
    (hframes : after.frames = .node b home :: v.frames) (hqueued : after.queued = v.queued)
    (hsync : home = none → IsSync registry b.call) : after.Inline registry := by
  refine ⟨fun call hcall ↦ h.onQueue call (hqueued ▸ hcall), fun other hother ↦ ?_⟩
  rw [hframes] at hother
  rcases List.mem_cons.mp hother with heq | hold
  · obtain ⟨rfl, rfl⟩ := Frame.node.inj heq
    exact hsync rfl
  · exact h.onFrames other hold

end

theorem Inline.invoke {call : NodeCall} (h : v.Inline m.provider.registry)
    (hinvokes : Invokes m m' run call v c after lost) (hcontext : v.context = some c) :
    after.Inline m.provider.registry := by
  have hpush (later : Context) {kind : NodeKind}
      (hcalls : later.queue.calls = c.queue.calls ++ [call])
      (hkind : m.provider.registry.get? call.kind = some kind) (hmode : kind.mode = .sync) :
      ({ v with context := some later } : RunView).Inline m.provider.registry := by
    refine ⟨fun other hother ↦ ?_, h.onFrames⟩
    simp only [RunView.queued, Option.map_some, Option.getD_some, hcalls] at hother
    rcases List.mem_append.mp hother with hold | hnew
    · refine h.onQueue other ?_
      rw [RunView.queued, hcontext]
      exact hold
    · obtain rfl := List.mem_singleton.mp hnew
      exact ⟨kind, hkind, hmode⟩
  cases hinvokes with
  | unknown hkind => exact h.conclude hcontext call _
  | spawned | lost => exact ⟨h.onQueue, h.onFrames⟩
  | queued kind hkind hmode => exact hpush _ rfl hkind hmode
  | drained kind hkind hmode =>
    refine (hpush _ rfl hkind hmode).of_eq rfl fun other hother ↦ ?_
    rcases List.mem_cons.mp hother with heq | hold
    · cases heq
    · exact hold

/-- Assumes: a node that has a task, or is sync. -/
theorem Inline.serve {home : Option Nat} {request : Behaviour} (h : v.Inline m.provider.registry)
    (hserves : Serves m m' run v c a home request after written lost) (hcontext : v.context = some c)
    (hsync : home = none → IsSync m.provider.registry a.call) :
    after.Inline m.provider.registry := by
  cases hserves with
  | ended ending hending => exact h.conclude hcontext a.call ending
  | answered hanswers =>
    refine h.push rfl ?_ hsync
    simp only [RunView.queued, hcontext, Option.map_some, hanswers.extends.2]
  | paused => exact ⟨h.onQueue, h.onFrames⟩
  | unwired =>
    refine h.push rfl ?_ hsync
    simp only [RunView.queued, hcontext, Option.map_some]
  | wired pin following active target bindings hactive hpin htarget hinvokes =>
    refine Inline.invoke ?_ hinvokes rfl
    refine h.push rfl ?_ hsync
    simp only [RunView.queued, hcontext, Option.map_some]

theorem Inline.labour (h : v.Inline m.provider.registry)
    (hlabour : Labour m m' run v c after written lost) (hcontext : v.context = some c) :
    after.Inline m.provider.registry := by
  have hpop {call : NodeCall} {calls : List NodeCall} (hcalls : c.queue.calls = call :: calls) :
      ({ v with context := some { c with queue := { c.queue with calls } } } :
        RunView).Inline m.provider.registry ∧ IsSync m.provider.registry call := by
    have hqueued : v.queued = call :: calls := by
      rw [RunView.queued, hcontext]
      exact hcalls
    refine ⟨⟨fun other hother ↦ h.onQueue other ?_, h.onFrames⟩, h.onQueue call ?_⟩
    · exact hqueued ▸ List.mem_cons_of_mem _ hother
    · exact hqueued ▸ List.mem_cons_self
  cases hlabour with
  | polled before rest task b =>
    refine h.of_eq rfl fun other hother ↦ ?_
    rcases List.mem_cons.mp hother with heq | hold
    · cases heq
    · exact hold
  | shelved b home rest hframes =>
    exact h.of_eq rfl fun other hother ↦ hframes ▸ List.mem_cons_of_mem _ hother
  | served b home rest hframes hcan hresumes hserves =>
    have hrest : ({ v with frames := rest } : RunView).Inline m.provider.registry :=
      h.of_eq rfl fun other hother ↦ hframes ▸ List.mem_cons_of_mem _ hother
    exact hrest.serve hserves hcontext fun hhome ↦
      h.onFrames b (hframes ▸ hhome ▸ List.mem_cons_self)
  | released rest hframes hcalls =>
    refine h.of_eq ?_ fun other hother ↦ hframes ▸ List.mem_cons_of_mem _ hother
    simp only [RunView.queued, hcontext, Option.map_some]
  | taken rest call calls kind hframes hcalls =>
    exact (hpop hcalls).1.push rfl rfl fun _ ↦ (hpop hcalls).2
  | skipped rest call calls hframes hcalls => exact (hpop hcalls).1.conclude rfl call _

/-- Assumes: a run without a place for tasks. Only sync nodes are at work. -/
theorem Inline.sync_of_seated {registry : Registry} (h : v.Inline registry) (hseated : v.Seated)
    (hcontext : v.context = some c) (hplace : c.hasTasks = false) (ha : a ∈ v.activities) :
    IsSync registry a.call := by
  obtain ⟨htasks, hframes⟩ := hseated c hcontext hplace
  rcases mem_activities.mp ha with ⟨home, hframe⟩ | ⟨task, htask⟩
  · cases home with
    | some task => exact absurd hframe (hframes a task)
    | none => exact h.onFrames a hframe
  · rw [htasks] at htask
    cases htask

/-! ### Given tickets -/

/-- The tickets of a run were given out, and those that are held are for pending scopes. -/
structure Ticketed (nextTicket : Nat) (v : RunView) : Prop where
  waiters : ∀ c, v.context = some c → ∀ waiter ∈ c.tracker.waiters,
    c.tracker.isPending waiter.1 = true ∧ waiter.2 < nextTicket
  tickets : ∀ a ∈ v.activities, ∀ tickets next, a.progress = .joining tickets next →
    ∀ ticket ∈ tickets, ticket < nextTicket

/-- Assumes: a run that goes on, and nodes that have joined scopes before or take new tickets. -/
theorem Ticketed.onward (h : v.Ticketed low) (hle : low ≤ high) (hcontext : v.context = some c)
    (honward : Onward low high v after)
    (hjoining : ∀ b ∈ after.activities, ∀ tickets next, b.progress = .joining tickets next →
      b ∈ v.activities ∨ ∀ ticket ∈ tickets, ticket < high) : after.Ticketed high where
  waiters := fun c' hc' waiter hwaiter ↦ by
    obtain ⟨later, hlater, htracker, -⟩ := honward.tracker c hcontext
    obtain rfl := Option.some.inj (hc'.symm.trans hlater)
    have hawaited : ∀ waiter ∈ c.tracker.waiters, c.tracker.isPending waiter.1 = true :=
      fun other hother ↦ (h.waiters c hcontext other hother).1
    refine ⟨htracker.awaited hawaited waiter hwaiter, ?_⟩
    rcases htracker.fresh waiter hwaiter with hold | hnew
    · exact Nat.lt_of_lt_of_le (h.waiters c hcontext waiter hold).2 hle
    · exact hnew.2
  tickets := fun b hb tickets next hprogress ticket hticket ↦
    (hjoining b hb tickets next hprogress).elim
      (fun hold ↦ Nat.lt_of_lt_of_le (h.tickets b hold tickets next hprogress ticket hticket) hle)
      fun hnew ↦ hnew ticket hticket

theorem Ticketed.labour (h : v.Ticketed m.nextTicket) (hle : m.nextTicket ≤ m'.nextTicket)
    (hcontext : v.context = some c) (hlabour : Labour m m' run v c after written lost) :
    after.Ticketed m'.nextTicket := by
  refine h.onward hle hcontext (hlabour.onward hcontext) fun b hb tickets next hprogress ↦ ?_
  rcases hlabour.joining hb hprogress with hold | ⟨a, ha, -, scopes, -, htakes⟩
  · exact Or.inl hold
  · obtain ⟨held, rfl, hheld, -, -⟩ := htakes.taken
    refine Or.inr fun ticket hticket ↦ ?_
    obtain ⟨waiter, hwaiter, rfl⟩ := List.mem_map.mp hticket
    exact (hheld waiter hwaiter).2.2

/-- A run that has not been started takes no tickets by the start. -/
theorem Unstarted.ticketed_begins {graphs : Table Nat Graph} {inputs : Inputs} (h : v.Unstarted c)
    (hbegins : Begins m m' run graphs v c inputs after lost) (nextTicket : Nat) :
    after.Ticketed nextTicket ∧ after.Inline m.provider.registry := by
  have hactivities : v.activities = [] := by simp [RunView.activities, h.frames, h.tasks]
  have hidle (later : Context) (active : Option ActiveRun) (hwaiters : later.tracker.waiters = [])
      (hcalls : later.queue.calls = []) :
      ({ v with context := some later, active } : RunView).Ticketed nextTicket ∧
        ({ v with context := some later, active } : RunView).Inline m.provider.registry := by
    refine ⟨⟨fun c' hc' waiter hwaiter ↦ ?_, fun a ha ↦ ?_⟩, fun call hcall ↦ ?_, fun a ha ↦ ?_⟩
    · obtain rfl := Option.some.inj hc'
      rw [hwaiters] at hwaiter
      cases hwaiter
    · change a ∈ v.activities at ha
      rw [hactivities] at ha
      cases ha
    · simp [queued, hcalls] at hcall
    · rw [h.frames] at ha
      cases ha
  cases hbegins with
  | refused hgraph => exact hidle _ _ h.tracker.waiters h.calls
  | entered graph entry bindings hgraph hentry hinvokes =>
    obtain ⟨hticketed, hinline⟩ := hidle
      { c with inputs := some inputs, tracker := c.tracker.dispatch rootScope, bindings }
      (some { graph, inputs, scopes := .initial }) h.tracker.waiters h.calls
    exact ⟨hticketed.onward (Nat.le_refl _) rfl (hinvokes.onward rfl)
      fun b hb tickets next hprogress ↦ Or.inl (hinvokes.joining hb hprogress),
      hinline.invoke hinvokes rfl⟩
  | nodeless =>
    refine hidle _ _ ?_ h.calls
    exact List.subset_nil.mp (h.tracker.waiters ▸ Tracker.waiters_complete _ _)

end RunView

end Blueprint

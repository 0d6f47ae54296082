import Blueprint.Proofs.Interpreter.ScopeTree
import Blueprint.Scope.Tracker

/-!
The two books on a run. The interpreter keeps the open scopes and the tracker of the run's host the
pending ones; `Tracker.Agrees` says that they are the same scopes, each pending once, that the run
counts as finished when its root is not open, and that nobody waits for a scope that is not pending.
What the interpreter reports of a trigger or a finish keeps the agreement (`Agrees.openUnwired`,
`Agrees.openWired`, `Agrees.finish`).
-/

set_option autoImplicit false

namespace Blueprint.Tracker

variable {t : Tracker} {entries later : Table Nat OpenScope}

/-- A tracker that nothing was reported to. It may have a handler. -/
structure Unused (t : Tracker) : Prop where
  pending : ∀ scope, t.pending.get? scope = none
  waiters : t.waiters = []
  rootCompleted : t.rootCompleted = false
  finished : t.finished = false

structure Agrees (t : Tracker) (entries : Table Nat OpenScope) : Prop where
  pending : ∀ scope, t.pending.get? scope = (entries.get? scope).map fun _ ↦ 1
  finished_iff : t.finished = true ↔ entries.get? rootScope = none
  rootCompleted_eq : t.rootCompleted = t.finished
  awaited : ∀ waiter ∈ t.waiters, t.pending.get? waiter.1 ≠ none

/-- Only which scopes are open counts. -/
theorem Agrees.congr (h : t.Agrees entries)
    (hsame : ∀ scope, (later.get? scope).isSome = (entries.get? scope).isSome) :
    t.Agrees later := by
  have hmap (scope : Nat) :
      (later.get? scope).map (fun _ ↦ 1) = (entries.get? scope).map fun _ ↦ 1 := by
    have hscope := hsame scope
    cases hlater : later.get? scope <;> cases hentry : entries.get? scope <;> simp_all
  refine { h with pending := fun scope ↦ (h.pending scope).trans (hmap scope).symm, finished_iff := ?_ }
  rw [h.finished_iff, ← Option.not_isSome_iff_eq_none, ← Option.not_isSome_iff_eq_none, hsame]

theorem get?_dispatch (t : Tracker) (scope other : Nat) :
    (t.dispatch scope).pending.get? other =
      if scope = other then some (t.count scope + 1) else t.pending.get? other := by
  rw [dispatch, Table.get?_insert]

/-- A scope that is not pending, and not the root, is dispatched. -/
theorem Agrees.dispatch (h : t.Agrees entries) {scope : Nat} (hnew : entries.get? scope = none)
    (hroot : scope ≠ rootScope) (opened : OpenScope) :
    (t.dispatch scope).Agrees (entries.insert scope opened) := by
  have hcount : t.count scope = 0 := by rw [count, h.pending, hnew]; rfl
  refine ⟨fun other ↦ ?_, ?_, h.rootCompleted_eq, fun waiter hwaiter ↦ ?_⟩
  · rw [get?_dispatch, Table.get?_insert, hcount]
    split_ifs
    · rfl
    · exact h.pending other
  · rw [Table.get?_insert, if_neg hroot]
    exact h.finished_iff
  · rw [get?_dispatch]
    split_ifs
    · simp
    · exact h.awaited waiter hwaiter

/-- The root of a run is dispatched. -/
theorem Unused.dispatch (h : t.Unused) : (t.dispatch rootScope).Agrees ScopeTable.initial.entries := by
  have hcount : t.count rootScope = 0 := by rw [count, h.pending]; rfl
  refine ⟨fun other ↦ ?_, ?_, ?_, ?_⟩
  · rw [get?_dispatch, ScopeTable.initial, Table.get?_insert, hcount]
    split_ifs
    · rfl
    · exact h.pending other
  · simp [Tracker.dispatch, h.finished, ScopeTable.initial]
  · simp [Tracker.dispatch, h.finished, h.rootCompleted]
  · simp [Tracker.dispatch, h.waiters]

/-- A scope that is open completes. -/
theorem Agrees.complete (h : t.Agrees entries) {scope : Nat} {opened : OpenScope}
    (hopen : entries.get? scope = some opened) :
    (t.complete scope).tracker.Agrees (entries.erase scope) := by
  have hcount : t.count scope = 1 := by rw [count, h.pending, hopen]; rfl
  have hpending (other : Nat) : (t.pending.erase scope).get? other =
      ((entries.erase scope).get? other).map fun _ ↦ 1 := by
    rw [Table.get?_erase, Table.get?_erase]
    split_ifs
    · rfl
    · exact h.pending other
  have hawaited : ∀ waiter ∈ t.waiters.filter fun w ↦ w.1 != scope,
      (t.pending.erase scope).get? waiter.1 ≠ none := by
    intro waiter hwaiter
    obtain ⟨hmem, hne⟩ := List.mem_filter.mp hwaiter
    rw [Table.get?_erase, if_neg (Ne.symm (by simpa using hne))]
    exact h.awaited waiter hmem
  unfold Tracker.complete
  rw [hcount]
  by_cases hroot : scope = rootScope
  · subst hroot
    have hrunning : t.rootCompleted = false := by
      rw [h.rootCompleted_eq, ← Bool.not_eq_true, h.finished_iff, hopen]
      simp
    simp only [beq_self_eq_true, hrunning, Bool.not_false, Bool.and_self, ↓reduceIte]
    exact ⟨hpending, by simp, rfl, hawaited⟩
  · have hbeq : (scope == rootScope) = false := beq_false_of_ne hroot
    simp only [hbeq, Bool.false_and, Bool.false_eq_true, ↓reduceIte]
    refine ⟨hpending, ?_, h.rootCompleted_eq, hawaited⟩
    rw [Table.get?_erase, if_neg hroot]
    exact h.finished_iff

/-- Reports the completions of scopes in order. -/
def completeAll (t : Tracker) (closed : List Nat) : Tracker :=
  closed.foldl (fun t scope ↦ (t.complete scope).tracker) t

theorem waiters_complete (t : Tracker) (scope : Nat) :
    (t.complete scope).tracker.waiters ⊆ t.waiters := by
  unfold complete
  split
  · exact fun _ ↦ id
  · dsimp only
    split_ifs <;> exact List.filter_subset_self _
  · exact fun _ ↦ id

/-- Completions only let go of who waits. -/
theorem waiters_completeAll (t : Tracker) (closed : List Nat) :
    (t.completeAll closed).waiters ⊆ t.waiters := by
  induction closed generalizing t with
  | nil => exact fun _ ↦ id
  | cons first rest ih => exact List.Subset.trans (ih _) (t.waiters_complete first)

/-- Scopes that are open complete, each once. -/
theorem Agrees.completeAll (h : t.Agrees entries) {closed : List Nat} (honce : closed.Nodup)
    (hopen : ∀ scope ∈ closed, (entries.get? scope).isSome)
    (hleft : ∀ scope, (later.get? scope).isSome ↔ (entries.get? scope).isSome ∧ scope ∉ closed) :
    (t.completeAll closed).Agrees later := by
  induction closed generalizing t entries with
  | nil =>
    refine h.congr fun scope ↦ ?_
    rw [Bool.eq_iff_iff, hleft scope]
    simp
  | cons first rest ih =>
    obtain ⟨hfirst, hrest⟩ := List.nodup_cons.mp honce
    obtain ⟨opened, hopened⟩ := Option.isSome_iff_exists.mp (hopen first List.mem_cons_self)
    refine ih (h.complete hopened) hrest (fun scope hscope ↦ ?_) fun scope ↦ ?_
    · have hne : first ≠ scope := fun heq ↦ hfirst (heq ▸ hscope)
      rw [Table.get?_erase, if_neg hne]
      exact hopen scope (List.mem_cons_of_mem _ hscope)
    · rw [hleft scope, Table.get?_erase, List.mem_cons, not_or]
      by_cases hscope : first = scope
      · simp [hscope]
      · simp [hscope, Ne.symm hscope]

/-! ### What the interpreter reports -/

/-- A trigger of a pin that leads nowhere. -/
theorem Agrees.openUnwired {scopes : ScopeTable} (h : t.Agrees scopes.entries)
    (hnew : scopes.entries.get? scopes.next = none) (hroot : rootScope < scopes.next) :
    ((t.dispatch scopes.next).complete scopes.next).tracker.Agrees scopes.entries := by
  have hdispatch := h.dispatch hnew (Nat.ne_of_gt hroot) {}
  refine (hdispatch.complete (Table.get?_insert_self _ _ _)).congr fun scope ↦ ?_
  rw [Table.get?_erase, Table.get?_insert]
  split_ifs with hscope
  · rw [← hscope, hnew]
  · rfl

/-- A trigger of a wired pin. -/
theorem Agrees.openWired {scopes : ScopeTable} (h : t.Agrees scopes.entries)
    (hnew : scopes.entries.get? scopes.next = none) (hroot : rootScope < scopes.next)
    (parent : Nat) :
    (t.dispatch scopes.next).Agrees (scopes.openNext true parent).entries := by
  refine (h.dispatch hnew (Nat.ne_of_gt hroot) {}).congr fun scope ↦ ?_
  rw [Table.get?_insert]
  by_cases hscope : scopes.next = scope
  · rw [if_pos hscope, ← hscope, ScopeTable.get?_openNext_next]
    rfl
  · obtain ⟨change, hchange⟩ := ScopeTable.get?_openNext_of_ne hscope parent
    rw [if_neg hscope, hchange, Option.isSome_map]

/-- A node that has finished. -/
theorem Agrees.finish {scopes after : ScopeTable} (h : t.Agrees scopes.entries) {id : Nat}
    {closed : List Nat} (hfinishes : ScopeTable.Finishes scopes id closed after) :
    (t.completeAll closed).Agrees after.entries := by
  refine h.completeAll (hfinishes.pairwise_gt.imp Nat.ne_of_gt) (fun scope hscope ↦ ?_) fun scope ↦ ?_
  · obtain ⟨-, opened, hopened, -⟩ := hfinishes.gone scope hscope
    simp [hopened]
  · by_cases hscope : scope ∈ closed
    · simp [(hfinishes.gone scope hscope).1, hscope]
    · obtain ⟨change, hchange⟩ := hfinishes.rest scope hscope
      simp [hchange, hscope]

/-! ### Waiting -/

/-- One tracker is another one with more who wait, each for a scope that is pending. -/
structure Extends (t later : Tracker) : Prop where
  pending_eq : later.pending = t.pending
  rootCompleted_eq : later.rootCompleted = t.rootCompleted
  finished_eq : later.finished = t.finished
  awaited : ∀ waiter ∈ later.waiters, waiter ∈ t.waiters ∨ t.isPending waiter.1 = true

theorem Extends.refl (t : Tracker) : Extends t t := ⟨rfl, rfl, rfl, fun _ hwaiter ↦ Or.inl hwaiter⟩

/-- A handler is set, or runs. -/
theorem extends_onComplete (t : Tracker) (handler : CompletionHandler) :
    Extends t (t.onComplete handler).1 := by
  unfold onComplete
  split_ifs
  · exact .refl t
  · exact ⟨rfl, rfl, rfl, fun _ hwaiter ↦ Or.inl hwaiter⟩

theorem Unused.onComplete (h : t.Unused) (handler : CompletionHandler) :
    (t.onComplete handler).1.Unused := by
  simp only [Tracker.onComplete, h.rootCompleted, Bool.false_eq_true, ↓reduceIte]
  exact ⟨h.pending, h.waiters, rfl, h.finished⟩

theorem Agrees.extends {later : Tracker} (h : t.Agrees entries) (hextends : Extends t later) :
    later.Agrees entries := by
  refine ⟨hextends.pending_eq ▸ h.pending, hextends.finished_eq ▸ h.finished_iff, ?_, ?_⟩
  · rw [hextends.rootCompleted_eq, hextends.finished_eq, h.rootCompleted_eq]
  · intro waiter hwaiter
    rw [hextends.pending_eq]
    rcases hextends.awaited waiter hwaiter with hold | hpending
    · exact h.awaited waiter hold
    · exact Option.isSome_iff_ne_none.mp hpending

/-- A scope that is not open is not pending. -/
theorem Agrees.isWaiting_eq_false (h : t.Agrees entries) {ticket : Nat}
    (hclosed : ∀ scope, (scope, ticket) ∈ t.waiters → entries.get? scope = none) :
    t.isWaiting ticket = false := by
  rw [isWaiting, List.any_eq_false]
  rintro ⟨scope, other⟩ hwaiter hother
  obtain rfl : other = ticket := by simpa using hother
  have hpending := h.awaited _ hwaiter
  rw [h.pending, hclosed scope hwaiter] at hpending
  exact hpending rfl

/-- Assumes: no scope is pending. -/
theorem pendingScopes_eq_nil (h : ∀ scope, t.pending.get? scope = none) : t.pendingScopes = [] := by
  have hkeys : t.pending.keys = [] :=
    List.eq_nil_iff_forall_not_mem.mpr fun scope ↦ Table.get?_eq_none_iff.mp (h scope)
  rw [pendingScopes, hkeys, List.mergeSort_nil]

end Blueprint.Tracker

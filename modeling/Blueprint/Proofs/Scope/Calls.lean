import Blueprint.Proofs.Scope.Pending
import Mathlib.Data.List.Sort

/-!
The books of a tracker over any sequence of calls. `Tracker.history` keeps beside each call the
tracker it found, so that what a call should do can be said from the calls before it alone. What a
completion can do is said once (`Completes`). `Tracker.Books` holds of a new tracker and is kept by
every call (`Books.serve`); the main statement reads off it the counts, the one call that finishes
the run, and the handlers that run (`books_of_calls`).
-/

set_option autoImplicit false

namespace Blueprint.Tracker

/-- A call on a tracker. -/
inductive Call where
  | dispatch (scope : Nat)
  | complete (scope : Nat)
  | onComplete (handler : CompletionHandler)
deriving DecidableEq

/-- Makes a call; only a completion can finish the run. -/
def serve (t : Tracker) : Call → Completion
  | .dispatch scope => { tracker := t.dispatch scope }
  | .complete scope => t.complete scope
  | .onComplete handler =>
    { tracker := (t.onComplete handler).1, firing := (t.onComplete handler).2 }

/-- The tracker after some calls. -/
def run (t : Tracker) (calls : List Call) : Tracker :=
  calls.foldl (fun t call ↦ (t.serve call).tracker) t

/-- A call, with the tracker it was made on. -/
structure Entry where
  found : Tracker
  call : Call

namespace Entry

def reply (e : Entry) : Completion := e.found.serve e.call

def dispatches (scope : Nat) (e : Entry) : Bool := e.call == .dispatch scope

/-- A completion that finds the scope pending. -/
def meets (scope : Nat) (e : Entry) : Bool := e.call == .complete scope && e.found.isPending scope

/-- A completion that brings the root scope to zero. -/
def clears (e : Entry) : Bool :=
  e.call == .complete rootScope && 0 < e.found.count rootScope &&
    e.reply.tracker.count rootScope == 0

/-- The handler that is registered. -/
def registered? (e : Entry) : Option CompletionHandler :=
  match e.call with
  | .onComplete handler => some handler
  | _ => none

/-- The handler that runs. -/
def ran? (e : Entry) : Option CompletionHandler := e.reply.firing.map (·.handler)

end Entry

/-- The calls made on a tracker, each with the tracker it found. -/
def history (t : Tracker) : List Call → List Entry
  | [] => []
  | call :: rest => ⟨t, call⟩ :: history (t.serve call).tracker rest

/-- The calls before an entry of a history lead to the tracker that it found. -/
theorem history_split {t : Tracker} {calls : List Call} {before later : List Entry} {e : Entry}
    (h : t.history calls = before ++ e :: later) :
    ∃ earlier, t.history earlier = before ∧ t.run earlier = e.found := by
  induction calls generalizing t before with
  | nil => simp [history] at h
  | cons call rest ih =>
    cases before with
    | nil =>
      obtain ⟨rfl, -⟩ := List.cons.inj h
      exact ⟨[], rfl, rfl⟩
    | cons first before =>
      obtain ⟨rfl, hrest⟩ := List.cons.inj h
      obtain ⟨earlier, hearlier, hfound⟩ := ih hrest
      exact ⟨call :: earlier, congrArg (_ :: ·) hearlier, hfound⟩

/-! ### Completions -/

/-- A tracker without one of its scopes, and without those who waited for it. -/
def clear (t : Tracker) (scope : Nat) : Tracker :=
  { t with
    pending := t.pending.erase scope
    waiters := t.waiters.filter fun w ↦ w.1 != scope }

/-- The tickets of those who wait for a scope. -/
def ticketsOf (t : Tracker) (scope : Nat) : List Nat :=
  (t.waiters.filter fun w ↦ w.1 == scope).map (·.2)

/-- What a completion of a scope does. -/
inductive Completes (t : Tracker) (scope : Nat) : Completion → Prop
  /-- The scope is not pending. -/
  | stray (hcount : t.count scope = 0) : Completes t scope { tracker := t }
  | lowered (n : Nat) (hcount : t.count scope = n + 2) :
      Completes t scope { tracker := { t with pending := t.pending.insert scope (n + 1) } }
  | cleared (hcount : t.count scope = 1) (hother : scope = rootScope → t.rootCompleted = true) :
      Completes t scope { tracker := t.clear scope, released := t.ticketsOf scope }
  /-- The root scope is cleared for the first time. -/
  | finished (hcount : t.count scope = 1) (hroot : scope = rootScope)
      (hrunning : t.rootCompleted = false) :
      Completes t scope {
        tracker := { t.clear scope with rootCompleted := true, handler := none, finished := true }
        finishes := true
        released := t.ticketsOf scope
        firing := t.handler.map { t.clear scope with rootCompleted := true, handler := none }.fire }

theorem completes_complete (t : Tracker) (scope : Nat) : Completes t scope (t.complete scope) := by
  unfold complete
  split
  · rename_i hcount
    exact .stray hcount
  · rename_i hcount
    dsimp only
    split_ifs with hroot
    · obtain ⟨hroot, hrunning⟩ := Bool.and_eq_true_iff.mp hroot
      exact .finished hcount (beq_iff_eq.mp hroot) (by simpa using hrunning)
    · exact .cleared hcount fun hscope ↦ by simpa [hscope] using hroot
  · rename_i n hcount
    exact .lowered n hcount

/-! ### Counts -/

theorem count_dispatch (t : Tracker) (scope other : Nat) :
    (t.dispatch scope).count other = t.count other + if scope = other then 1 else 0 := by
  unfold dispatch count
  rw [Table.get?_insert]
  split_ifs with hscope
  · subst hscope
    rfl
  · rfl

theorem count_clear (t : Tracker) (scope other : Nat) :
    (t.clear scope).count other = if scope = other then 0 else t.count other := by
  unfold clear count
  rw [Table.get?_erase]
  split_ifs <;> rfl

theorem count_complete (t : Tracker) (scope other : Nat) :
    (t.complete scope).tracker.count other = t.count other - if scope = other then 1 else 0 := by
  have hcompletes := completes_complete t scope
  generalize t.complete scope = completion at hcompletes
  cases hcompletes with
  | stray hcount =>
    split_ifs with hscope
    · rw [← hscope, hcount]
    · rfl
  | lowered n hcount =>
    change ((t.pending.insert scope (n + 1)).get? other).getD 0 = _
    rw [Table.get?_insert]
    split_ifs with hscope
    · rw [← hscope, hcount]
      rfl
    · rfl
  | cleared hcount | finished hcount =>
    refine (count_clear t scope other).trans ?_
    split_ifs with hscope
    · rw [← hscope, hcount]
    · rfl

theorem count_onComplete (t : Tracker) (handler : CompletionHandler) (scope : Nat) :
    (t.onComplete handler).1.count scope = t.count scope := by
  unfold onComplete
  split_ifs <;> rfl

/-- Every scope is listed once, and with dispatches outstanding. -/
structure Tidy (t : Tracker) : Prop where
  distinct : t.pending.Distinct
  positive : ∀ scope, t.pending.get? scope ≠ some 0

theorem Tidy.insert {t : Tracker} (h : t.Tidy) (scope n : Nat) :
    Tidy { t with pending := t.pending.insert scope (n + 1) } := by
  refine ⟨h.distinct.insert _ _, fun other ↦ ?_⟩
  rw [Table.get?_insert]
  split_ifs
  · simp
  · exact h.positive other

theorem Tidy.clear {t : Tracker} (h : t.Tidy) (scope : Nat) : (t.clear scope).Tidy := by
  refine ⟨h.distinct.erase _, fun other ↦ ?_⟩
  rw [Tracker.clear, Table.get?_erase]
  split_ifs
  · simp
  · exact h.positive other

theorem Tidy.serve {t : Tracker} (h : t.Tidy) (call : Call) : (t.serve call).tracker.Tidy := by
  cases call with
  | dispatch scope => exact h.insert scope _
  | onComplete handler =>
    change (t.onComplete handler).1.Tidy
    unfold onComplete
    split_ifs
    · exact h
    · exact ⟨h.distinct, h.positive⟩
  | complete scope =>
    have hcompletes := completes_complete t scope
    change (t.complete scope).tracker.Tidy
    generalize t.complete scope = completion at hcompletes
    cases hcompletes with
    | stray => exact h
    | lowered n => exact h.insert scope n
    | cleared => exact h.clear scope
    | finished => exact ⟨(h.clear scope).distinct, (h.clear scope).positive⟩

theorem Tidy.isPending_iff {t : Tracker} (h : t.Tidy) (scope : Nat) :
    t.isPending scope = true ↔ 0 < t.count scope := by
  have hpositive := h.positive scope
  unfold isPending Table.contains count
  cases hget : t.pending.get? scope with
  | none => simp
  | some n =>
    rw [hget, Ne, Option.some.injEq] at hpositive
    simpa using Nat.pos_of_ne_zero hpositive

theorem mem_pendingScopes {t : Tracker} {scope : Nat} :
    scope ∈ t.pendingScopes ↔ t.isPending scope = true := by
  rw [pendingScopes, List.mem_mergeSort, isPending, Table.contains, Option.isSome_iff_ne_none, Ne,
    Table.get?_eq_none_iff, not_not]

theorem Tidy.pendingScopes_pairwise {t : Tracker} (h : t.Tidy) :
    t.pendingScopes.Pairwise (· < ·) := by
  have hsorted : t.pendingScopes.Pairwise fun a b ↦ decide (a ≤ b) = true :=
    List.pairwise_mergeSort (by simpa using fun _ _ _ ↦ Nat.le_trans)
      (by simpa using Nat.le_total) t.pending.keys
  have honce : t.pendingScopes.Nodup := (List.mergeSort_perm _ _).nodup_iff.mpr h.distinct
  refine (hsorted.and honce).imp fun ⟨hle, hne⟩ ↦ ?_
  exact Nat.lt_of_le_of_ne (of_decide_eq_true hle) hne

/-! ### The end of the run, and its handlers -/

theorem Entry.clears_iff {e : Entry} :
    e.clears = true ↔ e.call = .complete rootScope ∧ e.found.count rootScope = 1 := by
  obtain ⟨t, call⟩ := e
  constructor
  · intro h
    simp only [Entry.clears, Bool.and_eq_true, beq_iff_eq, decide_eq_true_eq] at h
    obtain ⟨⟨rfl, hpositive⟩, hzero⟩ := h
    change (t.complete rootScope).tracker.count rootScope = 0 at hzero
    rw [count_complete, if_pos rfl] at hzero
    refine ⟨rfl, ?_⟩
    change 0 < t.count rootScope at hpositive
    change t.count rootScope = 1
    omega
  · rintro ⟨rfl, hone⟩
    have hzero : (t.complete rootScope).tracker.count rootScope = 0 := by
      rw [count_complete, if_pos rfl, hone]
    simp [Entry.clears, Entry.reply, Tracker.serve, hone, hzero]

theorem Entry.clears_complete {t : Tracker} {scope : Nat} (hcount : t.count scope = 1) :
    (⟨t, .complete scope⟩ : Entry).clears = (scope == rootScope) := by
  rw [Bool.eq_iff_iff, Entry.clears_iff, Call.complete.injEq, beq_iff_eq]
  exact ⟨And.left, fun hroot ↦ ⟨hroot, hroot ▸ hcount⟩⟩

theorem Entry.clears_eq_false {t : Tracker} {scope : Nat} (hcount : t.count scope ≠ 1) :
    (⟨t, .complete scope⟩ : Entry).clears = false := by
  rw [Bool.eq_false_iff, Ne, Entry.clears_iff, Call.complete.injEq]
  rintro ⟨rfl, hone⟩
  exact hcount hone

/-- What is known of a tracker from the calls that were made on it. -/
structure Books (t : Tracker) (entries : List Entry) : Prop extends t.Tidy where
  count_add : ∀ scope,
    t.count scope + entries.countP (Entry.meets scope) = entries.countP (Entry.dispatches scope)
  rootCompleted_eq : t.rootCompleted = entries.any Entry.clears
  finished_eq : t.finished = t.rootCompleted
  handler_eq : t.handler =
    if t.rootCompleted then none else (entries.filterMap Entry.registered?).getLast?

theorem books_new : Books {} [] where
  distinct := Table.distinct_empty
  positive := fun _ ↦ nofun
  count_add := fun _ ↦ rfl
  rootCompleted_eq := rfl
  finished_eq := rfl
  handler_eq := rfl

variable {t : Tracker} {entries : List Entry}

theorem Books.count_serve (h : t.Books entries) (call : Call) (scope : Nat) :
    (t.serve call).tracker.count scope +
        (entries ++ [(⟨t, call⟩ : Entry)]).countP (Entry.meets scope) =
      (entries ++ [(⟨t, call⟩ : Entry)]).countP (Entry.dispatches scope) := by
  have hcount := h.count_add scope
  rw [List.countP_append, List.countP_append, List.countP_singleton, List.countP_singleton]
  cases call with
  | dispatch other =>
    change (t.dispatch other).count scope + _ = _
    rw [count_dispatch]
    by_cases hother : other = scope
    · simp [Entry.meets, Entry.dispatches, hother]
      omega
    · simp [Entry.meets, Entry.dispatches, hother]
      omega
  | onComplete handler =>
    change (t.onComplete handler).1.count scope + _ = _
    rw [count_onComplete]
    simpa [Entry.meets, Entry.dispatches] using hcount
  | complete other =>
    change (t.complete other).tracker.count scope + _ = _
    rw [count_complete]
    by_cases hother : other = scope
    · have hpending := h.isPending_iff scope
      cases hmet : t.isPending scope with
      | true =>
        have hpositive := hpending.mp hmet
        simp [Entry.meets, Entry.dispatches, hother, hmet]
        omega
      | false =>
        have hzero : t.count scope = 0 := by
          rw [hmet] at hpending
          simpa using hpending
        simp [Entry.meets, Entry.dispatches, hother, hmet]
        omega
    · simp [Entry.meets, Entry.dispatches, hother]
      omega

/-- What a call does beyond the counts, said from the calls before it. -/
theorem Books.reply (h : t.Books entries) (call : Call) :
    (t.serve call).finishes = ((⟨t, call⟩ : Entry).clears && !entries.any Entry.clears) ∧
      (t.serve call).firing.map (·.handler) =
        if (t.serve call).finishes then (entries.filterMap Entry.registered?).getLast?
        else if entries.any Entry.clears then (⟨t, call⟩ : Entry).registered? else none := by
  rw [← h.rootCompleted_eq]
  have hhandler := h.handler_eq
  cases call with
  | dispatch scope => cases t.rootCompleted <;> exact ⟨rfl, rfl⟩
  | onComplete handler =>
    cases hcompleted : t.rootCompleted with
    | true => simp [serve, Entry.registered?, onComplete, hcompleted, fire, Entry.clears]
    | false => simp [serve, onComplete, hcompleted, Entry.clears]
  | complete scope =>
    have hregistered : (⟨t, .complete scope⟩ : Entry).registered? = none := rfl
    have hserve : t.serve (.complete scope) = t.complete scope := rfl
    have hcompletes := completes_complete t scope
    rw [hregistered, hserve]
    generalize t.complete scope = completion at hcompletes
    cases hcompletes with
    | stray hcount | lowered n hcount =>
      rw [Entry.clears_eq_false (by omega)]
      simp
    | cleared hcount hother =>
      rw [Entry.clears_complete hcount]
      by_cases hroot : scope = rootScope
      · simp [hother hroot]
      · simp [hroot]
    | finished hcount hroot hrunning =>
      rw [hrunning, if_neg Bool.false_ne_true] at hhandler
      rw [Entry.clears_complete hcount, hroot, hrunning, hhandler]
      simp [Option.map_map, Function.comp_def, fire]

theorem Books.rootCompleted_serve (h : t.Books entries) (call : Call) :
    (t.serve call).tracker.rootCompleted = (t.rootCompleted || (⟨t, call⟩ : Entry).clears) ∧
      (t.serve call).tracker.finished = (t.serve call).tracker.rootCompleted := by
  have hfinished := h.finished_eq
  cases call with
  | dispatch scope =>
    exact ⟨(Bool.or_false _).symm, hfinished⟩
  | onComplete handler =>
    have hclears : (⟨t, .onComplete handler⟩ : Entry).clears = false := rfl
    have hserve : (t.serve (.onComplete handler)).tracker = (t.onComplete handler).1 := rfl
    rw [hclears, Bool.or_false, hserve, onComplete]
    split_ifs <;> exact ⟨rfl, hfinished⟩
  | complete scope =>
    have hserve : t.serve (.complete scope) = t.complete scope := rfl
    have hcompletes := completes_complete t scope
    rw [hserve]
    generalize t.complete scope = completion at hcompletes
    cases hcompletes with
    | stray hcount | lowered n hcount =>
      rw [Entry.clears_eq_false (by omega), Bool.or_false]
      exact ⟨rfl, hfinished⟩
    | cleared hcount hother =>
      rw [Entry.clears_complete hcount]
      refine ⟨?_, hfinished⟩
      by_cases hroot : scope = rootScope
      · simp [clear, hother hroot]
      · simp [clear, hroot]
    | finished hcount hroot hrunning =>
      rw [Entry.clears_complete hcount, hroot, beq_self_eq_true, Bool.or_true]
      exact ⟨rfl, rfl⟩

/-- The handler that is kept is the last one registered, until the run ends. -/
theorem Books.handler_serve (h : t.Books entries) (call : Call) :
    (t.serve call).tracker.handler =
      if (t.serve call).tracker.rootCompleted then none
      else (⟨t, call⟩ : Entry).registered?.or (entries.filterMap Entry.registered?).getLast? := by
  have hhandler := h.handler_eq
  cases call with
  | dispatch scope => exact hhandler
  | onComplete handler =>
    change (t.onComplete handler).1.handler =
      if (t.onComplete handler).1.rootCompleted then none else (some handler).or _
    cases hcompleted : t.rootCompleted with
    | true => simpa [onComplete, hcompleted] using hhandler
    | false => simp [onComplete, hcompleted]
  | complete scope =>
    have hregistered : (⟨t, .complete scope⟩ : Entry).registered? = none := rfl
    have hserve : t.serve (.complete scope) = t.complete scope := rfl
    have hcompletes := completes_complete t scope
    rw [hregistered, hserve, Option.none_or]
    generalize t.complete scope = completion at hcompletes
    cases hcompletes with
    | stray | lowered | cleared => exact hhandler
    | finished => rfl

/-- A call keeps the books. -/
theorem Books.serve (h : t.Books entries) (call : Call) :
    (t.serve call).tracker.Books (entries ++ [⟨t, call⟩]) := by
  obtain ⟨hcompleted, hfinished⟩ := h.rootCompleted_serve call
  have hhandler := h.handler_serve call
  refine { h.toTidy.serve call with
    count_add := h.count_serve call
    rootCompleted_eq := ?_
    finished_eq := hfinished
    handler_eq := ?_ }
  · rw [hcompleted, h.rootCompleted_eq, List.any_append, List.any_cons, List.any_nil, Bool.or_false]
  · rw [hhandler, List.filterMap_append, List.getLast?_append, List.filterMap_cons,
      List.filterMap_nil]
    cases (⟨t, call⟩ : Entry).registered? <;> rfl

theorem Books.run (h : t.Books entries) (calls : List Call) :
    (t.run calls).Books (entries ++ t.history calls) := by
  induction calls generalizing t entries with
  | nil => rwa [history, List.append_nil]
  | cons call rest ih =>
    have hrest := ih (h.serve call)
    rwa [List.append_assoc] at hrest

/-- What was called on a new tracker is its books. -/
theorem books_run (calls : List Call) : (run {} calls).Books (history {} calls) :=
  books_new.run calls

/-- What each call of a history does, said from the calls before it. -/
theorem reply_of_split {calls : List Call} {before later : List Entry} {e : Entry}
    (h : history {} calls = before ++ e :: later) :
    e.reply.finishes = (e.clears && !before.any Entry.clears) ∧
      e.ran? = if e.reply.finishes then (before.filterMap Entry.registered?).getLast?
        else if before.any Entry.clears then e.registered? else none := by
  obtain ⟨earlier, rfl, hfound⟩ := history_split h
  have hbooks := books_run earlier
  rw [hfound] at hbooks
  exact hbooks.reply e.call

/-- Before the root scope is cleared no handler runs. -/
theorem ran_of_running {calls : List Call} {before later : List Entry}
    (h : history {} calls = before ++ later) (hrunning : before.any Entry.clears = false)
    {e : Entry} (hmem : e ∈ before) : e.reply.finishes = false ∧ e.ran? = none := by
  obtain ⟨first, rest, rfl⟩ := List.append_of_mem hmem
  rw [List.append_assoc] at h
  obtain ⟨hfinishes, hran⟩ := reply_of_split h
  rw [List.any_append, List.any_cons, Bool.or_eq_false_iff, Bool.or_eq_false_iff] at hrunning
  obtain ⟨hfirst, hclears, -⟩ := hrunning
  rw [hclears, Bool.false_and] at hfinishes
  rw [hfinishes, hfirst] at hran
  exact ⟨hfinishes, hran⟩

/-- Once the root scope has been cleared, a handler runs when it is registered. -/
theorem ran_of_cleared {calls : List Call} {before later : List Entry}
    (h : history {} calls = before ++ later) (hcleared : before.any Entry.clears = true)
    {e : Entry} (hmem : e ∈ later) : e.reply.finishes = false ∧ e.ran? = e.registered? := by
  obtain ⟨first, rest, rfl⟩ := List.append_of_mem hmem
  rw [← List.append_assoc] at h
  obtain ⟨hfinishes, hran⟩ := reply_of_split h
  have hany : (before ++ first).any Entry.clears = true := by
    rw [List.any_append, hcleared, Bool.true_or]
  rw [hany, Bool.not_true, Bool.and_false] at hfinishes
  rw [hfinishes, hany] at hran
  exact ⟨hfinishes, hran⟩

/-- One call finishes the run, if any. -/
theorem countP_finishes (calls : List Call) :
    (history {} calls).countP (·.reply.finishes) =
      if (history {} calls).any Entry.clears then 1 else 0 := by
  split_ifs with hcleared
  · obtain ⟨e, hfirst⟩ :=
      Option.isSome_iff_exists.mp (List.find?_isSome.mpr (List.any_eq_true.mp hcleared))
    obtain ⟨hclears, before, later, hsplit, hbefore⟩ := List.find?_eq_some_iff_append.mp hfirst
    have hrunning : before.any Entry.clears = false := by simpa using hbefore
    have hnone : before.countP (·.reply.finishes) = 0 :=
      List.countP_eq_zero.mpr fun e hmem ↦
        Bool.not_eq_true _ ▸ (ran_of_running hsplit hrunning hmem).1
    have hlater : later.countP (·.reply.finishes) = 0 := by
      refine List.countP_eq_zero.mpr fun e hmem ↦ Bool.not_eq_true _ ▸ ?_
      rw [← List.singleton_append, ← List.append_assoc] at hsplit
      exact (ran_of_cleared hsplit (by simp [hclears]) hmem).1
    have hfinishes := (reply_of_split hsplit).1
    rw [hclears, hrunning] at hfinishes
    rw [hsplit, List.countP_append, List.countP_cons, hnone, hlater, hfinishes]
    rfl
  · refine List.countP_eq_zero.mpr fun e hmem ↦ Bool.not_eq_true _ ▸ ?_
    exact (ran_of_running (List.append_nil _).symm (Bool.eq_false_iff.mpr hcleared) hmem).1

/-! ### Handlers -/

/-- Another handler in place of each. -/
def mapHandlers (change : CompletionHandler → CompletionHandler) (t : Tracker) : Tracker :=
  { t with handler := t.handler.map change }

def Call.mapHandlers (change : CompletionHandler → CompletionHandler) : Call → Call
  | .onComplete handler => .onComplete (change handler)
  | call => call

def Completion.mapHandlers (change : CompletionHandler → CompletionHandler) (c : Completion) :
    Completion :=
  { c with
    tracker := c.tracker.mapHandlers change
    firing := c.firing.map fun firing ↦ { firing with handler := change firing.handler } }

variable (change : CompletionHandler → CompletionHandler)

theorem complete_mapHandlers (t : Tracker) (scope : Nat) :
    (t.mapHandlers change).complete scope = (t.complete scope).mapHandlers change := by
  have hcount : (t.mapHandlers change).count scope = t.count scope := rfl
  have hcompleted : (t.mapHandlers change).rootCompleted = t.rootCompleted := rfl
  unfold complete
  rw [hcount, hcompleted]
  split
  · rfl
  · dsimp only
    split_ifs
    · simp only [Completion.mapHandlers, mapHandlers, Option.map_map, Option.map_none]
      rfl
    · rfl
  · rfl

theorem serve_mapHandlers (t : Tracker) (call : Call) :
    (t.mapHandlers change).serve (call.mapHandlers change) =
      (t.serve call).mapHandlers change := by
  cases call with
  | dispatch scope => rfl
  | onComplete handler =>
    have hcompleted : (t.mapHandlers change).rootCompleted = t.rootCompleted := rfl
    simp only [Call.mapHandlers, serve, onComplete, hcompleted]
    split_ifs <;> rfl
  | complete scope => exact complete_mapHandlers change t scope

/-- Handlers are not looked at. -/
theorem reply_mapHandlers (t : Tracker) (calls : List Call) :
    ((t.mapHandlers change).history (calls.map (·.mapHandlers change))).map Entry.reply =
      (t.history calls).map fun e ↦ e.reply.mapHandlers change := by
  induction calls generalizing t with
  | nil => rfl
  | cons call rest ih =>
    refine congrArg₂ List.cons (serve_mapHandlers change t call) ?_
    rw [serve_mapHandlers]
    exact ih _

/-! ### The whole account -/

/-- What is true of a new tracker after some calls, from those calls alone. -/
structure Accounted (calls : List Call) : Prop where
  /-- Of every scope there are as many dispatches outstanding as were made, less the completions
  that found the scope pending. -/
  count_add : ∀ scope,
    (run {} calls).count scope + (history {} calls).countP (Entry.meets scope) =
      (history {} calls).countP (Entry.dispatches scope)
  /-- A completion that finds nothing pending changes nothing. -/
  stray : ∀ scope, (run {} calls).count scope = 0 →
    (run {} calls).serve (.complete scope) = { tracker := run {} calls }
  /-- The pending scopes are those with dispatches outstanding, in ascending order. -/
  ascending : (run {} calls).pendingScopes.Pairwise (· < ·)
  mem_pending : ∀ scope, scope ∈ (run {} calls).pendingScopes ↔ 0 < (run {} calls).count scope
  /-- The run counts as finished from the completion on that first cleared the root scope. -/
  finished_eq : (run {} calls).finished = (history {} calls).any Entry.clears
  /-- No call but that one says that it finished the run. -/
  finishes_eq : ∀ before e later, history {} calls = before ++ e :: later →
    e.reply.finishes = (e.clears && !before.any Entry.clears)
  finishes_once :
    (history {} calls).countP (·.reply.finishes) = if (run {} calls).finished then 1 else 0
  /-- As long as the run goes on no handler runs. -/
  quiet : (run {} calls).finished = false → ∀ e ∈ history {} calls, e.ran? = none
  /-- The call that finishes the run runs the handler registered last, of those before it; each one
  registered later runs when it is registered. -/
  ran_eq : ∀ before e later, history {} calls = before ++ e :: later → e.reply.finishes = true →
    (∀ earlier ∈ before, earlier.ran? = none) ∧
      e.ran? = (before.filterMap Entry.registered?).getLast? ∧
      ∀ other ∈ later, other.ran? = other.registered?
  /-- Other handlers in the place of these, such as ones that do not panic, change no answer but for
  the name of the handler that runs. -/
  handlers : ∀ change : CompletionHandler → CompletionHandler,
    (history {} (calls.map (·.mapHandlers change))).map Entry.reply =
      (history {} calls).map fun e ↦ e.reply.mapHandlers change

theorem accounted_of_calls (calls : List Call) : Accounted calls := by
  have hbooks := books_run calls
  have hfinished : (run {} calls).finished = (history {} calls).any Entry.clears :=
    hbooks.finished_eq.trans hbooks.rootCompleted_eq
  refine {
    count_add := hbooks.count_add
    stray := fun scope hcount ↦ ?_
    ascending := hbooks.pendingScopes_pairwise
    mem_pending := fun scope ↦ mem_pendingScopes.trans (hbooks.isPending_iff scope)
    finished_eq := hfinished
    finishes_eq := fun _ _ _ hsplit ↦ (reply_of_split hsplit).1
    finishes_once := hfinished ▸ countP_finishes calls
    quiet := fun hrunning e hmem ↦ ?_
    ran_eq := fun before e later hsplit hfinishes ↦ ?_
    handlers := fun change ↦ reply_mapHandlers change {} calls }
  · simp only [serve, complete, hcount]
  · exact (ran_of_running (List.append_nil _).symm (hfinished ▸ hrunning) hmem).2
  · obtain ⟨hclears, hran⟩ := reply_of_split hsplit
    rw [hfinishes, eq_comm, Bool.and_eq_true, Bool.not_eq_true'] at hclears
    rw [hfinishes, if_pos rfl] at hran
    refine ⟨fun _ hmem ↦ (ran_of_running hsplit hclears.2 hmem).2, hran, fun _ hmem ↦ ?_⟩
    rw [← List.singleton_append, ← List.append_assoc] at hsplit
    exact (ran_of_cleared hsplit (by simp [hclears.1]) hmem).2

end Blueprint.Tracker

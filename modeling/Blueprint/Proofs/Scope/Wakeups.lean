import Blueprint.Proofs.Scope.Calls
import Blueprint.Scope.Future

/-!
No wake-up is lost. A `Move` is a call on the tracker, the first or a later poll of a future, or the
drop of one; moves come in any order. A future is followed from its first poll on, through moves
that do not replace it: whether its ticket is held is a matter of the counts since then alone
(`Held.isWaiting_after`), and what a poll answers follows from that and from the polls before it
(`poll_of_kept`). What a dropped future leaves behind concerns nobody else (`Besides`).
-/

set_option autoImplicit false

namespace Blueprint

namespace Tracker

/-- Whoever waits does so for a scope that is pending. -/
def Awaited (t : Tracker) : Prop := ∀ waiter ∈ t.waiters, 0 < t.count waiter.1

variable {t : Tracker}

theorem waiters_serve (t : Tracker) (call : Call) :
    (t.serve call).tracker.waiters ⊆ t.waiters := by
  cases call with
  | dispatch scope => exact fun _ ↦ id
  | complete scope => exact t.waiters_complete scope
  | onComplete handler =>
    change (t.onComplete handler).1.waiters ⊆ _
    unfold onComplete
    split_ifs <;> exact fun _ ↦ id

/-- Who waits is let go by the clearing of the scope, and by nothing else. -/
theorem mem_waiters_serve (call : Call) {waiter : Nat × Nat} (hwaiter : waiter ∈ t.waiters)
    (hcount : 0 < (t.serve call).tracker.count waiter.1) :
    waiter ∈ (t.serve call).tracker.waiters := by
  cases call with
  | dispatch scope => exact hwaiter
  | onComplete handler =>
    change waiter ∈ (t.onComplete handler).1.waiters
    unfold onComplete
    split_ifs <;> exact hwaiter
  | complete scope =>
    have hcompletes := completes_complete t scope
    change 0 < (t.complete scope).tracker.count waiter.1 at hcount
    change waiter ∈ (t.complete scope).tracker.waiters
    generalize t.complete scope = completion at hcompletes hcount
    cases hcompletes with
    | stray | lowered => exact hwaiter
    | cleared | finished =>
      change 0 < (t.clear scope).count waiter.1 at hcount
      rw [count_clear] at hcount
      refine List.mem_filter.mpr ⟨hwaiter, ?_⟩
      by_cases hscope : scope = waiter.1
      · simp [hscope] at hcount
      · simpa using Ne.symm hscope

theorem Awaited.serve (h : t.Awaited) (call : Call) : (t.serve call).tracker.Awaited := by
  intro waiter hwaiter
  have hcount := h waiter (t.waiters_serve call hwaiter)
  cases call with
  | dispatch scope =>
    change 0 < (t.dispatch scope).count waiter.1
    rw [count_dispatch]
    exact Nat.add_pos_left hcount _
  | onComplete handler =>
    change 0 < (t.onComplete handler).1.count waiter.1
    rwa [count_onComplete]
  | complete scope =>
    change 0 < (t.complete scope).tracker.count waiter.1
    change waiter ∈ (t.complete scope).tracker.waiters at hwaiter
    have hcompletes := completes_complete t scope
    rw [count_complete]
    by_cases hscope : scope = waiter.1
    · rw [if_pos hscope]
      generalize t.complete scope = completion at hcompletes hwaiter
      cases hcompletes with
      | stray hzero => exact absurd (hscope ▸ hzero) hcount.ne'
      | lowered n hlowered =>
        rw [← hscope, hlowered]
        exact Nat.succ_pos n
      | cleared | finished =>
        obtain ⟨-, hne⟩ := List.mem_filter.mp hwaiter
        exact absurd hscope.symm (by simpa using hne)
    · rwa [if_neg hscope]

theorem finished_serve (h : t.finished = true) (call : Call) :
    (t.serve call).tracker.finished = true := by
  cases call with
  | dispatch scope => exact h
  | onComplete handler =>
    change (t.onComplete handler).1.finished = true
    unfold onComplete
    split_ifs <;> exact h
  | complete scope =>
    have hcompletes := completes_complete t scope
    change (t.complete scope).tracker.finished = true
    generalize t.complete scope = completion at hcompletes
    cases hcompletes with
    | stray | lowered | cleared => exact h
    | finished => rfl

end Tracker

namespace Waiting

/-- A move on a tracker and the futures that wait on it. -/
inductive Move where
  | call (call : Tracker.Call)
  /-- The first poll of a future for a scope. -/
  | waitScope (name : String) (scope : Nat)
  /-- The first poll of a future for the root. -/
  | waitRoot (name : String)
  /-- A later poll. -/
  | poll (name : String)
  | drop (name : String)
deriving DecidableEq

/-- Makes a move, and answers what a poll answers. -/
def step (w : Waiting) : Move → Option Polled × Waiting
  | .call call => (none, { w with tracker := (w.tracker.serve call).tracker })
  | .waitScope name scope => ((w.waitScope name scope).1, (w.waitScope name scope).2)
  | .waitRoot name => ((w.waitRoot name).1, (w.waitRoot name).2)
  | .poll name => ((w.poll name).1, (w.poll name).2)
  | .drop name => (none, w.drop name)

/-- The state after some moves. -/
def after (w : Waiting) (moves : List Move) : Waiting :=
  moves.foldl (fun w move ↦ (w.step move).2) w

/-- The moves, each with its answer. -/
def log (w : Waiting) : List Move → List (Move × Option Polled)
  | [] => []
  | move :: rest => (move, (w.step move).1) :: log (w.step move).2 rest

/-- One of the polls of a future among some moves found it ready. -/
def Answered (w : Waiting) (name : String) (moves : List Move) : Prop :=
  (Move.poll name, some Polled.ready) ∈ w.log moves

/-- A move that puts another future in the place of one, or drops it. -/
def Move.replaces (name : String) : Move → Bool
  | .waitScope other _ | .waitRoot other | .drop other => other == name
  | .call _ | .poll _ => false

/-- Moves that leave a future in its place, but for what polls of it do. -/
def Keeps (name : String) (moves : List Move) : Prop := ∀ move ∈ moves, move.replaces name = false

variable {w : Waiting} {name : String} {since : List Move}

theorem after_append (w : Waiting) (first second : List Move) :
    w.after (first ++ second) = (w.after first).after second :=
  List.foldl_append

theorem mem_log {move : Move} {answer : Option Polled} (h : (move, answer) ∈ w.log since) :
    ∃ soon later, since = soon ++ move :: later ∧ answer = ((w.after soon).step move).1 := by
  induction since generalizing w with
  | nil => exact absurd h List.not_mem_nil
  | cons first rest ih =>
    rcases List.mem_cons.mp h with heq | hrest
    · cases heq
      exact ⟨[], rest, rfl, rfl⟩
    · obtain ⟨soon, later, rfl, hanswer⟩ := ih hrest
      exact ⟨first :: soon, later, rfl, hanswer⟩

/-! ### Polls -/

theorem poll_of_none (h : w.futures.get? name = none) : w.poll name = (.gone, w) := by
  rw [poll, h]

theorem poll_of_ready {f : Future} (h : w.futures.get? name = some f)
    (hready : w.isReady f = true) :
    w.poll name = (.ready, { w with futures := w.futures.erase name }) := by
  rw [poll, h]
  exact if_pos hready

theorem poll_of_pending {f : Future} (h : w.futures.get? name = some f)
    (hready : w.isReady f = false) : w.poll name = (.pending, w) := by
  rw [poll, h]
  exact if_neg (Bool.eq_false_iff.mp hready)

theorem poll_tracker (w : Waiting) (name : String) : (w.poll name).2.tracker = w.tracker := by
  unfold poll
  split
  · rfl
  · split_ifs <;> rfl

theorem poll_nextTicket (w : Waiting) (name : String) :
    (w.poll name).2.nextTicket = w.nextTicket := by
  unfold poll
  split
  · rfl
  · split_ifs <;> rfl

theorem get?_poll (w : Waiting) (name other : String) :
    (w.poll name).2.futures.get? other =
      if name = other ∧ (w.poll name).1 = .ready then none else w.futures.get? other := by
  unfold poll
  split
  · simp
  · split_ifs <;> simp_all

/-- Only a poll that is answered takes a future away. -/
theorem get?_step {move : Move} (h : move.replaces name = false) :
    (w.step move).2.futures.get? name =
      if (move, (w.step move).1) = (.poll name, some .ready) then none
      else w.futures.get? name := by
  cases move with
  | call call => rfl
  | poll other =>
    refine (get?_poll w other name).trans ?_
    simp only [step, Prod.mk.injEq, Move.poll.injEq, Option.some.injEq]
  | drop other =>
    have hother : other ≠ name := by simpa [Move.replaces] using h
    simp [step, drop, hother]
  | waitScope other scope =>
    have hother : other ≠ name := by simpa [Move.replaces] using h
    simp [step, waitScope, get?_poll, hother]
  | waitRoot other =>
    have hother : other ≠ name := by simpa [Move.replaces] using h
    simp [step, waitRoot, get?_poll, hother]

theorem get?_after_of_none (hnone : w.futures.get? name = none) (h : Keeps name since) :
    (w.after since).futures.get? name = none := by
  induction since generalizing w with
  | nil => exact hnone
  | cons first rest ih =>
    refine ih ?_ fun move hmem ↦ h move (List.mem_cons_of_mem _ hmem)
    rw [get?_step (h first List.mem_cons_self), hnone, ite_self]

theorem get?_after_of_answered (h : Keeps name since) (hanswered : w.Answered name since) :
    (w.after since).futures.get? name = none := by
  obtain ⟨soon, later, rfl, hanswer⟩ := mem_log hanswered
  have hgone : ((w.after soon).step (.poll name)).2.futures.get? name = none := by
    rw [get?_step rfl, ← hanswer, if_pos rfl]
  have hlater : Keeps name later := fun move hmem ↦
    h move (List.mem_append_right _ (List.mem_cons_of_mem _ hmem))
  rw [after_append]
  exact get?_after_of_none (w := ((w.after soon).step (.poll name)).2) hgone hlater

theorem get?_after_of_not_answered (h : Keeps name since) (hanswered : ¬ w.Answered name since) :
    (w.after since).futures.get? name = w.futures.get? name := by
  induction since generalizing w with
  | nil => rfl
  | cons first rest ih =>
    obtain ⟨hfirst, hrest⟩ := List.ne_and_not_mem_of_not_mem_cons hanswered
    refine (ih (fun move hmem ↦ h move (List.mem_cons_of_mem _ hmem)) hrest).trans ?_
    rw [get?_step (h first List.mem_cons_self), if_neg hfirst.symm]

/-- What a later poll of a future answers: nothing once a poll has been answered, else whether it is
ready. -/
theorem poll_of_kept {f : Future} (hfuture : w.futures.get? name = some f)
    (hkeeps : Keeps name since) :
    (((w.after since).poll name).1 = .gone ↔ w.Answered name since) ∧
      (((w.after since).poll name).1 = .ready ↔
        ¬ w.Answered name since ∧ (w.after since).isReady f = true) := by
  by_cases hanswered : w.Answered name since
  · simp [poll_of_none (get?_after_of_answered hkeeps hanswered), hanswered]
  · have hnow := (get?_after_of_not_answered hkeeps hanswered).trans hfuture
    cases hready : (w.after since).isReady f with
    | true => simp [poll_of_ready hnow hready, hanswered]
    | false => simp [poll_of_pending hnow hready, hanswered]

/-! ### Tickets -/

/-- The tickets that are held were issued, and are held for scopes that are pending. -/
structure Orderly (w : Waiting) : Prop where
  tidy : w.tracker.Tidy
  awaited : w.tracker.Awaited
  issued : ∀ waiter ∈ w.tracker.waiters, waiter.2 < w.nextTicket

/-- A ticket was issued, for one scope. -/
structure Issued (w : Waiting) (scope ticket : Nat) : Prop where
  lt_next : ticket < w.nextTicket
  scope_eq : ∀ waiter ∈ w.tracker.waiters, waiter.2 = ticket → waiter.1 = scope


theorem waitScope_of_idle {scope : Nat} (hscope : w.tracker.isPending scope = false) :
    w.waitScope name scope =
      (.ready, { w with
        futures := (w.futures.insert name .ready).erase name
        nextTicket := w.nextTicket + 1 }) := by
  simp only [waitScope, Tracker.wait, hscope, Bool.false_eq_true, ↓reduceIte]
  exact poll_of_ready (Table.get?_insert_self _ _ _) rfl

theorem waitScope_of_pending {scope : Nat} (hscope : w.tracker.isPending scope = true) :
    w.waitScope name scope =
      (.pending, {
        tracker := { w.tracker with waiters := w.tracker.waiters ++ [(scope, w.nextTicket)] }
        futures := w.futures.insert name (.ticket w.nextTicket)
        nextTicket := w.nextTicket + 1 }) := by
  simp only [waitScope, Tracker.wait, hscope, ↓reduceIte]
  refine poll_of_pending (Table.get?_insert_self _ _ _) ?_
  simp [isReady, Tracker.isWaiting]

theorem waitRoot_of_finished (h : w.tracker.finished = true) :
    w.waitRoot name = (.ready, { w with futures := (w.futures.insert name .root).erase name }) :=
  poll_of_ready (Table.get?_insert_self _ _ _) h

theorem waitRoot_of_running (h : w.tracker.finished = false) :
    w.waitRoot name = (.pending, { w with futures := w.futures.insert name .root }) :=
  poll_of_pending (Table.get?_insert_self _ _ _) h

/-- What a move does to the tracker and to the tickets. -/
inductive Shifts (w : Waiting) : Move → Waiting → Prop
  | call (call : Tracker.Call) (later : Waiting)
      (htracker : later.tracker = (w.tracker.serve call).tracker)
      (hticket : later.nextTicket = w.nextTicket) : Shifts w (.call call) later
  /-- There is nothing to wait for. -/
  | idle (move : Move) (later : Waiting) (htracker : later.tracker = w.tracker)
      (hticket : w.nextTicket ≤ later.nextTicket) : Shifts w move later
  | held (name : String) (scope : Nat) (later : Waiting) (hscope : w.tracker.isPending scope = true)
      (htracker : later.tracker =
        { w.tracker with waiters := w.tracker.waiters ++ [(scope, w.nextTicket)] })
      (hticket : later.nextTicket = w.nextTicket + 1) : Shifts w (.waitScope name scope) later

theorem shifts_step (w : Waiting) (move : Move) : Shifts w move (w.step move).2 := by
  cases move with
  | call call => exact .call call _ rfl rfl
  | waitScope name scope =>
    change Shifts w _ (w.waitScope name scope).2
    cases hscope : w.tracker.isPending scope with
    | false =>
      rw [waitScope_of_idle hscope]
      exact .idle _ _ rfl (Nat.le_succ _)
    | true =>
      rw [waitScope_of_pending hscope]
      exact .held name scope _ hscope rfl rfl
  | waitRoot name =>
    have hticket : (w.waitRoot name).2.nextTicket = w.nextTicket := poll_nextTicket _ name
    exact .idle _ _ (poll_tracker _ _) hticket.ge
  | poll name => exact .idle _ _ (poll_tracker _ _) (poll_nextTicket w name).ge
  | drop name => exact .idle _ _ rfl le_rfl

theorem orderly_new : Orderly {} where
  tidy := Tracker.books_new.toTidy
  awaited := nofun
  issued := nofun

theorem Orderly.step (h : w.Orderly) (move : Move) : (w.step move).2.Orderly := by
  have hshifts := shifts_step w move
  generalize (w.step move).2 = later at hshifts
  cases hshifts with
  | call call _ htracker hticket =>
    refine ⟨htracker ▸ h.tidy.serve call, htracker ▸ h.awaited.serve call, fun waiter hwaiter ↦ ?_⟩
    rw [htracker] at hwaiter
    exact hticket ▸ h.issued waiter (w.tracker.waiters_serve call hwaiter)
  | idle _ _ htracker hticket =>
    refine ⟨htracker ▸ h.tidy, htracker ▸ h.awaited, fun waiter hwaiter ↦ ?_⟩
    exact Nat.lt_of_lt_of_le (h.issued waiter (htracker ▸ hwaiter)) hticket
  | held name scope _ hscope htracker hticket =>
    have hmem {waiter : Nat × Nat} (hwaiter : waiter ∈ later.tracker.waiters) :
        waiter ∈ w.tracker.waiters ∨ waiter = (scope, w.nextTicket) := by
      rw [htracker] at hwaiter
      simpa using hwaiter
    refine ⟨htracker ▸ ⟨h.tidy.distinct, h.tidy.positive⟩, fun waiter hwaiter ↦ ?_,
      fun waiter hwaiter ↦ ?_⟩
    · rw [htracker]
      rcases hmem hwaiter with hold | rfl
      · exact h.awaited waiter hold
      · exact (h.tidy.isPending_iff scope).mp hscope
    · rw [hticket]
      rcases hmem hwaiter with hold | rfl
      · exact Nat.lt_succ_of_lt (h.issued waiter hold)
      · exact Nat.lt_succ_self _

theorem Orderly.after (h : w.Orderly) (moves : List Move) : (w.after moves).Orderly := by
  induction moves generalizing w with
  | nil => exact h
  | cons first rest ih => exact ih (h.step first)

variable {scope ticket : Nat}

theorem Issued.step (h : w.Issued scope ticket) (move : Move) :
    (w.step move).2.Issued scope ticket := by
  have hshifts := shifts_step w move
  generalize (w.step move).2 = later at hshifts
  cases hshifts with
  | call call _ htracker hticket =>
    refine ⟨hticket ▸ h.lt_next, fun waiter hwaiter ↦ ?_⟩
    rw [htracker] at hwaiter
    exact h.scope_eq waiter (w.tracker.waiters_serve call hwaiter)
  | idle _ _ htracker hticket =>
    exact ⟨Nat.lt_of_lt_of_le h.lt_next hticket, htracker ▸ h.scope_eq⟩
  | held name other _ hscope htracker hticket =>
    refine ⟨hticket ▸ Nat.lt_succ_of_lt h.lt_next, fun waiter hwaiter heq ↦ ?_⟩
    rw [htracker, List.mem_append, List.mem_singleton] at hwaiter
    rcases hwaiter with hold | rfl
    · exact h.scope_eq waiter hold heq
    · exact absurd heq h.lt_next.ne'

theorem Issued.after (h : w.Issued scope ticket) (moves : List Move) :
    (w.after moves).Issued scope ticket := by
  induction moves generalizing w with
  | nil => exact h
  | cons first rest ih => exact ih (h.step first)

/-- A ticket that was issued is held for its scope. -/
theorem Issued.isWaiting_iff (h : w.Issued scope ticket) :
    w.tracker.isWaiting ticket = true ↔ (scope, ticket) ∈ w.tracker.waiters := by
  rw [Tracker.isWaiting, List.any_eq_true]
  constructor
  · rintro ⟨⟨other, n⟩, hmem, hticket⟩
    obtain rfl : n = ticket := by simpa using hticket
    obtain rfl : other = scope := h.scope_eq _ hmem rfl
    exact hmem
  · exact fun hmem ↦ ⟨_, hmem, by simp⟩

/-- A move leaves a ticket held as long as its scope is pending. -/
theorem Issued.isWaiting_step (h : w.Issued scope ticket) (horderly : w.Orderly) (move : Move) :
    (w.step move).2.tracker.isWaiting ticket = true ↔
      w.tracker.isWaiting ticket = true ∧ 0 < (w.step move).2.tracker.count scope := by
  rw [(h.step move).isWaiting_iff, h.isWaiting_iff]
  have hlater := (horderly.step move).awaited (scope, ticket)
  have hshifts := shifts_step w move
  generalize (w.step move).2 = later at hshifts hlater
  refine ⟨fun hmem ↦ ⟨?_, hlater hmem⟩, fun ⟨hmem, hcount⟩ ↦ ?_⟩
  · cases hshifts with
    | call call _ htracker => exact w.tracker.waiters_serve call (htracker ▸ hmem)
    | idle _ _ htracker => exact htracker ▸ hmem
    | held name other _ hscope htracker =>
      rw [htracker, List.mem_append, List.mem_singleton, Prod.mk.injEq] at hmem
      exact hmem.resolve_right fun heq ↦ h.lt_next.ne heq.2
  · cases hshifts with
    | call call _ htracker =>
      rw [htracker] at hcount ⊢
      exact Tracker.mem_waiters_serve call hmem hcount
    | idle _ _ htracker => exact htracker ▸ hmem
    | held name other _ hscope htracker =>
      rw [htracker]
      exact List.mem_append_left _ hmem

/-- A ticket is held as long as its scope has been pending all the time. -/
theorem Issued.isWaiting_after (h : w.Issued scope ticket) (horderly : w.Orderly)
    (since : List Move) :
    (w.after since).tracker.isWaiting ticket = true ↔
      w.tracker.isWaiting ticket = true ∧
        ∀ soon, soon <+: since → 0 < (w.after soon).tracker.count scope := by
  induction since generalizing w with
  | nil =>
    refine ⟨fun hwaiting ↦ ⟨hwaiting, fun soon hsoon ↦ ?_⟩, And.left⟩
    rw [List.prefix_nil.mp hsoon]
    exact horderly.awaited _ (h.isWaiting_iff.mp hwaiting)
  | cons first rest ih =>
    refine (ih (h.step first) (horderly.step first)).trans ?_
    rw [h.isWaiting_step horderly]
    constructor
    · rintro ⟨⟨hwaiting, -⟩, hall⟩
      refine ⟨hwaiting, fun soon hsoon ↦ ?_⟩
      rcases List.prefix_cons_iff.mp hsoon with rfl | ⟨tail, rfl, htail⟩
      · exact horderly.awaited _ (h.isWaiting_iff.mp hwaiting)
      · exact hall tail htail
    · rintro ⟨hwaiting, hall⟩
      refine ⟨⟨hwaiting, hall [first] (List.prefix_cons_iff.mpr (.inr ⟨[], rfl, List.nil_prefix⟩))⟩,
        fun soon hsoon ↦ ?_⟩
      exact hall (first :: soon) ((List.cons_prefix_cons).mpr ⟨rfl, hsoon⟩)

/-- Once it has finished, it stays so. -/
theorem finished_step (h : w.tracker.finished = true) (move : Move) :
    (w.step move).2.tracker.finished = true := by
  have hshifts := shifts_step w move
  generalize (w.step move).2 = later at hshifts
  cases hshifts with
  | call call _ htracker => exact htracker ▸ Tracker.finished_serve h call
  | idle _ _ htracker => exact htracker ▸ h
  | held _ _ _ _ htracker => exact htracker ▸ h

/-! ### Dropped futures -/

/-- One state is like another but for a future. -/
structure Besides (name : String) (w other : Waiting) : Prop where
  tracker_eq : w.tracker = other.tracker
  nextTicket_eq : w.nextTicket = other.nextTicket
  get?_eq : ∀ another, another ≠ name → w.futures.get? another = other.futures.get? another

variable {other : Waiting}

theorem Besides.poll_eq (h : Besides name w other) {another : String} (hne : another ≠ name) :
    (w.poll another).1 = (other.poll another).1 := by
  have hready (f : Future) : w.isReady f = other.isReady f := by
    cases f <;> simp only [isReady, h.tracker_eq]
  simp only [poll, h.get?_eq another hne]
  cases other.futures.get? another with
  | none => rfl
  | some f =>
    simp only [hready]
    split_ifs <;> rfl

theorem Besides.poll (h : Besides name w other) (polled : String) :
    Besides name (w.poll polled).2 (other.poll polled).2 := by
  refine ⟨?_, ?_, fun another hne ↦ ?_⟩
  · rw [poll_tracker, poll_tracker, h.tracker_eq]
  · rw [poll_nextTicket, poll_nextTicket, h.nextTicket_eq]
  · rw [get?_poll, get?_poll, h.get?_eq another hne]
    by_cases hpolled : polled = another
    · rw [hpolled, h.poll_eq hne]
    · simp [hpolled]

theorem Besides.insert (h : Besides name w other) (tracker : Tracker) (made : String) (f : Future)
    (nextTicket : Nat) :
    Besides name { tracker, futures := w.futures.insert made f, nextTicket }
      { tracker, futures := other.futures.insert made f, nextTicket } := by
  refine ⟨rfl, rfl, fun another hne ↦ ?_⟩
  rw [Table.get?_insert, Table.get?_insert, h.get?_eq another hne]

theorem Besides.drop (h : Besides name w other) (dropped : String) :
    Besides name (w.drop dropped) (other.drop dropped) := by
  refine ⟨h.tracker_eq, h.nextTicket_eq, fun another hne ↦ ?_⟩
  rw [Waiting.drop, Waiting.drop, Table.get?_erase, Table.get?_erase, h.get?_eq another hne]

theorem Besides.step (h : Besides name w other) (move : Move) :
    Besides name (w.step move).2 (other.step move).2 := by
  cases move with
  | call call => exact ⟨by simp only [Waiting.step, h.tracker_eq], h.nextTicket_eq, h.get?_eq⟩
  | waitScope made scope =>
    simp only [Waiting.step, waitScope, h.tracker_eq, h.nextTicket_eq]
    exact (h.insert _ _ _ _).poll made
  | waitRoot made =>
    simp only [Waiting.step, waitRoot, h.tracker_eq, h.nextTicket_eq]
    exact (h.insert _ _ _ _).poll made
  | poll polled => exact h.poll polled
  | drop dropped => exact h.drop dropped

theorem Besides.after (h : Besides name w other) (moves : List Move) :
    Besides name (w.after moves) (other.after moves) := by
  induction moves generalizing w other with
  | nil => exact h
  | cons first rest ih => exact ih (h.step first)

theorem besides_drop (w : Waiting) (name : String) : Besides name (w.drop name) w := by
  refine ⟨rfl, rfl, fun another hne ↦ ?_⟩
  rw [drop, Table.get?_erase, if_neg (Ne.symm hne)]

/-! ### Readiness -/

/-- The count of a scope is zero at some moment of the moves, the first and the last included. -/
def Clears (w : Waiting) (scope : Nat) (moves : List Move) : Prop :=
  ∃ soon, soon <+: moves ∧ (w.after soon).tracker.count scope = 0

/-- A poll of a future, some moves after the first one, finds it ready if that is due, and not
answered before. -/
def ReadyIf (made : Polled × Waiting) (name : String) (since : List Move) (due : Prop) : Prop :=
  let asked := made.1 = .ready ∨ made.2.Answered name since
  (((made.2.after since).poll name).1 = .gone ↔ asked) ∧
    (((made.2.after since).poll name).1 = .ready ↔ ¬ asked ∧ due)

theorem readyIf_of_ready {made : Polled × Waiting} (hready : made.1 = .ready)
    (hnone : made.2.futures.get? name = none) (hkeeps : Keeps name since) (due : Prop) :
    ReadyIf made name since due := by
  simp [ReadyIf, poll_of_none (get?_after_of_none hnone hkeeps), hready]

theorem readyIf_of_pending {made : Polled × Waiting} {f : Future} (hpending : made.1 = .pending)
    (hfuture : made.2.futures.get? name = some f) (hkeeps : Keeps name since) {due : Prop}
    (hdue : (made.2.after since).isReady f = true ↔ due) : ReadyIf made name since due := by
  have hpoll := poll_of_kept hfuture hkeeps
  simpa only [ReadyIf, hpending, reduceCtorEq, false_or, ← hdue] using hpoll

theorem Orderly.readyIf_scope (h : w.Orderly) (scope : Nat) (hkeeps : Keeps name since) :
    ReadyIf (w.waitScope name scope) name since
      ((w.waitScope name scope).2.Clears scope since) := by
  cases hscope : w.tracker.isPending scope with
  | false =>
    rw [waitScope_of_idle hscope]
    exact readyIf_of_ready rfl (by simp) hkeeps _
  | true =>
    have hlater : (w.waitScope name scope).2.Orderly := h.step (.waitScope name scope)
    have hissued : (w.waitScope name scope).2.Issued scope w.nextTicket := by
      rw [waitScope_of_pending hscope]
      refine ⟨Nat.lt_succ_self _, fun waiter hwaiter hticket ↦ ?_⟩
      rcases List.mem_append.mp hwaiter with hold | hnew
      · exact absurd hticket (h.issued waiter hold).ne
      · rw [List.mem_singleton.mp hnew]
    have hwaiting : (w.waitScope name scope).2.tracker.isWaiting w.nextTicket = true := by
      rw [hissued.isWaiting_iff, waitScope_of_pending hscope]
      exact List.mem_append_right _ (List.mem_singleton_self _)
    have hheld := hissued.isWaiting_after hlater since
    refine readyIf_of_pending (f := .ticket w.nextTicket) ?_ ?_ hkeeps ?_
    · rw [waitScope_of_pending hscope]
    · rw [waitScope_of_pending hscope]
      exact Table.get?_insert_self _ _ _
    · rw [isReady, Bool.not_eq_true', Bool.eq_false_iff, Ne, hheld]
      simp [hwaiting, Clears]

theorem readyIf_root (w : Waiting) (hkeeps : Keeps name since) :
    ReadyIf (w.waitRoot name) name since ((w.waitRoot name).2.after since).tracker.finished := by
  cases hfinished : w.tracker.finished with
  | true =>
    rw [waitRoot_of_finished hfinished]
    exact readyIf_of_ready rfl (by simp) hkeeps _
  | false =>
    rw [waitRoot_of_running hfinished]
    exact readyIf_of_pending rfl (Table.get?_insert_self _ _ _) hkeeps Iff.rfl

/-- What is true of futures on a new tracker, after any moves. -/
structure Attentive (before : List Move) : Prop where
  /-- Whoever waits does so for a scope that is pending. -/
  awaited : ∀ waiter ∈ (after {} before).tracker.waiters,
    (after {} before).tracker.isPending waiter.1 = true
  /-- The first poll of a future for a scope finds it ready if the scope is not pending. -/
  first_scope : ∀ name scope, ((after {} before).waitScope name scope).1 =
    if (after {} before).tracker.count scope = 0 then .ready else .pending
  /-- A later poll finds it ready if the scope has not been pending at some moment since. -/
  later_scope : ∀ name scope since, Keeps name since →
    ReadyIf ((after {} before).waitScope name scope) name since
      (((after {} before).waitScope name scope).2.Clears scope since)
  first_root : ∀ name, ((after {} before).waitRoot name).1 =
    if (after {} before).tracker.finished then .ready else .pending
  later_root : ∀ name since, Keeps name since →
    ReadyIf ((after {} before).waitRoot name) name since
      (((after {} before).waitRoot name).2.after since).tracker.finished
  /-- At no moment after the drop of a future is there a difference to the tracker, or to what polls
  of other futures answer. -/
  drop : ∀ name since,
    (((after {} before).drop name).after since).tracker = ((after {} before).after since).tracker ∧
      ∀ other, other ≠ name →
        ((((after {} before).drop name).after since).poll other).1 =
          (((after {} before).after since).poll other).1

theorem attentive_of_moves (before : List Move) : Attentive before := by
  have horderly := orderly_new.after before
  have hpending := horderly.tidy.isPending_iff
  refine {
    awaited := fun waiter hwaiter ↦ (hpending waiter.1).mpr (horderly.awaited waiter hwaiter)
    first_scope := fun name scope ↦ ?_
    later_scope := fun name scope since hkeeps ↦ horderly.readyIf_scope scope hkeeps
    first_root := fun name ↦ ?_
    later_root := fun name since hkeeps ↦ readyIf_root _ hkeeps
    drop := fun name since ↦ ?_ }
  · cases hscope : (after {} before).tracker.isPending scope with
    | false =>
      have hcount : (after {} before).tracker.count scope = 0 := by
        rw [← Nat.le_zero, ← Nat.not_lt, ← hpending, hscope]
        exact Bool.false_ne_true
      rw [waitScope_of_idle hscope, if_pos hcount]
    | true =>
      rw [waitScope_of_pending hscope, if_neg ((hpending scope).mp hscope).ne']
  · cases hfinished : (after {} before).tracker.finished with
    | false => rw [waitRoot_of_running hfinished, if_neg Bool.false_ne_true]
    | true => rw [waitRoot_of_finished hfinished, if_pos rfl]
  · have hbesides := (besides_drop (after {} before) name).after since
    exact ⟨hbesides.tracker_eq, fun other hne ↦ hbesides.poll_eq hne⟩

end Waiting

end Blueprint

import Blueprint.Proofs.Run.Reach
import Mathlib.Data.List.Basic
import Mathlib.Logic.Function.Basic

/-!
Callers that share the sync queue of a run. Any number of callers queue calls, each whenever it
likes, also while it polls the node of a call itself; who is told to drain takes calls in a loop and
polls the node of each in place. The callers move one at a time, in any order.

Whatever they do, one of them drains at most, calls are taken once each and in the order in which
they were queued, none is taken while a node is polled in place, and none is left behind
(`Callers.Orderly`). What a machine has of a run is what one such caller comes to
(`RunView.Mirrors`).
-/

set_option autoImplicit false

namespace Blueprint

/-- What a caller is in the middle of. -/
inductive Station where
  /-- Its loop, in which it takes the next call. -/
  | draining
  /-- The node of a call, which it polls in place. -/
  | polling (call : NodeCall)

structure Callers where
  queue : SyncQueue := {}
  /-- What each caller is in the middle of, the innermost first. -/
  stations : Nat → List Station := fun _ ↦ []
  /-- The calls that were queued, in order. -/
  queued : List NodeCall := []
  /-- The calls that were taken off the queue, in order. -/
  taken : List NodeCall := []

namespace Callers

/-- Puts a caller where it is next. -/
def put (s : Callers) (caller : Nat) (stations : List Station) : Callers :=
  { s with stations := Function.update s.stations caller stations }

inductive Move where
  /-- A caller queues a call, and drains the queue if it is told to. -/
  | queue (caller : Nat) (call : NodeCall)
  /-- A caller that drains takes the next call and starts its node; without one it is released. -/
  | take (caller : Nat)
  /-- The node that a caller polls returns, or is left to a task. -/
  | leave (caller : Nat)

/-- One move. What a caller cannot do changes nothing. -/
def step (s : Callers) : Move → Callers
  | .queue caller call =>
    let (drains, queue) := s.queue.push call
    let s := { s with queue, queued := s.queued ++ [call] }
    if drains then s.put caller (.draining :: s.stations caller) else s
  | .take caller =>
    match s.stations caller with
    | .draining :: below =>
      let (next, queue) := s.queue.pop
      match next with
      | some call =>
        { s with queue, taken := s.taken ++ [call] }.put caller (.polling call :: .draining :: below)
      | none => { s with queue }.put caller below
    | _ => s
  | .leave caller =>
    match s.stations caller with
    | .polling _ :: below => s.put caller below
    | _ => s

/-- The callers after some moves, from the start. -/
def after (moves : List Move) : Callers := moves.foldl step {}

def Drains (s : Callers) (caller : Nat) : Prop := .draining ∈ s.stations caller

def Polls (s : Callers) (caller : Nat) (call : NodeCall) : Prop := .polling call ∈ s.stations caller

/-- What a caller may be in the middle of: nothing, its loop, or one node that it polls in there. -/
inductive Flat : List Station → Prop
  | outside : Flat []
  | draining : Flat [.draining]
  | polling (call : NodeCall) : Flat [.polling call, .draining]

/-- What holds of the callers at any time. -/
structure InTurn (s : Callers) : Prop where
  queued_eq : s.queued = s.taken ++ s.queue.calls
  flat : ∀ caller, Flat (s.stations caller)
  alone : ∀ caller other, s.stations caller ≠ [] → s.stations other ≠ [] → caller = other
  draining_iff : s.queue.draining = true ↔ ∃ caller, s.stations caller ≠ []
  idle : s.queue.draining = false → s.queue.calls = []

variable {s : Callers} {caller : Nat} {call : NodeCall} {calls : List NodeCall}
  {below : List Station}

theorem stations_put (s : Callers) (caller other : Nat) (stations : List Station) :
    (s.put caller stations).stations other =
      if other = caller then stations else s.stations other :=
  Function.update_apply ..

/-! ### What a move does -/

theorem step_queue_of_draining (hdraining : s.queue.draining = true) :
    s.step (.queue caller call) =
      { s with
        queue := { calls := s.queue.calls ++ [call], draining := true }
        queued := s.queued ++ [call] } := by
  simp only [step, SyncQueue.push, hdraining, Bool.not_true, Bool.false_eq_true, ↓reduceIte]

theorem step_queue_of_idle (hidle : s.queue.draining = false) :
    s.step (.queue caller call) =
      put { s with
        queue := { calls := s.queue.calls ++ [call], draining := true }
        queued := s.queued ++ [call] } caller (.draining :: s.stations caller) := by
  simp only [step, SyncQueue.push, hidle, Bool.not_false, ↓reduceIte]

theorem step_take_of_cons (hstations : s.stations caller = .draining :: below)
    (hcalls : s.queue.calls = call :: calls) :
    s.step (.take caller) =
      put { s with queue := { s.queue with calls }, taken := s.taken ++ [call] } caller
        (.polling call :: .draining :: below) := by
  simp only [step, hstations, SyncQueue.pop, hcalls]

theorem step_take_of_nil (hstations : s.stations caller = .draining :: below)
    (hcalls : s.queue.calls = []) :
    s.step (.take caller) =
      put { s with queue := { s.queue with draining := false } } caller below := by
  simp only [step, hstations, SyncQueue.pop, hcalls]

theorem step_leave_of_polling (hstations : s.stations caller = .polling call :: below) :
    s.step (.leave caller) = s.put caller below := by
  simp only [step, hstations]

/-! ### What always holds -/

theorem Flat.drains {stations : List Station} (h : Flat stations) (hsome : stations ≠ []) :
    .draining ∈ stations := by
  cases h with
  | outside => exact absurd rfl hsome
  | draining => exact List.mem_cons_self
  | polling call => exact List.mem_cons_of_mem _ List.mem_cons_self

theorem InTurn.drains_iff (h : s.InTurn) : s.Drains caller ↔ s.stations caller ≠ [] :=
  ⟨List.ne_nil_of_mem, (h.flat caller).drains⟩

theorem inTurn_start : InTurn {} where
  queued_eq := rfl
  flat := fun _ ↦ .outside
  alone := fun _ _ hcaller ↦ absurd rfl hcaller
  draining_iff := ⟨fun hdraining ↦ (nomatch hdraining), fun ⟨_, hsome⟩ ↦ absurd rfl hsome⟩
  idle := fun _ ↦ rfl

/-- Assumes: callers of whom only one is in the middle of something. It goes on, and stays in the
middle of something. -/
theorem InTurn.remains (h : s.InTurn) (hcaller : s.stations caller ≠ []) {stations : List Station}
    (hflat : Flat stations) (hsome : stations ≠ []) : (s.put caller stations).InTurn := by
  have hstays (other : Nat) : (s.put caller stations).stations other ≠ [] ↔ s.stations other ≠ [] := by
    rw [stations_put]
    split_ifs with hother
    · subst hother
      exact ⟨fun _ ↦ hcaller, fun _ ↦ hsome⟩
    · exact Iff.rfl
  refine { h with flat := fun other ↦ ?_, alone := fun first second hfirst hsecond ↦ ?_,
                  draining_iff := ?_ }
  · rw [stations_put]
    split_ifs
    · exact hflat
    · exact h.flat other
  · exact h.alone first second ((hstays first).mp hfirst) ((hstays second).mp hsecond)
  · simp only [hstays]
    exact h.draining_iff

theorem InTurn.queue (h : s.InTurn) (caller : Nat) (call : NodeCall) :
    (s.step (.queue caller call)).InTurn := by
  have hqueued : s.queued ++ [call] = s.taken ++ (s.queue.calls ++ [call]) := by
    rw [h.queued_eq, List.append_assoc]
  cases hdraining : s.queue.draining with
  | true =>
    rw [step_queue_of_draining hdraining]
    exact ⟨hqueued, h.flat, h.alone, ⟨fun _ ↦ h.draining_iff.mp hdraining, fun _ ↦ rfl⟩,
      fun hidle ↦ nomatch hidle⟩
  | false =>
    have hnone (other : Nat) : s.stations other = [] := by
      by_contra hsome
      rw [h.draining_iff.mpr ⟨other, hsome⟩] at hdraining
      cases hdraining
    rw [step_queue_of_idle hdraining, hnone caller]
    refine ⟨hqueued, fun other ↦ ?_, fun first second hfirst hsecond ↦ ?_,
      ⟨fun _ ↦ ⟨caller, ?_⟩, fun _ ↦ rfl⟩, fun hidle ↦ nomatch hidle⟩
    · rw [stations_put]
      split_ifs
      · exact .draining
      · exact h.flat other
    · rw [stations_put] at hfirst hsecond
      split_ifs at hfirst hsecond with hfirst' hsecond'
      · exact hfirst'.trans hsecond'.symm
      · exact absurd (hnone second) hsecond
      · exact absurd (hnone first) hfirst
      · exact absurd (hnone first) hfirst
    · rw [stations_put, if_pos rfl]
      exact List.cons_ne_nil _ _

theorem InTurn.take (h : s.InTurn) (caller : Nat) : (s.step (.take caller)).InTurn := by
  have hflat := h.flat caller
  generalize hstations : s.stations caller = stations at hflat
  cases hflat with
  | outside | polling => simpa only [step, hstations] using h
  | draining =>
    have hsome : s.stations caller ≠ [] := hstations ▸ List.cons_ne_nil _ _
    have hdraining : s.queue.draining = true := h.draining_iff.mpr ⟨caller, hsome⟩
    cases hcalls : s.queue.calls with
    | cons call calls =>
      rw [step_take_of_cons hstations hcalls]
      have hqueued : s.queued = s.taken ++ [call] ++ calls := by
        rw [h.queued_eq, hcalls, List.append_assoc, List.singleton_append]
      have hpopped :
          InTurn { s with queue := { s.queue with calls }, taken := s.taken ++ [call] } :=
        ⟨hqueued, h.flat, h.alone, h.draining_iff, fun hidle ↦ nomatch hdraining.symm.trans hidle⟩
      exact hpopped.remains hsome (.polling call) (List.cons_ne_nil _ _)
    | nil =>
      rw [step_take_of_nil hstations hcalls]
      -- The caller was the only one in the middle of something.
      have hnone (other : Nat) :
          (put { s with queue := { s.queue with draining := false } } caller []).stations other = [] := by
        rw [stations_put]
        split_ifs with hother
        · rfl
        · by_contra hother'
          exact hother (h.alone other caller hother' hsome)
      exact ⟨h.queued_eq, fun other ↦ (hnone other).symm ▸ .outside,
        fun first _ hfirst ↦ absurd (hnone first) hfirst,
        ⟨fun hidle ↦ (nomatch hidle), fun ⟨other, hother⟩ ↦ absurd (hnone other) hother⟩,
        fun _ ↦ hcalls⟩

theorem InTurn.leave (h : s.InTurn) (caller : Nat) : (s.step (.leave caller)).InTurn := by
  have hflat := h.flat caller
  generalize hstations : s.stations caller = stations at hflat
  cases hflat with
  | outside | draining => simpa only [step, hstations] using h
  | polling call =>
    rw [step_leave_of_polling hstations]
    exact h.remains (hstations ▸ List.cons_ne_nil _ _) .draining (List.cons_ne_nil _ _)

theorem InTurn.moved (h : s.InTurn) (move : Move) : (s.step move).InTurn := by
  cases move with
  | queue caller call => exact h.queue caller call
  | take caller => exact h.take caller
  | leave caller => exact h.leave caller

theorem InTurn.foldl (h : s.InTurn) (moves : List Move) : (moves.foldl Callers.step s).InTurn := by
  induction moves generalizing s with
  | nil => exact h
  | cons move rest ih => exact ih (h.moved move)

theorem inTurn_after (moves : List Move) : (after moves).InTurn := inTurn_start.foldl moves

theorem after_append (moves more : List Move) :
    after (moves ++ more) = more.foldl step (after moves) := List.foldl_append

/-! ### What a caller can still do -/

/-- Calls are added at the end, both to those that were queued and to those that were taken. -/
theorem grows_step (s : Callers) (move : Move) :
    s.queued <+: (s.step move).queued ∧ s.taken <+: (s.step move).taken := by
  cases move with
  | queue caller call =>
    simp only [step]
    split <;> exact ⟨List.prefix_append _ _, List.prefix_rfl⟩
  | take caller =>
    simp only [step]
    split
    · split
      · exact ⟨List.prefix_rfl, List.prefix_append _ _⟩
      · exact ⟨List.prefix_rfl, List.prefix_rfl⟩
    · exact ⟨List.prefix_rfl, List.prefix_rfl⟩
  | leave caller =>
    simp only [step]
    split <;> exact ⟨List.prefix_rfl, List.prefix_rfl⟩

theorem grows_foldl (s : Callers) (moves : List Move) :
    s.queued <+: (moves.foldl step s).queued ∧ s.taken <+: (moves.foldl step s).taken := by
  induction moves generalizing s with
  | nil => exact ⟨List.prefix_rfl, List.prefix_rfl⟩
  | cons move rest ih =>
    exact ⟨(grows_step s move).1.trans (ih (s.step move)).1,
      (grows_step s move).2.trans (ih (s.step move)).2⟩

/-- Only a caller in its loop takes calls. -/
theorem InTurn.stations_of_take (h : s.InTurn)
    (htaken : (s.step (.take caller)).taken ≠ s.taken) : s.stations caller = [.draining] := by
  have hflat := h.flat caller
  generalize hstations : s.stations caller = stations at hflat ⊢
  cases hflat with
  | outside | polling => exact absurd (by simp only [step, hstations]) htaken
  | draining => rfl

/-- Assumes: a caller that drains. Out of the node that it may be polling, and one take later, it has
taken the oldest call, or it is released because none was left. -/
theorem InTurn.goes_on (h : s.InTurn) (hdrains : s.Drains caller) :
    let later := [Move.leave caller, .take caller].foldl step s
    (∀ call calls, s.queue.calls = call :: calls →
      later.taken = s.taken ++ [call] ∧ later.queue.calls = calls) ∧
    (s.queue.calls = [] → ¬ later.Drains caller) := by
  have hloop : (s.step (.leave caller)).stations caller = [.draining] ∧
      (s.step (.leave caller)).queue = s.queue ∧ (s.step (.leave caller)).taken = s.taken := by
    have hflat := h.flat caller
    generalize hstations : s.stations caller = stations at hflat
    cases hflat with
    | outside => exact absurd hdrains (by simp [Drains, hstations])
    | draining => simp only [step, hstations, and_self]
    | polling call =>
      rw [step_leave_of_polling hstations]
      exact ⟨(stations_put ..).trans (if_pos rfl), rfl, rfl⟩
  obtain ⟨hstations, hqueue, htaken⟩ := hloop
  simp only [List.foldl_cons, List.foldl_nil]
  refine ⟨fun call calls hcalls ↦ ?_, fun hcalls ↦ ?_⟩
  · rw [step_take_of_cons hstations (hqueue ▸ hcalls)]
    exact ⟨congrArg (· ++ [call]) htaken, rfl⟩
  · rw [step_take_of_nil hstations (hqueue ▸ hcalls), Drains, stations_put, if_pos rfl]
    exact List.not_mem_nil

/-- What callers can rely on, after some moves. -/
structure Orderly (moves : List Move) : Prop where
  /-- Every call that was queued was taken, in its turn, or waits for it. -/
  queued_eq : (after moves).queued = (after moves).taken ++ (after moves).queue.calls
  /-- What was queued and what was taken stay, in the same order. -/
  grows : ∀ more, (after moves).queued <+: (after (moves ++ more)).queued ∧
    (after moves).taken <+: (after (moves ++ more)).taken
  drains_unique : ∀ caller other, (after moves).Drains caller → (after moves).Drains other →
    caller = other
  /-- Nobody drains inside its own loop, or polls a node inside another. -/
  flat : ∀ caller, Flat ((after moves).stations caller)
  /-- Who polls a node drains. -/
  drains_of_polls : ∀ caller call, (after moves).Polls caller call → (after moves).Drains caller
  /-- No call is taken while the node of another is polled in place. -/
  not_polls_of_take : ∀ caller, (after (moves ++ [.take caller])).taken ≠ (after moves).taken →
    ∀ other call, ¬ (after moves).Polls other call
  /-- Who queues a call while nobody drains is told to. -/
  drains_of_queue : ∀ caller call, (∀ other, ¬ (after moves).Drains other) →
    (after (moves ++ [.queue caller call])).Drains caller
  /-- Who drains goes on with the oldest call, and stops only when none is left. -/
  goes_on : ∀ caller, (after moves).Drains caller →
    (∀ call calls, (after moves).queue.calls = call :: calls →
      (after (moves ++ [.leave caller, .take caller])).taken = (after moves).taken ++ [call] ∧
      (after (moves ++ [.leave caller, .take caller])).queue.calls = calls) ∧
    ((after moves).queue.calls = [] →
      ¬ (after (moves ++ [.leave caller, .take caller])).Drains caller)
  /-- No call is left behind. -/
  taken_eq : (∀ caller, ¬ (after moves).Drains caller) →
    (after moves).queue.calls = [] ∧ (after moves).taken = (after moves).queued

theorem orderly (moves : List Move) : Orderly moves := by
  have h := inTurn_after moves
  have hidle (hnone : ∀ other, ¬ (after moves).Drains other) :
      (after moves).queue.draining = false := by
    by_contra hdraining
    obtain ⟨caller, hsome⟩ := h.draining_iff.mp ((Bool.not_eq_false _).mp hdraining)
    exact hnone caller (h.drains_iff.mpr hsome)
  constructor
  case queued_eq => exact h.queued_eq
  case grows => exact fun more ↦ after_append moves more ▸ grows_foldl (after moves) more
  case drains_unique =>
    exact fun caller other hcaller hother ↦
      h.alone caller other (h.drains_iff.mp hcaller) (h.drains_iff.mp hother)
  case flat => exact h.flat
  case drains_of_polls =>
    exact fun caller call hpolls ↦ h.drains_iff.mpr (List.ne_nil_of_mem hpolls)
  case not_polls_of_take =>
    intro caller htaken other call hpolls
    rw [after_append] at htaken
    have hstations := h.stations_of_take htaken
    obtain rfl := h.alone caller other (hstations ▸ List.cons_ne_nil _ _) (List.ne_nil_of_mem hpolls)
    rw [Polls, hstations] at hpolls
    simp at hpolls
  case drains_of_queue =>
    intro caller call hnone
    rw [after_append, List.foldl_cons, List.foldl_nil, step_queue_of_idle (hidle hnone), Drains,
      stations_put, if_pos rfl]
    exact List.mem_cons_self
  case goes_on => exact fun caller hdrains ↦ after_append moves _ ▸ h.goes_on hdrains
  case taken_eq =>
    intro hnone
    have hcalls := h.idle (hidle hnone)
    refine ⟨hcalls, ?_⟩
    rw [h.queued_eq, hcalls, List.append_nil]

end Callers

/-! ### The caller of a run on the machine -/

/-- What a frame is to the caller whose frames these are. A node on a task is polled by itself. -/
def Frame.station? : Frame → Option Station
  | .drain _ => some .draining
  | .node a none => some (.polling a.call)
  | .node _ (some _) => none

namespace RunView

open Callers (after after_append step)

/-- Of the callers of a run, the first is where the frames say, and the others do nothing. -/
structure Mirrors (v : RunView) (s : Callers) : Prop where
  queue_eq : ∀ c, v.context = some c → s.queue = c.queue
  stations_eq : ∀ caller,
    s.stations caller = if caller = 0 then v.frames.filterMap Frame.station? else []

/-- Some moves of callers come to what is there of a run. -/
def Mirrored (v : RunView) : Prop := ∃ moves, v.Mirrors (after moves)

variable {v later : RunView} {c : Context} {m m' : Machine} {run : RunId} {s : Callers}
  {a : Activity} {home : Option Nat} {rest : List Frame} {lost : List Nat}
  {written : List (String × Value)}

theorem Mirrors.queue_eq_of_map (h : v.Mirrors s)
    (hqueue : later.context.map (·.queue) = v.context.map (·.queue)) (c : Context)
    (hcontext : later.context = some c) : s.queue = c.queue := by
  rw [hcontext, Option.map_some] at hqueue
  obtain ⟨was, hwas, hsame⟩ := Option.map_eq_some_iff.mp hqueue.symm
  exact (h.queue_eq was hwas).trans hsame

theorem Mirrors.congr (h : v.Mirrors s)
    (hqueue : later.context.map (·.queue) = v.context.map (·.queue))
    (hstations : later.frames.filterMap Frame.station? = v.frames.filterMap Frame.station?) :
    later.Mirrors s := by
  exact ⟨h.queue_eq_of_map hqueue, fun caller ↦ hstations ▸ h.stations_eq caller⟩

theorem Mirrored.congr (h : v.Mirrored)
    (hqueue : later.context.map (·.queue) = v.context.map (·.queue))
    (hstations : later.frames.filterMap Frame.station? = v.frames.filterMap Frame.station?) :
    later.Mirrored :=
  h.imp fun _ hmirrors ↦ hmirrors.congr hqueue hstations

/-- Assumes: moves of callers, and one more. -/
theorem mirrored_of_step (moves : List Callers.Move) (move : Callers.Move)
    (h : later.Mirrors ((after moves).step move)) : later.Mirrored :=
  ⟨moves ++ [move], after_append moves [move] ▸ h⟩

theorem mirrored_of_idle (hframes : v.frames = [])
    (hqueue : ∀ c, v.context = some c → c.queue = {}) : v.Mirrored := by
  refine ⟨[], fun c hcontext ↦ (hqueue c hcontext).symm, fun caller ↦ ?_⟩
  rw [hframes]
  exact (ite_self _).symm

/-- The first caller makes a move of its own. -/
theorem Mirrors.put (h : v.Mirrors s) {changed : Callers} {stations : List Station}
    (hstations : changed.stations = s.stations)
    (hqueue : ∀ c, later.context = some c → changed.queue = c.queue)
    (hframes : stations = later.frames.filterMap Frame.station?) :
    later.Mirrors (changed.put 0 stations) := by
  refine ⟨hqueue, fun caller ↦ ?_⟩
  rw [Callers.stations_put, hframes, hstations, h.stations_eq]
  split_ifs <;> rfl

/-- Assumes: the topmost frame is of the caller that the frames are. -/
theorem Mirrors.stations_of_cons {frame : Frame} {station : Station} (h : v.Mirrors s)
    (hframes : v.frames = frame :: rest) (hstation : frame.station? = some station) :
    s.stations 0 = station :: rest.filterMap Frame.station? := by
  rw [h.stations_eq 0, if_pos rfl, hframes, List.filterMap_cons_some hstation]

/-- A node has been taken off the frames, for good or for a task. -/
theorem Mirrored.leave (h : v.Mirrored) (hframes : v.frames = .node a home :: rest)
    (hqueue : later.context.map (·.queue) = v.context.map (·.queue)) (hrest : later.frames = rest) :
    later.Mirrored := by
  cases home with
  | some task =>
    refine h.congr hqueue ?_
    rw [hframes, hrest, List.filterMap_cons_none rfl]
  | none =>
    obtain ⟨moves, hmirrors⟩ := h
    refine mirrored_of_step moves (.leave 0) ?_
    rw [Callers.step_leave_of_polling (hmirrors.stations_of_cons hframes rfl)]
    exact hmirrors.put rfl (hmirrors.queue_eq_of_map hqueue) (by rw [hrest])

/-- The oldest call is taken, and its node is started. -/
theorem Mirrored.take {call : NodeCall} {calls : List NodeCall} (h : v.Mirrored)
    (hcontext : v.context = some c) (hframes : v.frames = .drain run :: rest)
    (hcalls : c.queue.calls = call :: calls) (progress : Progress) :
    ({ v with
      context := some { c with queue := { c.queue with calls } }
      frames := .node { run, call, progress } none :: v.frames } : RunView).Mirrored := by
  obtain ⟨moves, hmirrors⟩ := h
  have hqueue := hmirrors.queue_eq c hcontext
  refine mirrored_of_step moves (.take 0) ?_
  rw [Callers.step_take_of_cons (hmirrors.stations_of_cons hframes rfl) (hqueue ▸ hcalls), hqueue]
  refine hmirrors.put ?_ (fun c' hcontext' ↦ ?_) ?_
  · rfl
  · obtain rfl := Option.some.inj hcontext'
    rfl
  · rw [hframes]
    rfl

theorem queue_conclude (v : RunView) (call : NodeCall) (ending : Ending) :
    (v.conclude call ending).context.map (·.queue) = v.context.map (·.queue) ∧
      (v.conclude call ending).frames = v.frames := by
  have hfinish (v : RunView) : (v.finish call.scope).context.map (·.queue) =
      v.context.map (·.queue) ∧ (v.finish call.scope).frames = v.frames := by
    unfold RunView.finish
    split
    · exact ⟨rfl, rfl⟩
    · split
      · exact ⟨rfl, rfl⟩
      · exact ⟨Option.map_map .., rfl⟩
  unfold RunView.conclude
  split_ifs
  · exact hfinish v
  · exact ⟨(hfinish _).1.trans (Option.map_map ..), (hfinish _).2⟩

theorem Mirrored.conclude (h : v.Mirrored) (call : NodeCall) (ending : Ending) :
    (v.conclude call ending).Mirrored :=
  h.congr (queue_conclude v call ending).1 (by rw [(queue_conclude v call ending).2])

theorem Mirrored.invokes {call : NodeCall} (h : v.Mirrored) (hcontext : v.context = some c)
    (hinvokes : Invokes m m' run call v c later lost) : later.Mirrored := by
  cases hinvokes with
  | unknown hkind => exact h.conclude call _
  | spawned | lost => exact h.congr rfl rfl
  | queued kind hkind hmode hdraining =>
    obtain ⟨moves, hmirrors⟩ := h
    have hqueue := hmirrors.queue_eq c hcontext
    refine mirrored_of_step moves (.queue 0 call) ?_
    rw [Callers.step_queue_of_draining (hqueue ▸ hdraining), hqueue]
    refine ⟨fun c' hcontext' ↦ ?_, hmirrors.stations_eq⟩
    obtain rfl := Option.some.inj hcontext'
    simp only [hdraining]
  | drained kind hkind hmode hdraining =>
    obtain ⟨moves, hmirrors⟩ := h
    have hqueue := hmirrors.queue_eq c hcontext
    refine mirrored_of_step moves (.queue 0 call) ?_
    rw [Callers.step_queue_of_idle (hqueue ▸ hdraining), hqueue]
    refine hmirrors.put ?_ (fun c' hcontext' ↦ ?_) ?_
    · rfl
    · obtain rfl := Option.some.inj hcontext'
      rfl
    · rw [hmirrors.stations_eq]
      rfl

theorem Mirrored.serves {request : Behaviour} (h : v.Mirrored)
    (hframes : v.frames = .node a home :: rest) (hcontext : v.context = some c)
    (hserves : Serves m m' run { v with frames := rest } c a home request later written lost) :
    later.Mirrored := by
  -- The node keeps its place, and the queue is as it was.
  have hstays (c' : Context) (active : Option ActiveRun) (progress : Progress)
      (hqueue : c'.queue = c.queue) :
      ({ v with
        context := some c'
        active
        frames := .node { a with progress } home :: rest } : RunView).Mirrored := by
    refine h.congr ?_ ?_
    · rw [hcontext]
      exact congrArg some hqueue
    · rw [hframes]
      cases home <;> rfl
  cases hserves with
  | ended ending hending =>
    obtain ⟨hqueue, hrest⟩ := queue_conclude { v with frames := rest } a.call ending
    exact h.leave hframes hqueue hrest
  | @answered _ c' progress _ hanswers => exact hstays c' v.active progress hanswers.extends.2
  | paused => exact h.leave hframes rfl rfl
  | unwired pin next active => exact hstays _ _ _ rfl
  | wired pin next active target bindings hactive hpin htarget hinvokes =>
    have hopen := hstays { c with tracker := c.tracker.dispatch active.scopes.next, bindings }
      (some { active with scopes := active.scopes.openNext true a.call.scope })
      (.going (next (.ok active.scopes.next))) rfl
    exact hopen.invokes rfl hinvokes

theorem Mirrored.labour (h : v.Mirrored) (hcontext : v.context = some c)
    (hlabour : Labour m m' run v c later written lost) : later.Mirrored := by
  cases hlabour with
  | polled => exact h.congr rfl rfl
  | shelved a home rest hframes => exact h.leave hframes rfl rfl
  | served a home rest hframes hcan hresumes hserves => exact h.serves hframes hcontext hserves
  | released rest hframes hcalls =>
    obtain ⟨moves, hmirrors⟩ := h
    have hqueue := hmirrors.queue_eq c hcontext
    refine mirrored_of_step moves (.take 0) ?_
    rw [Callers.step_take_of_nil (hmirrors.stations_of_cons hframes rfl) (hqueue ▸ hcalls), hqueue]
    refine hmirrors.put ?_ (fun c' hcontext' ↦ ?_) ?_
    · rfl
    · obtain rfl := Option.some.inj hcontext'
      rfl
    · rfl
  | taken rest call calls kind hframes hcalls hkind => exact h.take hcontext hframes hcalls _
  | skipped rest call calls hframes hcalls hkind =>
    have htaken := h.take hcontext hframes hcalls .stalled
    have hback : ({ v with
        context := some { c with queue := { c.queue with calls } } } : RunView).Mirrored :=
      htaken.leave rfl rfl rfl
    exact hback.conclude call _

theorem Mirrored.begins {graphs : Table Nat Graph} {inputs : Inputs} (h : v.Mirrored)
    (hcontext : v.context = some c) (hbegins : Begins m m' run graphs v c inputs later lost) :
    later.Mirrored := by
  have hstays (c' : Context) (active : Option ActiveRun) (hqueue : c'.queue = c.queue) :
      ({ v with context := some c', active } : RunView).Mirrored := by
    refine h.congr ?_ rfl
    rw [hcontext]
    exact congrArg some hqueue
  cases hbegins with
  | refused hgraph => exact hstays _ v.active rfl
  | entered graph entry bindings hgraph hentry hinvokes =>
    have hentered := hstays
      { c with inputs := some inputs, tracker := c.tracker.dispatch rootScope, bindings }
      (some { graph, inputs, scopes := .initial }) rfl
    exact hentered.invokes rfl hinvokes
  | nodeless graph hgraph hnodes => exact hstays _ _ rfl

theorem Mirrored.alters (h : v.Mirrored) (halters : Alters m m' run v later written) :
    later.Mirrored := by
  cases halters with
  | changed hchanges =>
    cases hchanges with
    | same => exact h
    | worked hcontext hlabour => exact h.labour hcontext hlabour
    | ended => exact h.congr rfl rfl
    | begun graphs graph config inputs a home rest next hframes hresumes hrun hnext hgraphs hbegins =>
      refine Mirrored.begins (mirrored_of_idle rfl fun c hcontext ↦ ?_) rfl hbegins
      obtain rfl := Option.some.inj hcontext
      rfl
  | opened graph config hasTasks hrun =>
    refine mirrored_of_idle rfl fun c hcontext ↦ ?_
    obtain rfl := Option.some.inj hcontext
    rfl
  | started graphs inputs hcontext hinputs hgraphs hbegins => exact h.begins hcontext hbegins
  | ended => exact h.congr rfl rfl
  | handled _ handler => exact h.congr (Option.map_map ..) rfl

end RunView

namespace Machine

variable {m m' blank : Machine} {history written : RunId → List (String × Value)} {run : RunId}
  {c : Context}

theorem mirrored_of_leads (hblank : m.Blank) (hleads : Leads m m' history) (run : RunId) :
    (m'.view run).Mirrored := by
  induction hleads with
  | refl =>
    refine RunView.mirrored_of_idle (by simp [view, hblank.frames]) fun c hcontext ↦ ?_
    cases (hblank.context run).symm.trans hcontext
  | next hleads hnext ih =>
    exact ih.alters (alters_of_happens (hblank.leads hleads).housed hnext run)

/-- Any callers of one run, in any order of their moves, are served in turn: each call once, in the
order in which they were queued, one at a time, and none is left behind. And in every machine that
can be reached, the queue and the frames of every run are those of such callers. -/
theorem orderly_of_leads :
    (∀ moves, Callers.Orderly moves) ∧
      ∀ blank m history run, blank.Blank → Leads blank m history →
        ∃ moves, (m.view run).Mirrors (Callers.after moves) :=
  ⟨Callers.orderly, fun _ _ _ run hblank hleads ↦ mirrored_of_leads hblank hleads run⟩

/-- The call of the first branch. -/
def sayCall : NodeCall where
  scope := 1
  node := "say"
  kind := "log"
  params := .null

/-- The first branch of a sequence is polled in place, where the sequence drains the queue; it is the
only node that is. -/
theorem orderly_of_forked :
    ∃ moves, (Callers.after moves).stations 0 = [.polling sayCall, .draining] ∧
      Callers.Orderly moves ∧ ∀ caller, (Callers.after moves).Drains caller → caller = 0 := by
  obtain ⟨written, hrun⟩ := leads_run forkedStarted [.poll 0, .advance, .advance]
  obtain ⟨moves, hmirrors⟩ :=
    orderly_of_leads.2 forked _ _ 1 forked_blank (leads_forkedStarted.trans hrun)
  have hstations : (Callers.after moves).stations 0 = [.polling sayCall, .draining] :=
    hmirrors.stations_eq 0
  have horderly := orderly_of_leads.1 moves
  refine ⟨moves, hstations, horderly, fun caller hdrains ↦ horderly.drains_unique _ _ hdrains ?_⟩
  rw [Callers.Drains, hstations]
  exact List.mem_cons_of_mem _ List.mem_cons_self

end Machine

end Blueprint

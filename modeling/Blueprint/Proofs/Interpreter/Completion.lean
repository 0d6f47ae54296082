import Blueprint.Proofs.Interpreter.Lineage

/-!
The law of completion over whole sessions. `Session.lineage` reads the scopes of a run off the calls
made since it was begun, with any arguments and in any order, refused calls and calls for other runs
included. Whatever the calls are, what the run's host was told since then obeys the law
(`Session.obeyed_of_calls`): the lineage tracks the open scopes at the start
(`Lineage.tracks_begun`), and each call keeps that (`Session.Follows.step`).
-/

set_option autoImplicit false

namespace Blueprint

namespace Lineage

variable {l : Lineage} {t : ScopeTable} {told : List Callback}

/-- The node on a scope has finished, and what that closes is told. -/
theorem Tracks.finish (h : l.Tracks t told) {id : Nat} {closed : List Nat} {later : ScopeTable}
    (hfinishes : ScopeTable.Finishes t id closed later) :
    Tracks { l with returned := l.returned ++ [id] } later (told ++ closed.map .completed) := by
  obtain ⟨awaited, hawaited, -⟩ := hfinishes.awaited
  have hdispatched : dispatchedIn (told ++ closed.map .completed) = dispatchedIn told := by
    rw [dispatchedIn_append, dispatchedIn_completed, List.append_nil]
  have hcompleted : completedIn (told ++ closed.map .completed) = completedIn told ++ closed := by
    rw [completedIn_append, completedIn_completed]
  have hopen : ∀ other ∈ closed, (t.entries.get? other).isSome := fun other hother ↦ by
    obtain ⟨-, scope, hscope, -⟩ := hfinishes.gone other hother
    simp [hscope]
  constructor
  case tree => exact hfinishes.tree
  case dispatched_eq => rw [hdispatched, hfinishes.next_eq, h.dispatched_eq]
  case next_eq => exact hfinishes.next_eq.trans h.next_eq
  case open_iff =>
    intro other
    rw [hcompleted, hfinishes.next_eq, List.mem_append, not_or, ← and_assoc, ← h.open_iff other]
    by_cases hother : other ∈ closed
    · simp [(hfinishes.gone other hother).1, hother]
    · obtain ⟨change, hchange⟩ := hfinishes.rest other hother
      simp [hchange, hother]
  case entry =>
    intro other scope hscope
    have hother : other ∉ closed := fun hmem ↦ by
      simp [(hfinishes.gone other hmem).1] at hscope
    obtain ⟨change, hchange⟩ := hfinishes.rest other hother
    obtain ⟨was, hwas, rfl⟩ := Option.map_eq_some_iff.mp (hchange.symm.trans hscope)
    refine ⟨(h.entry other was hwas).1, ?_⟩
    rw [List.mem_append, List.mem_singleton, ← (h.entry other was hwas).2, Bool.or_eq_true,
      beq_iff_eq, eq_comm (a := id)]
  case opened_lt => exact hfinishes.next_eq ▸ h.opened_lt
  case opened_nodup => exact h.opened_nodup
  case unwired_lt => exact hfinishes.next_eq ▸ h.unwired_lt
  case returned_lt =>
    intro other hother
    rw [hfinishes.next_eq]
    rcases List.mem_append.mp hother with hold | hone
    · exact h.returned_lt other hold
    · exact List.mem_singleton.mp hone ▸ h.tree.lt_next id awaited hawaited
  case opened_unwired => exact h.opened_unwired
  case unwired_completed =>
    intro other hother
    rw [hcompleted]
    exact List.mem_append_left _ (h.unwired_completed other hother)
  case completed_cases =>
    intro other hother
    rw [hcompleted] at hother
    rcases List.mem_append.mp hother with hold | hnow
    · exact (h.completed_cases other hold).imp_right (List.mem_append_left _)
    · obtain ⟨-, scope, hscope, hdone⟩ := hfinishes.gone other hnow
      rcases hdone with hdone | rfl
      · exact Or.inr (List.mem_append_left _ ((h.entry other scope hscope).2.mp hdone))
      · exact Or.inr (List.mem_append_right _ (List.mem_singleton_self _))
  case completed_once =>
    rw [hcompleted]
    refine List.nodup_append.mpr ⟨h.completed_once, ?_, ?_⟩
    · exact hfinishes.pairwise_gt.imp fun hgt ↦ Nat.ne_of_gt hgt
    · rintro other hold _ hnow rfl
      exact ((h.open_iff other).mp (hopen other hnow)).2 hold
  case completed_after =>
    intro before top later hsplit
    rcases split_told hsplit with ⟨rest, htold⟩ | ⟨mid, rfl, hmore⟩
    · exact h.completed_after before top rest htold
    · obtain ⟨first, rest, rfl, rfl, hrest⟩ := List.map_eq_append_iff.mp hmore
      obtain ⟨_, after, rfl, hhead, -⟩ := List.map_eq_cons_iff.mp hrest
      obtain rfl := Callback.completed.inj hhead
      have htop := (h.open_iff _).mp (hopen _ (List.mem_append_right _ List.mem_cons_self))
      rw [dispatchedIn_append, completedIn_append, completedIn_completed]
      refine ⟨List.mem_append_left _ (h.mem_dispatchedIn.mpr htop.1), fun child hchild ↦ ?_⟩
      by_cases hdone : child ∈ completedIn told
      · exact List.mem_append_left _ hdone
      · obtain ⟨below, hbelow⟩ := Option.isSome_iff_exists.mp
          ((h.open_iff child).mpr ⟨(h.opened_of_child hchild).1, hdone⟩)
        have hparent := h.parent_eq hbelow hchild
        exact List.mem_append_right _
          (hfinishes.child_before first _ after rfl child below hbelow hparent)

/-- A run that has just begun. Assumes: the root's dispatch is told, and no completion. -/
theorem tracks_begun {told : List Callback} (hdispatched : dispatchedIn told = [rootScope])
    (hcompleted : completedIn told = []) :
    Tracks { opened := [(rootScope, none)] } .initial told := by
  have hentry : ∀ id scope, ScopeTable.initial.entries.get? id = some scope →
      id = rootScope ∧ scope = {} := by
    intro id scope hget
    by_cases hid : rootScope = id
    · simp [ScopeTable.initial, hid] at hget
      exact ⟨hid.symm, hget.symm⟩
    · simp [ScopeTable.initial, hid] at hget
  constructor
  case tree => exact ScopeTable.tree_initial
  case dispatched_eq => exact hdispatched
  case next_eq => rfl
  case open_iff =>
    intro id
    rw [hcompleted]
    by_cases hid : rootScope = id
    · subst hid
      simp [ScopeTable.initial]
    · have hlt : ¬ id < rootScope + 1 := fun hlt ↦ hid (Nat.lt_one_iff.mp hlt).symm
      simp [ScopeTable.initial, hid, hlt]
  case entry =>
    intro id scope hget
    obtain ⟨rfl, rfl⟩ := hentry id scope hget
    simp
  case completed_after =>
    rintro before id later rfl
    simp [completedIn, Callback.completed?] at hcompleted
  all_goals simp [hcompleted, ScopeTable.initial]

end Lineage

namespace EngineCall

/-- Whether a call begins or ends a run of some name. -/
def restarts (run : RunId) : EngineCall → Bool
  | .execute _ other _ | .endRun other => other == run
  | _ => false

end EngineCall

namespace HostRecord

theorem callbacks_receiveAll (h : HostRecord) (callbacks : List Callback) :
    (h.receiveAll callbacks).callbacks = h.callbacks ++ callbacks := by
  induction callbacks generalizing h with
  | nil => simp [receiveAll]
  | cons callback rest ih =>
    have hrest := ih (h.receive callback)
    simpa [receiveAll, receive] using hrest

end HostRecord

namespace Session

/-- What the host of a run was told after its first callbacks. -/
def toldSince (s : Session) (run : RunId) (heard : Nat) : List Callback :=
  (s.host run).callbacks.drop heard

/-- The scopes of a run after some calls and their answers, from what they were before. -/
def lineage (graph : Graph) (run : RunId) (heard : Nat) :
    Session → Lineage → List EngineCall → Lineage
  | _, l, [] => l
  | s, l, call :: calls =>
    let (answer, next) := s.step call
    lineage graph run heard next (l.after graph run (s.toldSince run heard) call answer) calls

theorem host_accept {α : Type} (s : Session) (run other : RunId) (reply : Interpreter.Reply α) :
    (s.accept run reply).host other =
      if run = other then (s.host run).receiveAll reply.callbacks else s.host other := by
  unfold host accept
  rw [Table.get?_insert]
  split_ifs <;> rfl

theorem toldSince_accept {α : Type} (s : Session) {run : RunId} {heard : Nat}
    (hheard : heard ≤ (s.host run).callbacks.length) (reply : Interpreter.Reply α) :
    (s.accept run reply).toldSince run heard = s.toldSince run heard ++ reply.callbacks := by
  rw [toldSince, host_accept, if_pos rfl, HostRecord.callbacks_receiveAll, toldSince,
    List.drop_append_of_le_length hheard]

/-- A run is under way, and a lineage tracks it. -/
structure Follows (s : Session) (graph : Graph) (run : RunId) (heard : Nat) (l : Lineage) :
    Prop where
  heard_le : heard ≤ (s.host run).callbacks.length
  active : ∃ active, s.interpreter.runs.get? run = some active ∧ active.graph = graph ∧
    l.Tracks active.scopes (s.toldSince run heard)

variable {s : Session} {graph : Graph} {run : RunId} {heard : Nat} {l : Lineage}

/-- What concerns another run changes nothing. -/
theorem Follows.of_same {next : Session} (h : s.Follows graph run heard l)
    (hhost : next.host run = s.host run)
    (hruns : next.interpreter.runs.get? run = s.interpreter.runs.get? run) :
    next.Follows graph run heard l := by
  obtain ⟨hheard, active, hactive, hgraph, htracks⟩ := h
  refine ⟨by rw [hhost]; exact hheard, active, hruns.trans hactive, hgraph, ?_⟩
  rw [toldSince, hhost]
  exact htracks

/-- Assumes: a reply that tells the host of the run some more and leaves its scopes as a lineage
tracks them. -/
theorem Follows.accept {α : Type} {later : Lineage} {reply : Interpreter.Reply α}
    {active : ActiveRun} (hheard : heard ≤ (s.host run).callbacks.length)
    (hactive : reply.state.runs.get? run = some active) (hgraph : active.graph = graph)
    (htracks : later.Tracks active.scopes (s.toldSince run heard ++ reply.callbacks)) :
    (s.accept run reply).Follows graph run heard later := by
  refine ⟨?_, active, hactive, hgraph, ?_⟩
  · rw [host_accept, if_pos rfl, HostRecord.callbacks_receiveAll, List.length_append]
    omega
  · rw [toldSince_accept s hheard]
    exact htracks

theorem Follows.trigger (h : s.Follows graph run heard l) (hwired : graph.Wired) (scope : Nat)
    (node pin : String) :
    (s.step (.trigger run scope node pin)).2.Follows graph run heard
      (l.after graph run (s.toldSince run heard) (.trigger run scope node pin)
        (s.step (.trigger run scope node pin)).1) := by
  obtain ⟨hheard, active, hactive, rfl, htracks⟩ := h
  have htriggers := Interpreter.triggers_trigger hactive hwired scope node pin (s.host run).bindings
  simp only [Session.step]
  generalize s.interpreter.trigger run scope node pin (s.host run).bindings = reply at htriggers
  cases htriggers with
  | refused error hpin =>
    exact .accept hheard hactive rfl (by rw [List.append_nil]; exact htracks)
  | unwired hpin =>
    refine .accept hheard (Table.get?_insert_self _ _ _) rfl ?_
    simp only [Lineage.after, EngineAnswer.ofExcept, ↓reduceIte, hpin]
    exact htracks.openUnwired scope
  | wired next hpin hnext =>
    refine .accept hheard (Table.get?_insert_self _ _ _) rfl ?_
    simp only [Lineage.after, EngineAnswer.ofExcept, ↓reduceIte, hpin]
    exact htracks.openWired scope (dispatchedIn_startNode _ _ _ _) (completedIn_startNode _ _ _ _)

theorem Follows.finish (h : s.Follows graph run heard l) (scope : Nat) :
    (s.step (.finish run scope)).2.Follows graph run heard
      (l.after graph run (s.toldSince run heard) (.finish run scope)
        (s.step (.finish run scope)).1) := by
  obtain ⟨hheard, active, hactive, rfl, htracks⟩ := h
  simp only [Session.step]
  cases hfinish : active.scopes.finish scope with
  | none =>
    rw [Interpreter.finish_refused hactive hfinish]
    exact .accept hheard hactive rfl (by rw [List.append_nil]; exact htracks)
  | some finished =>
    obtain ⟨closed, scopes⟩ := finished
    rw [Interpreter.finish_accepted hactive hfinish]
    refine .accept hheard (Table.get?_insert_self _ _ _) rfl ?_
    simp only [Lineage.after, EngineAnswer.ofExcept, ↓reduceIte]
    exact htracks.finish (ScopeTable.finishes_of_finish htracks.tree hfinish)

/-- A call that neither begins nor ends the run. -/
theorem Follows.step (h : s.Follows graph run heard l) (hwired : graph.Wired) {call : EngineCall}
    (hcall : call.restarts run = false) :
    (s.step call).2.Follows graph run heard
      (l.after graph run (s.toldSince run heard) call (s.step call).1) := by
  cases call with
  | load registry text =>
    exact h.of_same rfl (congrArg (·.get? run) (Interpreter.runs_load s.interpreter registry text))
  | execute handle other inputs =>
    have hne : other ≠ run := fun heq ↦ by simp [EngineCall.restarts, heq] at hcall
    refine h.of_same ?_ (Interpreter.get?_runs_execute hne _ _ _)
    rw [Session.step, host_accept, if_neg hne]
  | trigger other scope node pin =>
    by_cases hother : other = run
    · subst hother
      exact h.trigger hwired scope node pin
    · have hsame : l.after graph run (s.toldSince run heard) (.trigger other scope node pin)
          (s.step (.trigger other scope node pin)).1 = l := by
        unfold Lineage.after
        split <;> simp_all
      rw [hsame]
      refine h.of_same ?_ (Interpreter.get?_runs_trigger hother _ _ _ _)
      rw [Session.step, host_accept, if_neg hother]
  | finish other scope =>
    by_cases hother : other = run
    · subst hother
      exact h.finish scope
    · have hsame : l.after graph run (s.toldSince run heard) (.finish other scope)
          (s.step (.finish other scope)).1 = l := by
        unfold Lineage.after
        split <;> simp_all
      rw [hsame]
      refine h.of_same ?_ (Interpreter.get?_runs_finish hother _)
      rw [Session.step, host_accept, if_neg hother]
  | endRun other =>
    have hne : other ≠ run := fun heq ↦ by simp [EngineCall.restarts, heq] at hcall
    refine h.of_same rfl ?_
    simp [Session.step, Interpreter.endRun, hne]
  | release handle => exact h.of_same rfl rfl

/-- Beginning a run of an accepted graph. The host's earlier callbacks are not of this run. -/
theorem follows_execute {handle : Nat} (hgraph : s.interpreter.graphs.get? handle = some graph)
    (hwired : graph.Wired) (run : RunId) (inputs : Inputs) :
    (s.step (.execute handle run inputs)).1 = .scope rootScope ∧
      (s.step (.execute handle run inputs)).2.Follows graph run (s.host run).callbacks.length
        (.start graph) := by
  have htold : s.toldSince run (s.host run).callbacks.length = [] := by
    rw [toldSince, List.drop_length]
  have hexecutes := Interpreter.executes_execute hgraph hwired run inputs (s.host run).bindings
  simp only [Session.step]
  generalize s.interpreter.execute handle run inputs (s.host run).bindings = reply at hexecutes
  cases hexecutes with
  | entered entry hentry =>
    have hnodes : graph.nodes.isEmpty = false := by
      have hsome : graph.nodes ≠ [] := List.ne_nil_of_mem hentry
      simpa using hsome
    refine ⟨rfl, .accept (Nat.le_refl _) (Table.get?_insert_self _ _ _) rfl ?_⟩
    rw [htold, List.nil_append, Lineage.start, hnodes]
    exact Lineage.tracks_begun (dispatchedIn_startNode _ _ _ _) (completedIn_startNode _ _ _ _)
  | nodeless hnodes =>
    refine ⟨rfl, .accept (Nat.le_refl _) (Table.get?_insert_self _ _ _) rfl ?_⟩
    rw [htold, List.nil_append, Lineage.start, hnodes]
    have hbegun : Lineage.Tracks { opened := [(rootScope, none)] } .initial
        [.dispatched rootScope] := Lineage.tracks_begun rfl rfl
    exact hbegun.finish
      (ScopeTable.finishes_of_finish ScopeTable.tree_initial ScopeTable.finish_initial)

theorem Follows.calls (h : s.Follows graph run heard l) (hwired : graph.Wired)
    {calls : List EngineCall} (hcalls : ∀ call ∈ calls, call.restarts run = false) :
    (s.run calls).Follows graph run heard (lineage graph run heard s l calls) := by
  induction calls generalizing s l with
  | nil => exact h
  | cons call calls ih =>
    have hstep := h.step hwired (hcalls call List.mem_cons_self)
    exact ih hstep fun other hother ↦ hcalls other (List.mem_cons_of_mem _ hother)

/-- Scope completion over whole runs. Executing an accepted graph answers its root scope, and
whatever calls follow, as long as none of them begins or ends the run by that name, what the host
was told since then obeys the law of completion for the scopes that the calls have made. -/
theorem obeyed_of_calls (s : Session) {handle : Nat} {graph : Graph}
    (hgraph : s.interpreter.graphs.get? handle = some graph) (haccepted : graph.Accepted)
    (run : RunId) (inputs : Inputs) {calls : List EngineCall}
    (hcalls : ∀ call ∈ calls, call.restarts run = false) :
    (s.step (.execute handle run inputs)).1 = .scope rootScope ∧
      let begun := (s.step (.execute handle run inputs)).2
      let heard := (s.host run).callbacks.length
      (lineage graph run heard begun (.start graph) calls).Obeyed
        ((begun.run calls).toldSince run heard) := by
  have hwired := haccepted.wired
  obtain ⟨hanswer, hfollows⟩ := follows_execute hgraph hwired run inputs
  obtain ⟨-, active, -, -, htracks⟩ := hfollows.calls hwired hcalls
  exact ⟨hanswer, htracks.obeyed⟩

/-- The sequence returns before its branches do, one branch returns twice, and one is triggered
again from a scope that has closed. -/
theorem obeyed_of_forked_calls :
    let s : Session := { interpreter := { graphs := .ofList [(1, .forked)] } }
    let calls : List EngineCall := [
      .trigger 5 0 "fork" "then_0", .trigger 5 0 "fork" "then_1", .trigger 5 0 "fork" "then_2",
      .finish 5 0, .finish 5 2, .finish 5 2, .trigger 5 2 "fork" "then_0",
      .finish 6 0, .trigger 5 0 "fork" "missing", .finish 5 1]
    let begun := (s.step (.execute 1 5 {})).2
    s.interpreter.graphs.get? 1 = some .forked ∧ Graph.forked.Accepted ∧
      (∀ call ∈ calls, call.restarts 5 = false) ∧
      completedIn ((begun.run calls).toldSince 5 0) = [3, 2, 1, 0] ∧
      (lineage .forked 5 0 begun (.start .forked) calls).Obeyed ((begun.run calls).toldSince 5 0) :=
  ⟨rfl, Graph.forked_accepted, by decide, rfl,
    (obeyed_of_calls { interpreter := { graphs := .ofList [(1, .forked)] } } rfl
      Graph.forked_accepted 5 {} (by decide)).2⟩

end Session

end Blueprint

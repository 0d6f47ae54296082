import Blueprint.Proofs.Interpreter.Refusals

/-!
Isolation of runs. What a call about a run answers, tells and leaves is made from the record of that
run, what its host holds and, to begin a run, one loaded graph (`Interpreter.Reply.Agrees`). So two
sessions that are alike in some runs and in the graphs that are still to be executed stay alike and
take the same turns, whatever else differs (`Session.Alike.step`). Leaving moments out of a session
keeps it alike as long as they are about other runs or release graphs that are not executed again
(`Session.Alike.skip_call`, `Session.Alike.skip_release`).

A run that has been ended stays unknown until it is executed again (`Session.Over.step`), and a
released handle stays unknown for good, as handles only grow (`Session.Retired.step`).
`Session.isolated` gathers this for every session.
-/

set_option autoImplicit false

namespace Blueprint

namespace EngineCall

/-- Whether a call is about a run, or about graphs. -/
def concerns (run : RunId) (call : EngineCall) : Bool := call.run?.all (· == run)

/-- Whether a call is anything but a release. -/
def retains : EngineCall → Bool
  | .release _ => false
  | _ => true

theorem retains_eq_false_iff {call : EngineCall} :
    call.retains = false ↔ ∃ handle, call = .release handle := by
  cases call <;> simp [retains]

end EngineCall

namespace Moment

/-- Whether a moment is about a run, or about graphs. -/
def concerns (run : RunId) (moment : Moment) : Bool := moment.run?.all (· == run)

theorem concerns_eq_false_iff {run : RunId} {moment : Moment} :
    moment.concerns run = false ↔ ∃ other, moment.run? = some other ∧ other ≠ run := by
  unfold concerns
  cases moment.run? <;> simp

/-- Whether a moment is anything but a release. -/
def retains : Moment → Bool
  | .call c => c.retains
  | .put .. => true

end Moment

namespace Interpreter

variable {e v : Interpreter} {run : RunId}

/-- Two replies say the same and leave the same of a run. -/
structure Reply.Agrees {α : Type} (run : RunId) (a b : Reply α) : Prop where
  outcome_eq : a.outcome = b.outcome
  callbacks_eq : a.callbacks = b.callbacks
  run_eq : a.state.runs.get? run = b.state.runs.get? run

theorem agrees_finish (hrun : e.runs.get? run = v.runs.get? run) (scope : Nat) :
    (e.finish run scope).Agrees run (v.finish run scope) := by
  unfold finish
  rw [hrun]
  split
  · exact ⟨rfl, rfl, hrun⟩
  · split
    · exact ⟨rfl, rfl, hrun⟩
    · exact ⟨rfl, rfl, by rw [Table.get?_insert_self, Table.get?_insert_self]⟩

theorem agrees_trigger (hrun : e.runs.get? run = v.runs.get? run) (scope : Nat)
    (node pin : String) (view : Bindings) :
    (e.trigger run scope node pin view).Agrees run (v.trigger run scope node pin view) := by
  unfold trigger
  rw [hrun]
  split
  · exact ⟨rfl, rfl, hrun⟩
  · split
    · exact ⟨rfl, rfl, hrun⟩
    · split
      · exact ⟨rfl, rfl, hrun⟩
      · exact ⟨rfl, rfl, by rw [Table.get?_insert_self, Table.get?_insert_self]⟩

theorem agrees_execute {handle : Nat} (hgraph : e.graphs.get? handle = v.graphs.get? handle)
    (hrun : e.runs.get? run = v.runs.get? run) (inputs : Inputs) (view : Bindings) :
    (e.execute handle run inputs view).Agrees run (v.execute handle run inputs view) := by
  unfold execute
  rw [hgraph]
  split
  · exact ⟨rfl, rfl, hrun⟩
  · split
    · exact ⟨rfl, rfl, by rw [Table.get?_insert_self, Table.get?_insert_self]⟩
    · rename_i graph _ _ _
      have hbegun : (e.runs.insert run { graph, inputs, scopes := .initial }).get? run =
          (v.runs.insert run { graph, inputs, scopes := .initial }).get? run := by
        rw [Table.get?_insert_self, Table.get?_insert_self]
      have hover := agrees_finish (e := { e with runs := _ }) (v := { v with runs := _ }) hbegun
        rootScope
      exact ⟨congrArg (Except.map fun _ ↦ rootScope) hover.outcome_eq,
        congrArg (.dispatched rootScope :: ·) hover.callbacks_eq, hover.run_eq⟩

end Interpreter

namespace Session

variable {s v : Session}

/-! ### Sessions that are alike -/

/-- Two sessions are alike in some runs, with their hosts, and in some graphs. -/
structure Alike (runs : RunId → Prop) (graphs : Nat → Prop) (s v : Session) : Prop where
  host_eq : ∀ run, runs run → s.host run = v.host run
  run_eq : ∀ run, runs run → s.interpreter.runs.get? run = v.interpreter.runs.get? run
  graph_eq : ∀ handle, graphs handle →
    s.interpreter.graphs.get? handle = v.interpreter.graphs.get? handle
  lastHandle_eq : s.interpreter.lastHandle = v.interpreter.lastHandle

/-- Two sessions answer a call alike and tell the same. -/
structure SameTurn (s v : Session) (call : EngineCall) : Prop where
  answer_eq : (s.step call).1 = (v.step call).1
  callbacks_eq : s.callbacks call = v.callbacks call

section Turns

variable {keep : EngineCall → Bool} {call : EngineCall} {rest left : List Moment}

/-- A turn that both sessions take. -/
theorem SameTurn.turns_eq (hturn : SameTurn s v call) (hkeep : keep call = true)
    (hturns : (v.step call).2.turns left =
      ((s.step call).2.turns rest).filter fun turn ↦ keep turn.call) :
    v.turns (.call call :: left) =
      (s.turns (.call call :: rest)).filter fun turn ↦ keep turn.call := by
  simp only [turns, List.filter_cons, hkeep, if_true, hturns, hturn.answer_eq, hturn.callbacks_eq]

/-- A turn that only the first session takes. -/
theorem turns_eq_of_left_out (hkeep : keep call = false)
    (hturns : v.turns left = ((s.step call).2.turns rest).filter fun turn ↦ keep turn.call) :
    v.turns left = (s.turns (.call call :: rest)).filter fun turn ↦ keep turn.call := by
  simp only [turns, List.filter_cons, hkeep, Bool.false_eq_true, if_false, hturns]

end Turns

namespace Alike

variable {runs : RunId → Prop} {graphs : Nat → Prop}

theorem refl (s : Session) : Alike runs graphs s s :=
  ⟨fun _ _ ↦ rfl, fun _ _ ↦ rfl, fun _ _ ↦ rfl, rfl⟩

theorem mono (h : Alike runs graphs s v) {fewer : Nat → Prop}
    (hfewer : ∀ handle, fewer handle → graphs handle) : Alike runs fewer s v :=
  { h with graph_eq := fun handle hhandle ↦ h.graph_eq handle (hfewer handle hhandle) }

/-- A call about one of the runs. Assumes: an execute is of one of the graphs. -/
theorem sameTurn (h : Alike runs graphs s v) {call : EngineCall} {run : RunId}
    (hcall : call.run? = some run) (hrun : runs run)
    (hgraph : ∀ handle inputs, call = .execute handle run inputs → graphs handle) :
    SameTurn s v call ∧ (s.step call).2.interpreter.runs.get? run =
      (v.step call).2.interpreter.runs.get? run := by
  have hsame := h.run_eq run hrun
  have hview : (s.host run).bindings = (v.host run).bindings :=
    congrArg HostRecord.bindings (h.host_eq run hrun)
  cases call with
  | load registry text => cases hcall
  | release handle => cases hcall
  | endRun other =>
    obtain rfl := Option.some.inj hcall
    refine ⟨⟨rfl, rfl⟩, ?_⟩
    change (s.interpreter.runs.erase other).get? other = (v.interpreter.runs.erase other).get? other
    rw [Table.get?_erase, Table.get?_erase, if_pos rfl, if_pos rfl]
  | execute handle other inputs =>
    obtain rfl := Option.some.inj hcall
    have hreply := Interpreter.agrees_execute (h.graph_eq handle (hgraph handle inputs rfl)) hsame
      inputs (v.host other).bindings
    refine ⟨⟨?_, ?_⟩, ?_⟩
    · simp only [Session.step, hview, hreply.outcome_eq]
    · simp only [callbacks, hview, hreply.callbacks_eq]
    · simp only [Session.step, accept, hview]
      exact hreply.run_eq
  | trigger other scope node pin =>
    obtain rfl := Option.some.inj hcall
    have hreply := Interpreter.agrees_trigger hsame scope node pin (v.host other).bindings
    refine ⟨⟨?_, ?_⟩, ?_⟩
    · simp only [Session.step, hview, hreply.outcome_eq]
    · simp only [callbacks, hview, hreply.callbacks_eq]
    · simp only [Session.step, accept, hview]
      exact hreply.run_eq
  | finish other scope =>
    obtain rfl := Option.some.inj hcall
    have hreply := Interpreter.agrees_finish hsame scope
    refine ⟨⟨?_, hreply.callbacks_eq⟩, hreply.run_eq⟩
    simp only [Session.step, hreply.outcome_eq]

/-- Alike sessions take a turn together. Assumes: the call is about one of the runs, if about any,
and an execute is of one of the graphs. -/
theorem step (h : Alike runs graphs s v) {call : EngineCall}
    (hruns : ∀ run, call.run? = some run → runs run)
    (hgraphs : ∀ handle run inputs, call = .execute handle run inputs → graphs handle) :
    SameTurn s v call ∧ Alike runs graphs (s.step call).2 (v.step call).2 := by
  cases hcall : call.run? with
  | some run =>
    obtain ⟨hturn, hrun⟩ := h.sameTurn hcall (hruns run hcall) (hgraphs · run)
    have hsome : call.run?.isSome := by rw [hcall]; rfl
    obtain ⟨hgraphsS, hlastS⟩ := s.graphs_step hsome
    obtain ⟨hgraphsV, hlastV⟩ := v.graphs_step hsome
    refine ⟨hturn, fun other hother ↦ ?_, fun other hother ↦ ?_, fun handle hhandle ↦ ?_, ?_⟩
    · by_cases hne : call.run? = some other
      · rw [s.host_step_self hne, v.host_step_self hne, hturn.callbacks_eq, h.host_eq other hother]
      · rw [s.host_step_of_ne hne, v.host_step_of_ne hne, h.host_eq other hother]
    · by_cases hne : call.run? = some other
      · obtain rfl := Option.some.inj (hcall.symm.trans hne)
        exact hrun
      · rw [s.get?_runs_step hne, v.get?_runs_step hne, h.run_eq other hother]
    · rw [hgraphsS, hgraphsV, h.graph_eq handle hhandle]
    · rw [hlastS, hlastV, h.lastHandle_eq]
  | none =>
    cases call with
    | load registry text =>
      obtain ⟨error, hload⟩ | ⟨_, graph, -, -, hload⟩ := Interpreter.load_cases registry text
      · simp only [Session.step, hload]
        refine ⟨⟨?_, rfl⟩, h.host_eq, h.run_eq, h.graph_eq, h.lastHandle_eq⟩
        simp only [Session.step, hload]
      · refine ⟨⟨?_, rfl⟩, ?_⟩
        · simp only [Session.step, hload, h.lastHandle_eq]
        · simp only [Session.step, hload]
          refine ⟨h.host_eq, h.run_eq, fun handle hhandle ↦ ?_, congrArg (· + 1) h.lastHandle_eq⟩
          dsimp only
          rw [Table.get?_insert, Table.get?_insert, h.lastHandle_eq, h.graph_eq handle hhandle]
    | release handle =>
      refine ⟨⟨rfl, rfl⟩, h.host_eq, h.run_eq, fun other hother ↦ ?_, h.lastHandle_eq⟩
      change (s.interpreter.graphs.erase handle).get? other =
        (v.interpreter.graphs.erase handle).get? other
      rw [Table.get?_erase, Table.get?_erase, h.graph_eq other hother]
    | execute handle run inputs => cases hcall
    | trigger run scope node pin => cases hcall
    | finish run scope => cases hcall
    | endRun run => cases hcall

theorem put (h : Alike runs graphs s v) (run : RunId) (node pin : String) (value : Value) :
    Alike runs graphs (s.put run node pin value) (v.put run node pin value) := by
  refine ⟨fun other hother ↦ ?_, h.run_eq, h.graph_eq, h.lastHandle_eq⟩
  by_cases hne : run = other
  · subst hne
    rw [host_put_self, host_put_self, h.host_eq run hother]
  · rw [host_put s hne, host_put v hne, h.host_eq other hother]

/-! ### Moments left out -/

/-- Leaving out a call about another run. -/
theorem skip_call (h : Alike runs graphs s v) {call : EngineCall} {run : RunId}
    (hcall : call.run? = some run) (hrun : ¬ runs run) : Alike runs graphs (s.step call).2 v := by
  have hne {other : RunId} (hother : runs other) : call.run? ≠ some other := fun heq ↦
    hrun (Option.some.inj (hcall.symm.trans heq) ▸ hother)
  obtain ⟨hgraphs, hlast⟩ := s.graphs_step (by rw [hcall]; rfl)
  refine ⟨fun other hother ↦ ?_, fun other hother ↦ ?_, fun handle hhandle ↦ ?_, ?_⟩
  · rw [s.host_step_of_ne (hne hother), h.host_eq other hother]
  · rw [s.get?_runs_step (hne hother), h.run_eq other hother]
  · rw [hgraphs, h.graph_eq handle hhandle]
  · rw [hlast, h.lastHandle_eq]

theorem skip_put (h : Alike runs graphs s v) {run : RunId} (hrun : ¬ runs run) (node pin : String)
    (value : Value) : Alike runs graphs (s.put run node pin value) v := by
  refine ⟨fun other hother ↦ ?_, h.run_eq, h.graph_eq, h.lastHandle_eq⟩
  have hne : run ≠ other := fun heq ↦ hrun (heq ▸ hother)
  rw [host_put s hne, h.host_eq other hother]

/-- Leaving out a release. Assumes: the graph is not one that matters, or is not loaded. -/
theorem skip_release (h : Alike runs graphs s v) {handle : Nat}
    (hhandle : graphs handle → s.interpreter.graphs.get? handle = none) :
    Alike runs graphs (s.step (.release handle)).2 v := by
  refine ⟨h.host_eq, h.run_eq, fun other hother ↦ ?_, h.lastHandle_eq⟩
  change (s.interpreter.graphs.erase handle).get? other = _
  rw [Table.get?_erase]
  split_ifs with heq
  · subst heq
    rw [← h.graph_eq handle hother, hhandle hother]
  · exact h.graph_eq other hother

/-- Leaving out all that other runs do. -/
theorem filter_concerns {run : RunId} (h : Alike (· = run) (fun _ ↦ True) s v)
    (moments : List Moment) :
    v.turns (moments.filter (·.concerns run)) =
        (s.turns moments).filter (·.call.concerns run) ∧
      Alike (· = run) (fun _ ↦ True) (s.after moments)
        (v.after (moments.filter (·.concerns run))) := by
  induction moments generalizing s v with
  | nil => exact ⟨rfl, h⟩
  | cons moment rest ih =>
    cases hconcerns : moment.concerns run with
    | true =>
      rw [List.filter_cons_of_pos hconcerns]
      have hrun : ∀ other, moment.run? = some other → other = run := fun other hother ↦ by
        simpa [Moment.concerns, hother] using hconcerns
      cases moment with
      | call call =>
        obtain ⟨hturn, hlater⟩ := h.step hrun fun _ _ _ _ ↦ trivial
        obtain ⟨hturns, halike⟩ := ih hlater
        exact ⟨hturn.turns_eq hconcerns hturns, halike⟩
      | put other node pin value => exact ih (h.put other node pin value)
    | false =>
      rw [List.filter_cons_of_neg (ne_true_of_eq_false hconcerns)]
      obtain ⟨other, hother, hne⟩ := Moment.concerns_eq_false_iff.mp hconcerns
      cases moment with
      | call call =>
        obtain ⟨hturns, halike⟩ := ih (h.skip_call hother hne)
        exact ⟨turns_eq_of_left_out hconcerns hturns, halike⟩
      | put other node pin value =>
        obtain rfl := Option.some.inj hother
        exact ih (h.skip_put hne node pin value)

end Alike

/-! ### Releases -/

/-- Some moment executes a graph. -/
def Awaits (moments : List Moment) (handle : Nat) : Prop :=
  ∃ run inputs, Moment.call (.execute handle run inputs) ∈ moments

/-- No graph is executed after its release. Releasing a handle under which nothing is loaded is no
release of a graph. -/
def Orderly (s : Session) (moments : List Moment) : Prop :=
  ∀ before handle later, moments = before ++ .call (.release handle) :: later →
    ((s.after before).interpreter.graphs.get? handle).isSome → ¬ Awaits later handle

theorem Orderly.tail {moment : Moment} {rest : List Moment} (h : s.Orderly (moment :: rest)) :
    (s.happen moment).Orderly rest := by
  rintro before handle later rfl hloaded
  exact h (moment :: before) handle later rfl hloaded

/-- Assumes: no graph is executed after a release of its handle, loaded or not. -/
theorem orderly_of_pairwise (s : Session) {moments : List Moment}
    (h : moments.Pairwise fun first second ↦ ∀ handle, first = .call (.release handle) →
      ∀ run inputs, second ≠ .call (.execute handle run inputs)) : s.Orderly moments := by
  rintro before handle later rfl - ⟨run, inputs, hmem⟩
  have hlater := (List.pairwise_cons.mp (List.pairwise_append.mp h).2.1).1
  exact hlater _ hmem handle rfl run inputs rfl

/-- Leaving out all releases. -/
theorem Alike.filter_retains {moments : List Moment} (h : Alike (fun _ ↦ True) (Awaits moments) s v)
    (horderly : s.Orderly moments) :
    v.turns (moments.filter (·.retains)) = (s.turns moments).filter (·.call.retains) ∧
      Alike (fun _ ↦ True) (fun _ ↦ False) (s.after moments)
        (v.after (moments.filter (·.retains))) := by
  induction moments generalizing s v with
  | nil => exact ⟨rfl, h.mono fun _ ↦ False.elim⟩
  | cons moment rest ih =>
    have hlater : ∀ handle, Awaits rest handle → Awaits (moment :: rest) handle :=
      fun handle ⟨run, inputs, hmem⟩ ↦ ⟨run, inputs, List.mem_cons_of_mem _ hmem⟩
    cases moment with
    | put run node pin value =>
      exact ih ((h.mono hlater).put run node pin value) horderly.tail
    | call call =>
      cases hretains : (Moment.call call).retains with
      | true =>
        have hexecutes : ∀ handle run inputs, call = .execute handle run inputs →
            Awaits (.call call :: rest) handle :=
          fun handle run inputs hcall ↦ ⟨run, inputs, hcall ▸ List.mem_cons_self⟩
        obtain ⟨hturn, halike⟩ := h.step (fun _ _ ↦ trivial) hexecutes
        obtain ⟨hturns, hafter⟩ := ih (halike.mono hlater) horderly.tail
        rw [List.filter_cons_of_pos hretains]
        exact ⟨hturn.turns_eq hretains hturns, hafter⟩
      | false =>
        rw [List.filter_cons_of_neg (ne_true_of_eq_false hretains)]
        obtain ⟨handle, rfl⟩ := EngineCall.retains_eq_false_iff.mp hretains
        have halike : Alike (fun _ ↦ True) (Awaits rest) (s.step (.release handle)).2 v := by
          refine (h.mono hlater).skip_release fun hawaits ↦ ?_
          by_contra hloaded
          exact horderly [] handle rest rfl (Option.isSome_iff_ne_none.mpr hloaded) hawaits
        obtain ⟨hturns, hafter⟩ := ih halike horderly.tail
        exact ⟨turns_eq_of_left_out hretains hturns, hafter⟩

end Session

namespace Turn

/-- The turn has begun a run. -/
def Begins (run : RunId) (turn : Turn) : Prop :=
  ∃ handle inputs scope, turn.call = .execute handle run inputs ∧ turn.answer = .scope scope

/-- The turn is a trigger or a finish in a run. -/
def Resumes (run : RunId) (turn : Turn) : Prop :=
  (∃ scope node pin, turn.call = .trigger run scope node pin) ∨
    ∃ scope, turn.call = .finish run scope

end Turn

namespace Session

variable {s v : Session}

theorem mem_turns_cons {moment : Moment} {rest : List Moment} {turn : Turn}
    (h : turn ∈ (s.happen moment).turns rest) : turn ∈ s.turns (moment :: rest) := by
  cases moment with
  | call call => exact List.mem_cons_of_mem _ h
  | put run node pin value => exact h

/-! ### Ended runs -/

/-- A run is not under way, and its host has been told what it has been told. -/
structure Over (run : RunId) (told : List Callback) (s : Session) : Prop where
  run_eq : s.interpreter.runs.get? run = none
  told_eq : (s.host run).callbacks = told

/-- Assumes: the run is not begun by the call. Nothing is done in a run that is over. -/
theorem Over.step {run : RunId} {told : List Callback} (h : s.Over run told) (hkept : s.Kept)
    {call : EngineCall}
    (hbegins : ¬ Turn.Begins run ⟨call, (s.step call).1, s.callbacks call⟩) :
    (s.step call).2.Over run told ∧ (call.run? = some run → s.callbacks call = []) ∧
      (Turn.Resumes run ⟨call, (s.step call).1, s.callbacks call⟩ →
        (s.step call).1 = .refused (.unknownRun run)) := by
  by_cases hcall : call.run? = some run
  · have hrefused {error : EngineError} (hanswer : (s.step call).1 = .refused error) :
        (s.step call).2.Over run told ∧ s.callbacks call = [] := by
      obtain ⟨hsame, hsilent⟩ := hkept.spotless hanswer
      refine ⟨⟨?_, ?_⟩, hsilent⟩
      · rw [hsame, h.run_eq]
      · rw [s.host_step_of_silent hsilent, h.told_eq]
    cases call with
    | load registry text => cases hcall
    | release handle => cases hcall
    | execute handle other inputs =>
      obtain rfl := Option.some.inj hcall
      obtain ⟨id, hanswer⟩ | ⟨error, hanswer⟩ := EngineAnswer.ofExcept_cases .scope
        (s.interpreter.execute handle other inputs (s.host other).bindings).outcome
      · exact absurd ⟨handle, inputs, id, rfl, hanswer⟩ hbegins
      · obtain ⟨hover, hsilent⟩ := hrefused hanswer
        refine ⟨hover, fun _ ↦ hsilent, ?_⟩
        rintro (⟨_, _, _, heq⟩ | ⟨_, heq⟩) <;> cases heq
    | trigger other scope node pin =>
      obtain rfl := Option.some.inj hcall
      have hanswer : (s.step (.trigger other scope node pin)).1 = .refused (.unknownRun other) :=
        hkept.refused_iff.mpr (.triggersNoRun h.run_eq)
      obtain ⟨hover, hsilent⟩ := hrefused hanswer
      exact ⟨hover, fun _ ↦ hsilent, fun _ ↦ hanswer⟩
    | finish other scope =>
      obtain rfl := Option.some.inj hcall
      have hanswer : (s.step (.finish other scope)).1 = .refused (.unknownRun other) :=
        hkept.refused_iff.mpr (.finishesNoRun h.run_eq)
      obtain ⟨hover, hsilent⟩ := hrefused hanswer
      exact ⟨hover, fun _ ↦ hsilent, fun _ ↦ hanswer⟩
    | endRun other =>
      obtain rfl := Option.some.inj hcall
      refine ⟨⟨?_, h.told_eq⟩, fun _ ↦ rfl, ?_⟩
      · change (s.interpreter.runs.erase other).get? other = none
        rw [Table.get?_erase, if_pos rfl]
      · rintro (⟨_, _, _, heq⟩ | ⟨_, heq⟩) <;> cases heq
  · refine ⟨⟨?_, ?_⟩, fun heq ↦ absurd heq hcall, ?_⟩
    · rw [s.get?_runs_step hcall, h.run_eq]
    · rw [s.host_step_of_ne hcall, h.told_eq]
    · rintro (⟨_, _, _, rfl⟩ | ⟨_, rfl⟩) <;> exact absurd rfl hcall

/-- What becomes of a run that is over, until it is begun again. -/
theorem Over.after {run : RunId} {told : List Callback} (h : s.Over run told) (hkept : s.Kept)
    {moments : List Moment} (hbegins : ∀ turn ∈ s.turns moments, ¬ turn.Begins run) :
    (s.after moments).Over run told ∧ ∀ turn ∈ s.turns moments,
      (turn.call.run? = some run → turn.told = []) ∧
        (turn.Resumes run → turn.answer = .refused (.unknownRun run)) := by
  induction moments generalizing s with
  | nil => exact ⟨h, fun turn hturn ↦ nomatch hturn⟩
  | cons moment rest ih =>
    have hrest : ∀ turn ∈ (s.happen moment).turns rest, ¬ turn.Begins run :=
      fun turn hturn ↦ hbegins turn (mem_turns_cons hturn)
    cases moment with
    | put other node pin value =>
      have hput : (s.put other node pin value).Over run told :=
        ⟨h.run_eq, (callbacks_put s other run node pin value).trans h.told_eq⟩
      exact ih hput (hkept.happen (.put other node pin value)) hrest
    | call call =>
      obtain ⟨hover, hturn⟩ := h.step hkept (hbegins _ List.mem_cons_self)
      obtain ⟨hafter, hturns⟩ := ih hover (hkept.step call) hrest
      exact ⟨hafter, List.forall_mem_cons.mpr ⟨hturn, hturns⟩⟩

/-! ### Released handles -/

/-- A handle is given out by a load only, and is the one after the last. -/
theorem lastHandle_of_graph {call : EngineCall} {handle : Nat}
    (h : (s.step call).1 = .graph handle) :
    handle = s.interpreter.lastHandle + 1 ∧ (s.step call).2.interpreter.lastHandle = handle := by
  obtain ⟨hnone, -⟩ | ⟨graph, -, hanswer, -, hlast⟩ | ⟨released, hanswer, -⟩ :=
    s.graphs_step_cases call
  · exact absurd h (hnone handle)
  · obtain rfl := EngineAnswer.graph.inj (hanswer.symm.trans h)
    exact ⟨rfl, hlast⟩
  · cases hanswer.symm.trans h

theorem lastHandle_le_step (s : Session) (call : EngineCall) :
    s.interpreter.lastHandle ≤ (s.step call).2.interpreter.lastHandle := by
  obtain ⟨-, -, hlast⟩ | ⟨graph, -, -, -, hlast⟩ | ⟨released, -, -, hlast⟩ :=
    s.graphs_step_cases call
  · exact Nat.le_of_eq hlast.symm
  · exact hlast ▸ Nat.le_succ _
  · exact Nat.le_of_eq hlast.symm

theorem lastHandle_le_after (s : Session) (moments : List Moment) :
    s.interpreter.lastHandle ≤ (s.after moments).interpreter.lastHandle := by
  induction moments generalizing s with
  | nil => exact Nat.le_refl _
  | cons moment rest ih =>
    refine Nat.le_trans ?_ (ih (s.happen moment))
    cases moment with
    | call call => exact s.lastHandle_le_step call
    | put run node pin value => exact Nat.le_refl _

theorem le_lastHandle_of_turn {moments : List Moment} {turn : Turn} {handle : Nat}
    (hturn : turn ∈ s.turns moments) (hanswer : turn.answer = .graph handle) :
    handle ≤ (s.after moments).interpreter.lastHandle := by
  induction moments generalizing s with
  | nil => cases hturn
  | cons moment rest ih =>
    cases moment with
    | put run node pin value => exact ih hturn
    | call call =>
      obtain rfl | hturn := List.mem_cons.mp hturn
      · rw [← (lastHandle_of_graph hanswer).2]
        exact lastHandle_le_after _ rest
      · exact ih hturn

/-- A handle was given out, and nothing is loaded under it. -/
structure Retired (handle : Nat) (s : Session) : Prop where
  graph_eq : s.interpreter.graphs.get? handle = none
  le_lastHandle : handle ≤ s.interpreter.lastHandle

/-- A retired handle is not given out again, nor taken. -/
theorem Retired.step {handle : Nat} (h : s.Retired handle) (call : EngineCall) :
    (s.step call).2.Retired handle ∧ (s.step call).1 ≠ .graph handle ∧
      ∀ run inputs, call = .execute handle run inputs →
        (s.step call).1 = .refused (.unknownGraph handle) := by
  have hnew : s.interpreter.lastHandle + 1 ≠ handle :=
    Nat.ne_of_gt (Nat.lt_succ_of_le h.le_lastHandle)
  refine ⟨⟨?_, Nat.le_trans h.le_lastHandle (s.lastHandle_le_step call)⟩, fun hanswer ↦ ?_, ?_⟩
  · obtain ⟨-, hsame, -⟩ | ⟨graph, -, -, hgraphs, -⟩ | ⟨released, -, hgraphs, -⟩ :=
      s.graphs_step_cases call
    · rw [hsame, h.graph_eq]
    · rw [hgraphs, Table.get?_insert_of_ne _ hnew, h.graph_eq]
    · rw [hgraphs, Table.get?_erase, h.graph_eq, ite_self]
  · exact hnew (lastHandle_of_graph hanswer).1.symm
  · rintro run inputs rfl
    simp only [Session.step, Interpreter.execute, h.graph_eq]
    rfl

theorem Retired.after {handle : Nat} (h : s.Retired handle) (moments : List Moment) :
    (s.after moments).Retired handle ∧ ∀ turn ∈ s.turns moments, turn.answer ≠ .graph handle ∧
      ∀ run inputs, turn.call = .execute handle run inputs →
        turn.answer = .refused (.unknownGraph handle) := by
  induction moments generalizing s with
  | nil => exact ⟨h, fun turn hturn ↦ nomatch hturn⟩
  | cons moment rest ih =>
    cases moment with
    | put run node pin value =>
      have hput : (s.put run node pin value).Retired handle := ⟨h.graph_eq, h.le_lastHandle⟩
      exact ih hput
    | call call =>
      obtain ⟨hretired, hturn⟩ := h.step call
      obtain ⟨hafter, hturns⟩ := ih hretired
      exact ⟨hafter, List.forall_mem_cons.mpr ⟨hturn, hturns⟩⟩

/-! ### The law of isolation -/

/-- How the runs of a session, from its start, are kept apart from each other and from releases. -/
structure Isolated (moments : List Moment) : Prop where
  /-- A call leaves the scopes of other runs and what their hosts hold and were told. -/
  apart : ∀ call run, call.run? ≠ some run →
    ((({} : Session).after moments).step call).2.interpreter.runs.get? run =
        (({} : Session).after moments).interpreter.runs.get? run ∧
      ((({} : Session).after moments).step call).2.host run =
        (({} : Session).after moments).host run
  /-- A run takes the turns it would take if all others were left out. -/
  alone : ∀ run,
    ({} : Session).turns (moments.filter (·.concerns run)) =
        (({} : Session).turns moments).filter (·.call.concerns run) ∧
      (({} : Session).after (moments.filter (·.concerns run))).host run =
        (({} : Session).after moments).host run
  /-- Without releases all other calls answer and tell the same. -/
  unreleased : ({} : Session).Orderly moments →
    ({} : Session).turns (moments.filter (·.retains)) =
        (({} : Session).turns moments).filter (·.call.retains) ∧
      ∀ run, (({} : Session).after (moments.filter (·.retains))).host run =
        (({} : Session).after moments).host run
  /-- Until a run that was ended is begun again, it is unknown and its host is told nothing. -/
  ended : ∀ before run later, moments = before ++ .call (.endRun run) :: later →
    (∀ turn ∈ (({} : Session).after (before ++ [.call (.endRun run)])).turns later,
      ¬ turn.Begins run) →
    (∀ turn ∈ (({} : Session).after (before ++ [.call (.endRun run)])).turns later,
        (turn.call.run? = some run → turn.told = []) ∧
          (turn.Resumes run → turn.answer = .refused (.unknownRun run))) ∧
      ((({} : Session).after moments).host run).callbacks =
        ((({} : Session).after before).host run).callbacks
  /-- A handle that was given out and released is never given out again, and nothing is ever loaded
  under it. -/
  retired : ∀ before handle later, moments = before ++ .call (.release handle) :: later →
    (∃ turn ∈ ({} : Session).turns before, turn.answer = .graph handle) →
    (∀ turn ∈ (({} : Session).after (before ++ [.call (.release handle)])).turns later,
        turn.answer ≠ .graph handle ∧ ∀ run inputs, turn.call = .execute handle run inputs →
          turn.answer = .refused (.unknownGraph handle)) ∧
      (({} : Session).after moments).interpreter.graphs.get? handle = none

/-- Runs are isolated, whatever happens. -/
theorem isolated (moments : List Moment) : Isolated moments where
  apart call run hrun := ⟨get?_runs_step _ hrun, host_step_of_ne _ hrun⟩
  alone run := by
    obtain ⟨hturns, halike⟩ := (Alike.refl {}).filter_concerns moments
    exact ⟨hturns, (halike.host_eq run rfl).symm⟩
  unreleased horderly := by
    obtain ⟨hturns, halike⟩ := (Alike.refl {}).filter_retains horderly
    exact ⟨hturns, fun run ↦ (halike.host_eq run trivial).symm⟩
  ended := by
    rintro before run later rfl hbegins
    rw [after_append] at hbegins ⊢
    have hover : ((({} : Session).after before).step (.endRun run)).2.Over run
        ((({} : Session).after before).host run).callbacks := by
      refine ⟨?_, rfl⟩
      change ((({} : Session).after before).interpreter.runs.erase run).get? run = none
      rw [Table.get?_erase, if_pos rfl]
    obtain ⟨hafter, hturns⟩ := hover.after ((kept_after before).step _) hbegins
    refine ⟨hturns, ?_⟩
    rw [after_append]
    exact hafter.told_eq
  retired := by
    rintro before handle later rfl ⟨turn, hturn, hanswer⟩
    have hretired : ((({} : Session).after before).step (.release handle)).2.Retired handle := by
      refine ⟨?_, le_lastHandle_of_turn hturn hanswer⟩
      change ((({} : Session).after before).interpreter.graphs.erase handle).get? handle = none
      rw [Table.get?_erase, if_pos rfl]
    obtain ⟨hafter, hturns⟩ := hretired.after later
    rw [after_append, after_append]
    exact ⟨hturns, hafter.graph_eq⟩

/-- A graph is released while run 5 is on it, and the run goes on, is ended, and is begun again on
a graph that is loaded under another handle. -/
theorem isolated_of_released_graph :
    let text := "\x7b\"nodes\": [\x7b\"id\": \"a\", \"kind\": \"log\", " ++
      "\"links\": \x7b\"then\": \"a\"\x7d\x7d]\x7d"
    let before : List Moment := [.call (.load .standard text), .call (.execute 1 5 {})]
    let later : List Moment := [.call (.trigger 5 0 "a" "then"), .call (.endRun 5),
      .call (.finish 5 0), .call (.load .standard text), .call (.execute 2 5 {})]
    let moments := before ++ .call (.release 1) :: later
    (({} : Session).turns moments).map (·.answer) = [.graph 1, .scope 0, .done, .scope 1, .done,
        .refused (.unknownRun 5), .graph 2, .scope 0] ∧
      ({} : Session).Orderly moments ∧
      ({} : Session).turns (before ++ later) =
        (({} : Session).turns moments).filter (·.call.retains) ∧
      (∃ turn ∈ ({} : Session).turns before, turn.answer = .graph 1) ∧
      (({} : Session).after moments).interpreter.graphs.get? 1 = none := by
  intro text before later moments
  have horderly : ({} : Session).Orderly moments :=
    orderly_of_pairwise _ (by simp [moments, before, later])
  have hhanded : ∃ turn ∈ ({} : Session).turns before, turn.answer = .graph 1 :=
    ⟨_, List.mem_cons_self, by cbv⟩
  exact ⟨by cbv, horderly, ((isolated moments).unreleased horderly).1, hhanded,
    ((isolated moments).retired before 1 later rfl hhanded).2⟩

end Session

end Blueprint

import Blueprint.Proofs.Run.Standing

/-!
What has ended. The machine keeps what has ended of each run with the other events; a journal tells
of it by what two machines differ in (`Machine.since`). Here it is what each operation adds to it:
only `Machine.conclude` does (`endings_conclude`), and only for the run it is about.
-/

set_option autoImplicit false

namespace Blueprint.Machine

variable {m m' : Machine} {run other : RunId} {c : Context}

theorem endings_of_events (h : m'.events = m.events) (run : RunId) :
    m'.endings run = m.endings run := by
  rw [endings, h, endings]

theorem endings_record_fired (m : Machine) (owner : RunId) (firing : Firing) (outputs : Inputs)
    (run : RunId) : (m.record (.fired owner firing outputs)).endings run = m.endings run := by
  simp [endings, record]

theorem endings_onComplete (m : Machine) (owner : RunId) (handler : CompletionHandler)
    (run : RunId) : (m.onComplete owner handler).endings run = m.endings run := by
  unfold onComplete
  split
  · rfl
  · dsimp only
    split
    · exact endings_record_fired _ _ _ _ _
    · rfl

theorem endings_note (m : Machine) (owner : RunId) (callback : Callback) (run : RunId) :
    (m.note owner callback).endings run = m.endings run := by
  cases callback with
  | dispatched | bind | invoke => rfl
  | completed scope =>
    simp only [note, completed]
    split
    · rfl
    · split
      · exact endings_record_fired _ _ _ _ _
      · rfl

theorem endings_noteAll (m : Machine) (owner : RunId) (callbacks : List Callback) (run : RunId) :
    (callbacks.foldl (fun m callback ↦ m.note owner callback) m).endings run = m.endings run := by
  induction callbacks generalizing m with
  | nil => rfl
  | cons first rest ih => exact (ih _).trans (endings_note m owner first run)

theorem endings_record_ended (m : Machine) (owner : RunId) (call : NodeCall) (ending : Ending)
    (accepted : Bool) (run : RunId) :
    (m.record (.ended owner call ending accepted)).endings run =
      m.endings run ++ if owner = run then [(call, ending, accepted)] else [] := by
  simp only [endings, record, List.reverse_cons, List.filterMap_append]
  by_cases howner : owner = run
  · simp [howner]
  · simp [howner]

theorem finishScope_fst (m : Machine) (run : RunId) (scope : Nat) :
    (m.finishScope run scope).1 = (m.world.interpreter.finish run scope).outcome.isOk := by
  unfold finishScope
  dsimp only
  split
  · rename_i houtcome
    rw [houtcome]
    rfl
  · rename_i houtcome
    rw [houtcome]
    rfl

theorem endings_finishScope (m : Machine) (owner : RunId) (scope : Nat) (run : RunId) :
    (m.finishScope owner scope).2.endings run = m.endings run := by
  rw [finishScope_snd, endings_noteAll]
  exact endings_of_events rfl run

/-- What the interpreter answers is kept with what has ended. -/
theorem endings_conclude (m : Machine) (owner : RunId) (call : NodeCall) (ending : Ending)
    (run : RunId) :
    (m.conclude owner call ending).endings run = m.endings run ++
      if owner = run then
        [(call, ending, (m.world.interpreter.finish owner call.scope).outcome.isOk)]
      else [] := by
  have hrecord (counted : Machine) (hinterpreter : counted.world = m.world)
      (hevents : counted.events = m.events) :
      ((counted.finishScope owner call.scope).2.record
        (.ended owner call ending (counted.finishScope owner call.scope).1)).endings run =
          m.endings run ++ if owner = run then
            [(call, ending, (m.world.interpreter.finish owner call.scope).outcome.isOk)]
          else [] := by
    rw [endings_record_ended, endings_finishScope, finishScope_fst, hinterpreter,
      endings_of_events hevents]
  unfold conclude
  cases ending.isDone with
  | true => exact hrecord m rfl rfl
  | false => exact hrecord (m.modifyContext owner _) rfl rfl

/-- Assumes: a node that has returned on a scope that is open, if the run is under way. -/
theorem isOk_finish {scope : Nat} (h : (m.view run).Accepts scope) :
    (m.world.interpreter.finish run scope).outcome.isOk = (m.view run).active.isSome := by
  change _ = (m.world.interpreter.runs.get? run).isSome
  cases hactive : m.world.interpreter.runs.get? run with
  | none =>
    rw [Interpreter.finish_of_no_run hactive]
    rfl
  | some active =>
    obtain ⟨⟨closed, scopes⟩, hfinish⟩ := Option.isSome_iff_exists.mp (h active hactive)
    rw [Interpreter.finish_accepted hactive hfinish]
    rfl

/-! ### What two machines differ in -/

theorem since_of_eq (hendings : m'.endings run = m.endings run)
    (hactive : (m.view run).active.isSome = true → (m'.view run).active.isSome = true) :
    m.since m' run = [] := by
  have hopen : ((m.world.interpreter.runs.get? run).isSome &&
      (m'.world.interpreter.runs.get? run).isNone) = false := by
    change ((m.view run).active.isSome && (m'.view run).active.isNone) = false
    cases hsome : (m.view run).active.isSome with
    | false => rfl
    | true => simpa using hactive hsome
  rw [since, hendings, List.drop_length, hopen]
  rfl

/-- Assumes: nothing has ended of the run between two machines, and it is not closed after them. -/
theorem since_of_later {told : Machine} (hendings : told.endings run = m.endings run)
    (hsome : (m'.view run).active.isSome = true) : m.since m' run = told.since m' run := by
  have hopen : (m'.world.interpreter.runs.get? run).isNone = false := by
    rw [← Option.not_isSome]
    exact (Bool.not_eq_false' ..).mpr hsome
  rw [since, since, hendings, hopen, Bool.and_false, Bool.and_false]

/-- Assumes: one invocation has ended, and the run has not been closed. -/
theorem since_of_ended {call : NodeCall} {ending : Ending} {accepted : Bool}
    (hendings : m'.endings run = m.endings run ++ [(call, ending, accepted)])
    (hactive : (m'.view run).active.isSome = (m.view run).active.isSome) :
    m.since m' run = [.ended call ending accepted] := by
  have hopen : ((m.world.interpreter.runs.get? run).isSome &&
      (m'.world.interpreter.runs.get? run).isNone) = false := by
    change ((m.view run).active.isSome && (m'.view run).active.isNone) = false
    rw [← hactive, ← Option.not_isSome, Bool.and_not_self]
  rw [since, hendings, List.drop_left, hopen]
  rfl

theorem since_congr {before after : Machine} (hendings : before.endings run = m.endings run)
    (hactive : (before.view run).active.isSome = (m.view run).active.isSome)
    (hafter : after.endings run = m'.endings run)
    (hlater : (after.view run).active.isSome = (m'.view run).active.isSome) :
    before.since after run = m.since m' run := by
  change (before.world.interpreter.runs.get? run).isSome =
    (m.world.interpreter.runs.get? run).isSome at hactive
  change (after.world.interpreter.runs.get? run).isSome =
    (m'.world.interpreter.runs.get? run).isSome at hlater
  rw [since, since, hendings, hafter, hactive, ← Option.not_isSome, ← Option.not_isSome, hlater]

/-! ### Operations with which nothing ends -/

theorem events_spawn (m : Machine) (a : Activity) : (m.spawn a).events = m.events := by
  unfold spawn
  split
  · rfl
  · split_ifs <;> rfl

/-- Assumes: a kind of node that is known. -/
theorem events_invoke {kind : NodeKind} {call : NodeCall}
    (hkind : m.provider.registry.get? call.kind = some kind) (run : RunId) :
    (m.invoke run call).events = m.events := by
  unfold invoke
  split
  · rfl
  · simp only [hkind]
    split
    · exact events_spawn m _
    · split_ifs <;> rfl

theorem events_takeTickets (run : RunId) (scopes : List Nat) (m : Machine) :
    (takeTickets run scopes m).2.events = m.events := by
  induction scopes generalizing m with
  | nil => rfl
  | cons scope rest ih =>
    rw [takeTickets]
    split
    · rfl
    · exact ih _

theorem events_beginFetch (m : Machine) (id : String) : (m.beginFetch id).2.events = m.events := by
  unfold beginFetch
  split <;> rfl

theorem events_resume (m : Machine) (progress : Progress) :
    (m.resume progress).2.events = m.events := by
  cases progress <;> rfl

theorem endings_accept_of_quiet {α : Type} (reply : Interpreter.Reply α)
    (hquiet : ∀ callback ∈ reply.callbacks, ∀ call, callback ≠ .invoke call) (owner run : RunId) :
    (m.accept owner reply).endings run = m.endings run := by
  rw [accept, receiveAll_of_quiet _ _ hquiet, endings_noteAll]
  exact endings_of_events rfl run

/-! ### Other runs -/

theorem endings_invoke_of_ne (hne : run ≠ other) (call : NodeCall) :
    (m.invoke run call).endings other = m.endings other := by
  unfold invoke
  split
  · rfl
  · split
    · rw [endings_conclude, if_neg hne, List.append_nil]
    · split
      · exact endings_of_events (events_spawn m _) other
      · dsimp only
        split_ifs <;> rfl

theorem endings_receive_of_ne (hne : run ≠ other) (callback : Callback) :
    (m.receive run callback).endings other = m.endings other := by
  cases callback with
  | invoke call => exact endings_invoke_of_ne hne call
  | dispatched scope => exact endings_note m run (.dispatched scope) other
  | completed scope => exact endings_note m run (.completed scope) other
  | bind node pin value => exact endings_note m run (.bind node pin value) other

theorem endings_accept_of_ne {α : Type} (hne : run ≠ other) (reply : Interpreter.Reply α) :
    (m.accept run reply).endings other = m.endings other := by
  have hreceived (callbacks : List Callback) (m : Machine) :
      (callbacks.foldl (fun m callback ↦ m.receive run callback) m).endings other =
        m.endings other := by
    induction callbacks generalizing m with
    | nil => rfl
    | cons first rest ih => exact (ih _).trans (endings_receive_of_ne hne first)
  exact hreceived reply.callbacks (m.withInterpreter reply.state)

theorem endings_start_of_ne (hne : run ≠ other) (inputs : Inputs) :
    (m.start run inputs).2.endings other = m.endings other := by
  unfold start
  split
  · rfl
  · exact endings_accept_of_ne hne _

end Blueprint.Machine

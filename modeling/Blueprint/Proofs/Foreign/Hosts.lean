import Blueprint.Foreign.Session
import Blueprint.Proofs.Table

/-!
The hosts of an engine in a foreign library. A run gets its host before the library is called, and
loses it when the library refuses; what the run had before is not put back. So a refusal leaves
every other run with its host and the run itself with none (`ForeignEngine.Withdrawn`), and all is
as it was exactly if the run had no host to lose (`ForeignEngine.sameHosts_iff_of_refusal`).
-/

set_option autoImplicit false

namespace Blueprint

namespace ForeignEngine

variable {e before after : ForeignEngine} {run : RunId}

/-- The same runs have hosts, and the same ones. -/
def SameHosts (e other : ForeignEngine) : Prop :=
  ∀ run, e.hosts.get? run = other.hosts.get? run

/-- What an engine is like when it took back a run: the run has no host, the others have theirs. -/
structure Withdrawn (before after : ForeignEngine) (run : RunId) : Prop where
  gone : after.hosts.get? run = none
  others : ∀ other, other ≠ run → after.hosts.get? other = before.hosts.get? other

/-- Nothing was lost exactly if there was nothing to lose. -/
theorem Withdrawn.sameHosts_iff (h : Withdrawn before after run) :
    after.SameHosts before ↔ before.hosts.get? run = none := by
  constructor
  · intro hsame
    rw [← hsame run, h.gone]
  · intro hnone other
    by_cases hother : other = run
    · rw [hother, h.gone, hnone]
    · exact h.others other hother

theorem withdrawn_detach_attach (e : ForeignEngine) (run : RunId) (host : Nat) :
    Withdrawn e ((e.attach run host).detach run) run where
  gone := by simp [attach, detach]
  others := by
    intro other hother
    simp [attach, detach, Ne.symm hother]

/-- A refusal is a negative answer, and the run is taken back. -/
theorem executed_refused {answer : Int} {error : EngineError}
    (h : (e.executed run answer).1 = .error error) :
    answer < 0 ∧ (e.executed run answer).2 = e.detach run := by
  unfold executed at h ⊢
  split
  · rename_i hanswer
    exact ⟨hanswer, rfl⟩
  · rename_i hanswer
    rw [if_neg hanswer] at h
    cases h

theorem withdrawn_execute {host : Nat} {answer : Int} {error : EngineError}
    (h : (e.execute run host answer).1 = .error error) :
    Withdrawn e (e.execute run host answer).2 run := by
  rw [execute, (executed_refused h).2]
  exact withdrawn_detach_attach e run host

end ForeignEngine

namespace ForeignSession

/-- What the library asks of hosts is nothing to the engine. -/
theorem serve_leaves (s : ForeignSession) (run : RunId) (call : HostCall) :
    (s.serve run call).2.engine = s.engine ∧ (s.serve run call).2.script = s.script := by
  unfold serve
  dsimp only
  split
  · exact ⟨rfl, rfl⟩
  · split
    · split <;> exact ⟨rfl, rfl⟩
    · exact ⟨rfl, rfl⟩

theorem serveAll_leaves (run : RunId) (calls : List HostCall) (s : ForeignSession) :
    (serveAll run calls s).2.engine = s.engine ∧ (serveAll run calls s).2.script = s.script := by
  induction calls generalizing s with
  | nil => exact ⟨rfl, rfl⟩
  | cons call rest ih =>
    obtain ⟨hengine, hscript⟩ := serve_leaves s run call
    exact ⟨(ih _).1.trans hengine, (ih _).2.trans hscript⟩

/-- Whatever the library asks for meanwhile, the engine is left as by its own call. -/
theorem step_execute (s : ForeignSession) (graph : Nat) (run : RunId) (inputs : Inputs) :
    (s.step (.execute graph run inputs)).1 =
        .ofExcept .scope (s.engine.execute run run s.script.execute).1 ∧
      (s.step (.execute graph run inputs)).2.2.engine =
        (s.engine.execute run run s.script.execute).2 := by
  obtain ⟨hengine, hscript⟩ := serveAll_leaves run s.script.onExecute
    { s with engine := s.engine.attach run run, hosts := s.hosts.insert run (s.host run) }
  unfold step
  dsimp only
  rw [hengine, hscript]
  exact ⟨rfl, rfl⟩

theorem withdrawn_step {s : ForeignSession} {graph : Nat} {run : RunId} {inputs : Inputs}
    {error : EngineError} (h : (s.step (.execute graph run inputs)).1 = .refused error) :
    s.engine.Withdrawn (s.step (.execute graph run inputs)).2.2.engine run := by
  obtain ⟨hanswer, hengine⟩ := step_execute s graph run inputs
  rw [hanswer] at h
  rw [hengine]
  cases houtcome : (s.engine.execute run run s.script.execute).1 with
  | ok scope =>
    rw [houtcome] at h
    cases h
  | error e => exact ForeignEngine.withdrawn_execute houtcome

end ForeignSession

namespace ForeignEngine

variable {e after : ForeignEngine} {run : RunId}

/-- The ways in which an engine comes to another state when a run is refused: by its own call, for
any host and any answer, and in a session, where the library asks for things meanwhile. -/
inductive Refusal (e : ForeignEngine) (run : RunId) : ForeignEngine → Prop
  | called (host : Nat) {answer : Int} {error : EngineError}
      (h : (e.execute run host answer).1 = .error error) :
      Refusal e run (e.execute run host answer).2
  | scripted (s : ForeignSession) (hengine : s.engine = e) (graph : Nat) (inputs : Inputs)
      {error : EngineError} (h : (s.step (.execute graph run inputs)).1 = .refused error) :
      Refusal e run (s.step (.execute graph run inputs)).2.2.engine

theorem Refusal.withdrawn (h : e.Refusal run after) : e.Withdrawn after run := by
  cases h with
  | called host h => exact withdrawn_execute h
  | scripted s hengine graph inputs h => exact hengine ▸ ForeignSession.withdrawn_step h

/-- A refused run loses the host that it had before, all others keep theirs: the hosts are as they
were exactly if the run had none. -/
theorem sameHosts_iff_of_refusal (h : e.Refusal run after) :
    e.Withdrawn after run ∧ (after.SameHosts e ↔ e.hosts.get? run = none) :=
  ⟨h.withdrawn, h.withdrawn.sameHosts_iff⟩

end ForeignEngine

namespace ForeignSession

/-- A session in which the first run was started, with a library that refuses from then on and calls
back first. -/
def refusing : ForeignSession :=
  { (({} : ForeignSession).step (.execute 1 1 {})).2.2 with
    script := { execute := -5, onExecute := [{ request := .dispatched 0 }] } }

theorem refuses_refusing (run : RunId) :
    (refusing.step (.execute 1 run {})).1 =
      .refused (.foreign "bp_execute" s!"returned {(-5 : Int)}") := rfl

end ForeignSession

namespace ForeignEngine

/-- The second run is refused, and the first one still has its host. -/
theorem sameHosts_of_refusing :
    ForeignSession.refusing.engine.hosts.get? 1 = some 1 ∧
      (ForeignSession.refusing.step (.execute 1 2 {})).2.2.engine.SameHosts
        ForeignSession.refusing.engine :=
  ⟨rfl, (sameHosts_iff_of_refusal
    (.scripted _ rfl 1 {} (ForeignSession.refuses_refusing 2))).2.mpr rfl⟩

/-- The first run is refused when it is started once more, and then has no host: a request of the
library for it is not served. -/
theorem not_sameHosts_of_refusing :
    (∃ error, (ForeignSession.refusing.step (.execute 1 1 {})).1 = .refused error) ∧
      ¬ (ForeignSession.refusing.step (.execute 1 1 {})).2.2.engine.SameHosts
          ForeignSession.refusing.engine ∧
      (ForeignSession.refusing.callBack 1 { request := .dispatched 0 }).1 = some .done ∧
      ((ForeignSession.refusing.step (.execute 1 1 {})).2.2.callBack 1
        { request := .dispatched 0 }).1 = none := by
  refine ⟨⟨_, ForeignSession.refuses_refusing 1⟩, ?_, rfl, rfl⟩
  intro hsame
  exact absurd (hsame 1) (by decide)

end ForeignEngine

end Blueprint

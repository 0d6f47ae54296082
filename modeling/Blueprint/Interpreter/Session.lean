import Blueprint.Interpreter.Basic

/-!
An interpreter and hosts that only record. Each run has a host of its own, which keeps every
callback in order, stores what is bound and never calls back.
-/

set_option autoImplicit false

namespace Blueprint

/-- What a recording host holds. -/
structure HostRecord where
  /-- Callbacks so far, in order. -/
  callbacks : List Callback := []
  bindings : Bindings := {}

instance : Inhabited HostRecord := ⟨{}⟩

namespace HostRecord

def receive (h : HostRecord) (callback : Callback) : HostRecord :=
  let bindings := match callback with
    | .bind node pin value => h.bindings.insert (node, pin) value
    | _ => h.bindings
  { callbacks := h.callbacks ++ [callback], bindings }

def receiveAll (h : HostRecord) (callbacks : List Callback) : HostRecord :=
  callbacks.foldl receive h

end HostRecord

/-- One call on an engine. -/
inductive EngineCall where
  | load (registry : Registry) (text : String)
  | execute (handle : Nat) (run : RunId) (inputs : Inputs)
  | trigger (run : RunId) (scope : Nat) (node pin : String)
  | finish (run : RunId) (scope : Nat)
  | endRun (run : RunId)
  | release (handle : Nat)

/-- What a call answers. -/
inductive EngineAnswer where
  | graph (handle : Nat)
  | scope (id : Nat)
  | done
  | refused (error : EngineError)
deriving DecidableEq

def EngineAnswer.ofExcept {α : Type} (answer : α → EngineAnswer) :
    Except EngineError α → EngineAnswer
  | .ok value => answer value
  | .error error => .refused error

structure Session where
  interpreter : Interpreter := {}
  hosts : Table RunId HostRecord := {}

namespace Session

def host (s : Session) (run : RunId) : HostRecord := (s.hosts.get? run).getD {}

/-- Takes over a reply that concerns one run. -/
def accept {α : Type} (s : Session) (run : RunId) (reply : Interpreter.Reply α) : Session :=
  { interpreter := reply.state
    hosts := s.hosts.insert run ((s.host run).receiveAll reply.callbacks) }

def step (s : Session) : EngineCall → EngineAnswer × Session
  | .load registry text =>
    let (outcome, interpreter) := s.interpreter.load registry text
    (.ofExcept .graph outcome, { s with interpreter })
  | .execute handle run inputs =>
    let reply := s.interpreter.execute handle run inputs (s.host run).bindings
    (.ofExcept .scope reply.outcome, s.accept run reply)
  | .trigger run scope node pin =>
    let reply := s.interpreter.trigger run scope node pin (s.host run).bindings
    (.ofExcept .scope reply.outcome, s.accept run reply)
  | .finish run scope =>
    let reply := s.interpreter.finish run scope
    (.ofExcept (fun _ ↦ .done) reply.outcome, s.accept run reply)
  | .endRun run => (.done, { s with interpreter := s.interpreter.endRun run })
  | .release handle => (.done, { s with interpreter := s.interpreter.release handle })

/-- The session after some calls. -/
def run (s : Session) (calls : List EngineCall) : Session :=
  calls.foldl (fun s call ↦ (s.step call).2) s

end Session

end Blueprint

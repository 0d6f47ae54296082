import Blueprint.Foreign.Engine
import Blueprint.Interpreter.Session

/-!
A library that follows a script, an engine over it, and hosts that only record. Everything that the
library notes is told: the calls on it, and what the host answered to its requests.
-/

set_option autoImplicit false

namespace Blueprint

/-- A request for the host of a run, or for none when the pointer to it is null. -/
structure HostCall where
  attached : Bool := true
  request : HostRequest

/-- What the library answers, and what it asks for while a run is started. -/
structure LibraryScript where
  load : Nat := 1
  execute : Int := 0
  trigger : Int := 1
  finish : Int := 0
  version : ForeignText := none
  inputs : List (ForeignText × ForeignText) := []
  outputs : List (ForeignText × ForeignText) := []
  onExecute : List HostCall := []

/-- What a request comes to. -/
inductive HostAnswer where
  | done
  | output (returned : Int) (memory : Bytes)
deriving DecidableEq

/-- What the library notes. -/
inductive LibraryNote where
  | called (call : LibraryCall)
  | answered (answer : HostAnswer)
deriving DecidableEq

structure ForeignSession where
  script : LibraryScript := {}
  engine : ForeignEngine := {}
  hosts : Table RunId HostRecord := {}

namespace ForeignSession

def host (s : ForeignSession) (run : RunId) : HostRecord := (s.hosts.get? run).getD {}

/-- Serves a request for the host of a run. -/
def serve (s : ForeignSession) (run : RunId) (call : HostCall) : HostAnswer × ForeignSession :=
  let host := s.host run
  match call.request with
  | .read node pin memory points capacity =>
    let read (node pin : String) : HostReading :=
      if call.attached then .holds (host.bindings.get? (node, pin)) else .silent
    let (returned, after) := readOutput read node pin (if points then some memory else none) capacity
    (.output returned (after.getD memory), s)
  | request =>
    match request.callback? with
    | some callback =>
      if call.attached then
        (.done, { s with hosts := s.hosts.insert run (host.receive callback) })
      else (.done, s)
    | none => (.done, s)

/-- Serves requests one after another. -/
def serveAll (run : RunId) : List HostCall → ForeignSession → List HostAnswer × ForeignSession
  | [], s => ([], s)
  | call :: rest, s =>
    let (answer, s) := s.serve run call
    let (answers, s) := serveAll run rest s
    (answer :: answers, s)

/-- A request that the library makes on its own: only a run that is active has a host. -/
def callBack (s : ForeignSession) (run : RunId) (call : HostCall) :
    Option HostAnswer × ForeignSession :=
  if s.engine.hosts.contains run then
    let (answer, s) := s.serve run call
    (some answer, s)
  else (none, s)

/-- One call on the engine; the host of a run has the run's number. -/
def step (s : ForeignSession) : EngineCall → EngineAnswer × List LibraryNote × ForeignSession
  | .load registry text =>
    let (calls, outcome) := ForeignEngine.load registry text s.script.load
    (.ofExcept .graph outcome, calls.map .called, s)
  | .execute graph run inputs =>
    let attached := { s with
      engine := s.engine.attach run run, hosts := s.hosts.insert run (s.host run) }
    let (answers, s) := attached.serveAll run s.script.onExecute
    let (outcome, engine) := s.engine.executed run s.script.execute
    (.ofExcept .scope outcome,
      .called (.execute graph run ((Value.allToJson inputs).compact)) :: answers.map .answered,
      { s with engine })
  | .trigger run scope node pin =>
    let (calls, outcome) := ForeignEngine.trigger run scope node pin s.script.trigger
    (.ofExcept .scope outcome, calls.map .called, s)
  | .finish run scope =>
    (.ofExcept (fun _ ↦ .done) (ForeignEngine.finished scope s.script.finish),
      [.called (.finish run scope)], s)
  | .endRun run =>
    (.done, (s.engine.endCalls run).map .called, { s with engine := s.engine.detach run })
  | .release graph => (.done, [.called (.release graph)], s)

end ForeignSession

/-! ### Notes as JSON -/

def HostAnswer.toJson : HostAnswer → Json
  | .done => .null
  | .output returned memory =>
    .ofMembers [("returned", .ofInt returned), ("buffer", .string (Text.ofUtf8Mended memory))]

/-- The call as a row: the function's name, and what it is given. -/
def LibraryCall.row : LibraryCall → List Json
  | .load kinds graph => [.string "bp_load", .string kinds, .string graph]
  | .execute graph run inputs =>
    [.string "bp_execute", .ofInt graph, .string (runName run), .string inputs]
  | .trigger run scope node pin =>
    [.string "bp_trigger", .string (runName run), .ofInt scope, .string node, .string pin]
  | .finish run scope => [.string "bp_finish", .string (runName run), .ofInt scope]
  | .endRun run => [.string "bp_end_run", .string (runName run)]
  | .release graph => [.string "bp_release", .ofInt graph]
  | .version graph => [.string "bp_get_version", .ofInt graph]

def LibraryNote.toJson : LibraryNote → Json
  | .called call => .array call.row
  | .answered answer => .array [.string "callback", answer.toJson]

end Blueprint

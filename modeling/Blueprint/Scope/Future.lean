import Blueprint.Scope.Tracker

/-!
Waiting for scopes by polling. A future for a scope is made at its first poll: it is ready when there
is nothing to wait for, else when its ticket has been let go. A future for the root is ready when the
run has finished. A ready future is forgotten, and a dropped one changes nothing else.
-/

set_option autoImplicit false

namespace Blueprint

inductive Future where
  /-- Holds a ticket. -/
  | ticket (n : Nat)
  /-- There was nothing to wait for. -/
  | ready
  | root
deriving DecidableEq

/-- A tracker with the futures that wait on it. -/
structure Waiting where
  tracker : Tracker := {}
  futures : Table String Future := {}
  nextTicket : Nat := 0

/-- What a poll answers. -/
inductive Polled where
  | ready
  | pending
  | gone
deriving DecidableEq

def Polled.name : Polled → String
  | .ready => "ready"
  | .pending => "pending"
  | .gone => "gone"

namespace Waiting

instance : Inhabited Waiting := ⟨{}⟩

def isReady (w : Waiting) : Future → Bool
  | .ticket n => !w.tracker.isWaiting n
  | .ready => true
  | .root => w.tracker.finished

/-- Polls a future by its name. -/
def poll (w : Waiting) (name : String) : Polled × Waiting :=
  match w.futures.get? name with
  | none => (.gone, w)
  | some future =>
    if w.isReady future then (.ready, { w with futures := w.futures.erase name })
    else (.pending, w)

/-- Makes a future for a scope and polls it once. -/
def waitScope (w : Waiting) (name : String) (scope : Nat) : Polled × Waiting :=
  let (tracker, held) := w.tracker.wait scope w.nextTicket
  let future := if held then Future.ticket w.nextTicket else .ready
  { tracker, futures := w.futures.insert name future, nextTicket := w.nextTicket + 1 : Waiting }.poll
    name

/-- Makes a future for the root and polls it once. -/
def waitRoot (w : Waiting) (name : String) : Polled × Waiting :=
  { w with futures := w.futures.insert name .root }.poll name

/-- Drops a future. -/
def drop (w : Waiting) (name : String) : Waiting := { w with futures := w.futures.erase name }

end Waiting

end Blueprint

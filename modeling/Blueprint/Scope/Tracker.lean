import Blueprint.Scope.Basic
import Blueprint.Table

/-!
Which scopes of a run are pending. A scope is pending from its dispatch until its completion is
reported, once for each dispatch. The completion that clears scope 0 for the first time finishes
the run: the completion handler runs, and only then does the run count as finished.

Whoever waits for a scope holds a ticket. A ticket is let go when its scope clears.
-/

set_option autoImplicit false

namespace Blueprint

/-- What runs when a run finishes; it may give up with a message, which is caught. -/
structure CompletionHandler where
  name : String
  panic : Option String := none
deriving DecidableEq, Repr

/-- One run of a handler, with what it sees of the tracker. -/
structure Firing where
  handler : CompletionHandler
  finished : Bool
  pending : List Nat
deriving DecidableEq, Repr

structure Tracker where
  /-- How many dispatches of a scope are outstanding; a scope that is absent has none. -/
  pending : Table Nat Nat := {}
  /-- Tickets still held, with the scope each waits for. -/
  waiters : List (Nat × Nat) := []
  handler : Option CompletionHandler := none
  /-- Scope 0 has been cleared once. -/
  rootCompleted : Bool := false
  /-- The run is finished: the handler has returned. -/
  finished : Bool := false

namespace Tracker

instance : Inhabited Tracker := ⟨{}⟩

/-- How many dispatches of a scope are outstanding. -/
def count (t : Tracker) (scope : Nat) : Nat := (t.pending.get? scope).getD 0

def isPending (t : Tracker) (scope : Nat) : Bool := t.pending.contains scope

/-- The pending scopes in ascending order. -/
def pendingScopes (t : Tracker) : List Nat := t.pending.keys.mergeSort (· ≤ ·)

def dispatch (t : Tracker) (scope : Nat) : Tracker :=
  { t with pending := t.pending.insert scope (t.count scope + 1) }

/-- What one completion did. -/
structure Completion where
  tracker : Tracker
  /-- This completion finished the run. -/
  finishes : Bool := false
  /-- The tickets let go. -/
  released : List Nat := []
  firing : Option Firing := none

/-- A handler that runs now. -/
def fire (t : Tracker) (handler : CompletionHandler) : Firing :=
  { handler, finished := t.finished, pending := t.pendingScopes }

/-- Reports one completion of a scope. -/
def complete (t : Tracker) (scope : Nat) : Completion :=
  match t.count scope with
  | 0 => { tracker := t }
  | 1 =>
    let released := (t.waiters.filter fun w ↦ w.1 == scope).map (·.2)
    let cleared : Tracker :=
      { t with
        pending := t.pending.erase scope
        waiters := t.waiters.filter fun w ↦ w.1 != scope }
    if scope == rootScope && !t.rootCompleted then
      let closing := { cleared with rootCompleted := true, handler := none }
      { tracker := { closing with finished := true }
        finishes := true
        released
        firing := t.handler.map closing.fire }
    else { tracker := cleared, released }
  | n + 2 => { tracker := { t with pending := t.pending.insert scope (n + 1) } }

/-- Sets the handler in place of an earlier one; once scope 0 has been cleared it runs at once. -/
def onComplete (t : Tracker) (handler : CompletionHandler) : Tracker × Option Firing :=
  if t.rootCompleted then (t, some (t.fire handler))
  else ({ t with handler := some handler }, none)

/-- Starts to wait for a scope with a fresh ticket; false when there is nothing to wait for. -/
def wait (t : Tracker) (scope ticket : Nat) : Tracker × Bool :=
  if t.isPending scope then ({ t with waiters := t.waiters ++ [(scope, ticket)] }, true)
  else (t, false)

/-- Whether a ticket is still held back. -/
def isWaiting (t : Tracker) (ticket : Nat) : Bool := t.waiters.any fun w ↦ w.2 == ticket

end Tracker

end Blueprint

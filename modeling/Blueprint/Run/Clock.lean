import Blueprint.Run.Step

/-!
The schedule that is followed in fact: frames first, then the longest waiting activity that can go
on; only when there is none does time pass, up to the next moment at which something is due.
-/

set_option autoImplicit false

namespace Blueprint.Machine

/-- The task to poll next. -/
def nextReady (m : Machine) : Option Nat :=
  (m.tasks.find? fun (_, a) ↦ m.canGoOn a).map (·.1)

/-- When a suspended activity is due, if it waits for a moment. -/
def dueAt (a : Activity) : Option Nat :=
  match a.progress with
  | .sleeping due _ | .fetchingAsset due _ _ _ _ | .fetchingGraph due _ _ _ => some due
  | _ => none

/-- The earlier of two moments that may be missing. -/
def earlier : Option Nat → Option Nat → Option Nat
  | some a, some b => some (min a b)
  | some a, none => some a
  | none, b => b

/-- The next moment at which a task is due. -/
def nextDue (m : Machine) : Option Nat :=
  m.tasks.foldl (fun found (_, a) ↦ earlier found (dueAt a)) none

/-- How a wait ends. -/
inductive Waited where
  /-- What was waited for has come. -/
  | reached
  /-- The limit was reached before. -/
  | late
  /-- Nothing will ever move again. -/
  | stuck
  /-- The steps were used up. -/
  | unfinished
deriving DecidableEq

/-- The move that the schedule makes while something is waited for up to a limit. -/
def nextMove (m : Machine) (limit : Option Nat) : Option Move :=
  if m.frames.isEmpty then
    match m.nextReady with
    | some task => some (.poll task)
    | none => (earlier m.nextDue limit).map .tick
  else some .advance

/-- Runs the machine until something holds, or up to a limit. -/
def await (holds : Machine → Bool) (limit : Option Nat) : (steps : Nat) → Machine → Waited × Machine
  | 0, m => (.unfinished, m)
  | steps + 1, m =>
    if m.frames.isEmpty && holds m then (.reached, m)
    else if m.frames.isEmpty && limit.any (· ≤ m.now) then (.late, m)
    else
      match m.nextMove limit with
      | some move => await holds limit steps (m.step move)
      | none => (.stuck, m)

/-- Runs what is under way to its end, and no task. -/
def settle : (steps : Nat) → Machine → Waited × Machine
  | 0, m => (.unfinished, m)
  | steps + 1, m => if m.frames.isEmpty then (.reached, m) else settle steps m.advance

end Blueprint.Machine

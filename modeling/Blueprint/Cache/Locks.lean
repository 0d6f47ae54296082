import Blueprint.Table

/-!
Locks by hash. An operation takes the mutex of its hash, made anew when the hash has none, then
waits for it, works, and leaves. The last operation that leaves a mutex takes it out of the table,
so the table names exactly the hashes with an operation under way.
-/

set_option autoImplicit false

namespace Blueprint

/-- An operation under way. -/
structure LockHolder where
  hash : String
  mutex : Nat
  /-- The operation has the mutex, and does not wait for it. -/
  owns : Bool := false
deriving DecidableEq

structure Locks where
  /-- The mutexes in use, by hash. -/
  mutexes : Table String Nat := {}
  /-- The operations under way, by ticket. -/
  holders : Table Nat LockHolder := {}
  nextMutex : Nat := 0
  nextTicket : Nat := 0

namespace Locks

instance : Inhabited Locks := ⟨{}⟩

/-- An operation on a hash begins; answers its ticket. -/
def enter (l : Locks) (hash : String) : Nat × Locks :=
  match l.mutexes.get? hash with
  | some mutex =>
    (l.nextTicket, { l with
      holders := l.holders.insert l.nextTicket { hash, mutex }
      nextTicket := l.nextTicket + 1 })
  | none =>
    (l.nextTicket, { l with
      mutexes := l.mutexes.insert hash l.nextMutex
      holders := l.holders.insert l.nextTicket { hash, mutex := l.nextMutex }
      nextMutex := l.nextMutex + 1
      nextTicket := l.nextTicket + 1 })

/-- Whether some operation has a mutex. -/
def isOwned (l : Locks) (mutex : Nat) : Bool :=
  l.holders.entries.any fun (_, holder) ↦ holder.mutex == mutex && holder.owns

/-- An operation tries to take its mutex, and waits when another one has it. -/
def acquire (l : Locks) (ticket : Nat) : Locks :=
  match l.holders.get? ticket with
  | none => l
  | some holder =>
    if l.isOwned holder.mutex then l
    else { l with holders := l.holders.insert ticket { holder with owns := true } }

/-- Whether an operation other than one holds on to a mutex. -/
def isShared (l : Locks) (ticket mutex : Nat) : Bool :=
  l.holders.entries.any fun (other, holder) ↦ other != ticket && holder.mutex == mutex

/-- An operation ends, wherever it is. -/
def leave (l : Locks) (ticket : Nat) : Locks :=
  match l.holders.get? ticket with
  | none => l
  | some holder =>
    let forgotten := l.mutexes.get? holder.hash == some holder.mutex &&
      !l.isShared ticket holder.mutex
    { l with
      mutexes := if forgotten then l.mutexes.erase holder.hash else l.mutexes
      holders := l.holders.erase ticket }

/-- One move of some operation. -/
inductive Move where
  | enter (hash : String)
  | acquire (ticket : Nat)
  | leave (ticket : Nat)
deriving DecidableEq

def step (l : Locks) : Move → Locks
  | .enter hash => (l.enter hash).2
  | .acquire ticket => l.acquire ticket
  | .leave ticket => l.leave ticket

/-- The locks after some moves. -/
def run (l : Locks) (moves : List Move) : Locks := moves.foldl step l

end Locks

end Blueprint

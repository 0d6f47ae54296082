import Blueprint.Proofs.Cache.Locking

/-!
Operations on the cache on disk that are in flight at the same time. An operation begins, takes the
lock of its hash, makes its requests to the tree of files one at a time, and ends; in between any
others may move, and an operation may be dropped wherever it is (`Traffic.step`). One that is left to
itself comes to what the cache does in one go (`Traffic.alone_eq`).

However they interleave, those on one hash hold on to the same mutex and one of them at most has it;
an operation waits for another one on its hash only; and the table of locks has exactly the hashes of
those in flight (`Traffic.guarded_of_moves`).
-/

set_option autoImplicit false

namespace Blueprint

namespace Cache

/-- What is asked of the cache under a lock. -/
inductive Operation where
  | get (hash : String)
  | put (hash : String) (content : Bytes)
  | remove (hash : String)
deriving DecidableEq

/-- What is left to do of an operation, request by request. -/
inductive Errand where
  | done (reply : CacheReply Answer)
  | read (path : Path) (next : Except FileError Bytes → Errand)
  | makeDirectories (path : Path) (next : Except FileError Unit → Errand)
  | write (path : Path) (content : Bytes) (next : Except FileError Unit → Errand)
  | rename (source target : Path) (next : Except FileError Unit → Errand)
  | remove (path : Path) (next : Except FileError Unit → Errand)

namespace Operation

def hash : Operation → String
  | .get hash | .put hash _ | .remove hash => hash

def call : Operation → Call
  | .get hash => .get hash
  | .put hash content => .put hash content
  | .remove hash => .remove hash

/-- How many temporary files it names. -/
def temporaries : Operation → Nat
  | .get _ | .remove _ => 0
  | .put _ _ => 1

/-- What an operation has to do once it has its lock. -/
def errand (root : Path) (number : Nat) : Operation → Errand
  | .get hash =>
    .read (entryPath root hash) fun
      | .ok content => .done (.ok (.content (some content)))
      | .error .notFound => .done (.ok (.content none))
      | .error _ => .done (.error (.read (entryPath root hash)))
  | .put hash content =>
    let shard := root.child (shard hash)
    let entry := entryPath root hash
    let temporary := temporaryPath root hash number
    .makeDirectories shard fun
      | .error _ => .done (.error (.makeDirectory shard))
      | .ok () => .write temporary content fun
        | .error _ => .done (.error (.write temporary))
        | .ok () => .rename temporary entry fun
          | .ok () => .done (.ok .done)
          | .error _ => .remove temporary fun _ ↦ .done (.error (.commit entry))
  | .remove hash =>
    .remove (entryPath root hash) fun
      | .ok () | .error .notFound => .done (.ok .done)
      | .error _ => .done (.error (.remove (entryPath root hash)))

end Operation

namespace Errand

/-- What a request leaves of the tree: one that fails changes nothing. -/
def attempt (files : Files) : Except FileError Files → Except FileError Unit × Files
  | .ok later => (.ok (), later)
  | .error e => (.error e, files)

/-- Makes the next request. -/
def advance : Errand → Files → Errand × Files
  | .done reply, files => (.done reply, files)
  | .read path next, files => (next (files.read path), files)
  | .makeDirectories path next, files =>
    let (outcome, files) := files.makeDirectories path
    (next outcome, files)
  | .write path content next, files =>
    let (outcome, files) := attempt files (files.write path content)
    (next outcome, files)
  | .rename source target next, files =>
    let (outcome, files) := attempt files (files.rename source target)
    (next outcome, files)
  | .remove path next, files =>
    let (outcome, files) := attempt files (files.remove path)
    (next outcome, files)

/-- Makes all requests in one go. -/
def perform : Errand → Files → CacheReply Answer × Files
  | .done reply, files => (reply, files)
  | .read path next, files => (next (files.read path)).perform files
  | .makeDirectories path next, files =>
    let (outcome, files) := files.makeDirectories path
    (next outcome).perform files
  | .write path content next, files =>
    let (outcome, files) := attempt files (files.write path content)
    (next outcome).perform files
  | .rename source target next, files =>
    let (outcome, files) := attempt files (files.rename source target)
    (next outcome).perform files
  | .remove path next, files =>
    let (outcome, files) := attempt files (files.remove path)
    (next outcome).perform files

theorem perform_advance (e : Errand) (files : Files) :
    (e.advance files).1.perform (e.advance files).2 = e.perform files := by
  cases e <;> rfl

end Errand

/-- An operation in flight. -/
structure Flight where
  operation : Operation
  rest : Errand

structure Traffic where
  world : World
  /-- The operations in flight, by the tickets of their locks. -/
  flights : Table Nat Flight := {}
  /-- The replies of those that have ended by themselves, in order. -/
  replies : List (Nat × CacheReply Answer) := []

namespace Traffic

/-- What may happen next. An operation may move whenever it is polled, or be dropped. -/
inductive Move where
  | begin (operation : Operation)
  | poll (ticket : Nat)
  | drop (ticket : Nat)
  /-- Something else changes the tree: another process, or a request whose operation was dropped. -/
  | change (files : Files)

/-- Ends an operation, wherever it is. -/
def finish (t : Traffic) (ticket : Nat) : Traffic :=
  { t with
    world := { t.world with locks := t.world.locks.step (.leave ticket) }
    flights := t.flights.erase ticket }

/-- Polls an operation. Without its mutex it tries to take that, else it makes its next request, and
ends after the last one. Which one of those that wait is next is left open. -/
def poll (t : Traffic) (ticket : Nat) (flight : Flight) : Traffic :=
  if t.world.locks.owns ticket then
    let (rest, files) := flight.rest.advance t.world.files
    let t := { t with world := { t.world with files } }
    match rest with
    | .done reply => { t.finish ticket with replies := t.replies ++ [(ticket, reply)] }
    | rest => { t with flights := t.flights.insert ticket { flight with rest } }
  else { t with world := { t.world with locks := t.world.locks.step (.acquire ticket) } }

/-- One move. A hash that is not accepted is refused before any lock is taken. -/
def step (root : Path) (t : Traffic) : Move → Traffic
  | .begin operation =>
    if isFileHash operation.hash then
      let ticket := t.world.locks.nextTicket
      { t with
        world := { t.world with
          locks := t.world.locks.run [.enter operation.hash, .acquire ticket]
          temporaries := t.world.temporaries + operation.temporaries }
        flights := t.flights.insert ticket
          { operation, rest := operation.errand root t.world.temporaries } }
    else t
  | .poll ticket =>
    match t.flights.get? ticket with
    | some flight => t.poll ticket flight
    | none => t
  | .drop ticket => if t.flights.contains ticket then t.finish ticket else t
  | .change files => { t with world := { t.world with files } }

/-- The traffic after some moves. -/
def after (root : Path) (t : Traffic) (moves : List Move) : Traffic := moves.foldl (step root) t

/-- The locks keep to what they should, and those that hold on to a mutex are the operations in
flight, each under its hash. -/
structure Sound (t : Traffic) : Prop where
  locks : t.world.locks.Sound
  holders : ∀ ticket, (t.world.locks.holders.get? ticket).map (·.hash) =
    (t.flights.get? ticket).map (·.operation.hash)

variable {t : Traffic} {ticket : Nat} {flight : Flight} {root : Path} {operation : Operation}

theorem Sound.holder (h : t.Sound) (hflight : t.flights.get? ticket = some flight) :
    ∃ holder, t.world.locks.holders.get? ticket = some holder ∧
      holder.hash = flight.operation.hash := by
  have hhash := h.holders ticket
  rw [hflight, Option.map_some] at hhash
  exact Option.map_eq_some_iff.mp hhash

theorem Sound.exists_flight (h : t.Sound) {holder : LockHolder}
    (hholder : t.world.locks.holders.get? ticket = some holder) :
    ∃ flight, t.flights.get? ticket = some flight ∧ flight.operation.hash = holder.hash := by
  have hhash := h.holders ticket
  rw [hholder, Option.map_some] at hhash
  exact Option.map_eq_some_iff.mp hhash.symm

theorem Sound.get?_nextTicket (h : t.Sound) : t.flights.get? t.world.locks.nextTicket = none := by
  by_contra hsome
  obtain ⟨flight, hflight⟩ := Option.ne_none_iff_exists'.mp hsome
  obtain ⟨holder, hholder, -⟩ := h.holder hflight
  exact Nat.lt_irrefl _ (h.locks.ticket_lt _ _ hholder)

/-! ### What the moves keep -/

theorem Sound.begin (h : t.Sound) (root : Path) (operation : Operation) :
    (t.step root (.begin operation)).Sound := by
  rw [step]
  split_ifs
  · refine ⟨h.locks.run _, fun ticket ↦ ?_⟩
    obtain ⟨mutex, nextMutex, -, henter⟩ := t.world.locks.enter_eq operation.hash
    have hacquire := (t.world.locks.enter operation.hash).2.holders_acquire
      t.world.locks.nextTicket ticket
    simp only [Locks.run, List.foldl_cons, List.foldl_nil, Locks.step]
    rw [hacquire, henter]
    simp only [Table.get?_insert]
    split_ifs
    · rfl
    · exact h.holders ticket
  · exact h

theorem Sound.finish (h : t.Sound) (hflight : t.flights.get? ticket = some flight) :
    (t.finish ticket).Sound := by
  obtain ⟨holder, hholder, -⟩ := h.holder hflight
  refine ⟨h.locks.step (.leave ticket), fun other ↦ ?_⟩
  simp only [Traffic.finish, Locks.step]
  rw [h.locks.leave_eq hholder]
  simp only [Table.get?_erase]
  split_ifs
  · rfl
  · exact h.holders other

theorem Sound.poll (h : t.Sound) (hflight : t.flights.get? ticket = some flight) :
    (t.poll ticket flight).Sound := by
  rw [Traffic.poll]
  split_ifs
  · dsimp only
    have hfiles : ({ t with world := { t.world with files := (flight.rest.advance t.world.files).2 } } :
        Traffic).Sound := ⟨h.locks, h.holders⟩
    split
    · obtain ⟨hlocks, hholders⟩ := hfiles.finish hflight
      exact ⟨hlocks, hholders⟩
    · refine ⟨h.locks, fun other ↦ (h.holders other).trans ?_⟩
      simp only [Table.get?_insert]
      split_ifs with hother
      · rw [← hother, hflight]
        rfl
      · rfl
  · exact ⟨h.locks.step (.acquire ticket), fun other ↦
      (t.world.locks.holders_acquire ticket other).trans (h.holders other)⟩

theorem Sound.step (h : t.Sound) (root : Path) (move : Move) : (t.step root move).Sound := by
  cases move with
  | begin operation => exact h.begin root operation
  | poll ticket =>
    rw [Traffic.step]
    split
    · exact h.poll ‹_›
    · exact h
  | drop ticket =>
    rw [Traffic.step]
    split_ifs with hsome
    · obtain ⟨flight, hflight⟩ := Option.isSome_iff_exists.mp hsome
      exact h.finish hflight
    · exact h
  | change files => exact ⟨h.locks, h.holders⟩

theorem Sound.after (h : t.Sound) (root : Path) (moves : List Move) : (t.after root moves).Sound := by
  induction moves generalizing t with
  | nil => exact h
  | cons move rest ih => exact ih (h.step root move)

/-- Nothing is in flight, and the cache has no locks yet. -/
def start (world : World) : Traffic := { world := { world with locks := {} } }

theorem sound_start (world : World) : (start world).Sound := ⟨Locks.sound_empty, fun _ ↦ rfl⟩

/-! ### What is kept to at all times -/

/-- The mutex that an operation holds on to. -/
def mutex? (t : Traffic) (ticket : Nat) : Option Nat :=
  (t.world.locks.holders.get? ticket).map (·.mutex)

/-- An operation is in flight on a hash. -/
def Flies (t : Traffic) (ticket : Nat) (hash : String) : Prop :=
  ∃ flight, t.flights.get? ticket = some flight ∧ flight.operation.hash = hash

/-- An operation in flight has its mutex, and has not ended. -/
def Works (t : Traffic) (ticket : Nat) : Prop := t.world.locks.owns ticket = true

/-- Operations on one hash exclude each other, and locks are there for those in flight only. -/
structure Guarded (root : Path) (t : Traffic) : Prop where
  /-- An operation in flight holds on to the mutex that the table has for its hash. -/
  shared : ∀ ticket hash, t.Flies ticket hash →
    ∃ mutex, t.mutex? ticket = some mutex ∧ t.world.locks.mutexes.get? hash = some mutex
  /-- It is the same one for two operations just when they are on the same hash. -/
  apart : ∀ first second one two, t.Flies first one → t.Flies second two →
    (t.mutex? first = t.mutex? second ↔ one = two)
  /-- One operation on a hash at most has its mutex. -/
  exclusive : ∀ first second hash, t.Flies first hash → t.Flies second hash → t.Works first →
    t.Works second → first = second
  /-- Nothing is done by an operation that does not have its mutex. -/
  idle : ∀ ticket, ¬ t.Works ticket →
    (t.step root (.poll ticket)).world.files = t.world.files ∧
      (t.step root (.poll ticket)).flights = t.flights
  /-- It has it when it is polled, unless another operation on its hash has it. -/
  unhindered : ∀ ticket hash, t.Flies ticket hash → ¬ t.Works ticket →
    ((t.step root (.poll ticket)).Works ticket ↔
      ¬ ∃ other, t.Flies other hash ∧ t.Works other)
  /-- So it is for one that begins. -/
  begins : ∀ operation, Accepted operation.hash →
    ((t.step root (.begin operation)).Works t.world.locks.nextTicket ↔
      ¬ ∃ other, t.Flies other operation.hash ∧ t.Works other)
  /-- The table has the hashes of the operations in flight, each of them once. -/
  listed : t.world.locks.mutexes.keys.Nodup ∧
    ∀ hash, hash ∈ t.world.locks.mutexes.keys ↔ ∃ ticket, t.Flies ticket hash
  forgotten : t.world.locks.mutexes.size = 0 ↔ t.flights.size = 0
  /-- An operation that ends takes the mutex out just when two references to it are left. -/
  counted : ∀ ticket hash mutex, t.Flies ticket hash → t.mutex? ticket = some mutex →
    ((t.finish ticket).world.locks.mutexes.contains hash = false ↔
      t.world.locks.references hash mutex = 2)

theorem Sound.flies_iff (h : t.Sound) {hash : String} : t.Flies ticket hash ↔
    ∃ holder, t.world.locks.holders.get? ticket = some holder ∧ holder.hash = hash := by
  constructor
  · rintro ⟨flight, hflight, rfl⟩
    exact h.holder hflight
  · rintro ⟨holder, hholder, rfl⟩
    exact h.exists_flight hholder

theorem mutex?_eq {holder : LockHolder} (h : t.world.locks.holders.get? ticket = some holder) :
    t.mutex? ticket = some holder.mutex := by rw [mutex?, h, Option.map_some]

theorem Sound.exclusive (h : t.Sound) {first second : Nat} {hash : String}
    (hfirst : t.Flies first hash) (hsecond : t.Flies second hash) (hworks : t.Works first)
    (hrival : t.Works second) : first = second := by
  obtain ⟨one, hone, hhash⟩ := h.flies_iff.mp hfirst
  obtain ⟨two, htwo, rfl⟩ := h.flies_iff.mp hsecond
  rw [Works, Locks.owns, hone, Option.any_some] at hworks
  rw [Works, Locks.owns, htwo, Option.any_some] at hrival
  exact h.locks.exclusive first second one two hone htwo
    ((h.locks.mutex_eq_iff hone htwo).mpr hhash) hworks hrival

/-- Polling an operation that does not have its mutex. -/
theorem step_poll_of_idle (root : Path) (hflight : t.flights.get? ticket = some flight)
    (hidle : ¬ t.Works ticket) : t.step root (.poll ticket) =
      { t with world := { t.world with locks := t.world.locks.acquire ticket } } := by
  rw [step, hflight]
  exact if_neg hidle

theorem Sound.unhindered (h : t.Sound) (root : Path) {hash : String} (hflies : t.Flies ticket hash)
    (hidle : ¬ t.Works ticket) : (t.step root (.poll ticket)).Works ticket ↔
      ¬ ∃ other, t.Flies other hash ∧ t.Works other := by
  obtain ⟨holder, hholder, rfl⟩ := h.flies_iff.mp hflies
  obtain ⟨flight, hflight, -⟩ := hflies
  rw [step_poll_of_idle root hflight hidle, Works, h.locks.owns_acquire_iff hholder]
  constructor
  · rintro hall ⟨other, hother, hworks⟩
    obtain ⟨rival, hrival, hhash⟩ := h.flies_iff.mp hother
    obtain rfl := hall other rival hrival hhash hworks
    exact hidle hworks
  · intro hnone other rival hrival hhash hworks
    exact absurd ⟨other, h.flies_iff.mpr ⟨rival, hrival, hhash⟩, hworks⟩ hnone

theorem Sound.begins (h : t.Sound) (root : Path) (haccepted : Accepted operation.hash) :
    (t.step root (.begin operation)).Works t.world.locks.nextTicket ↔
      ¬ ∃ other, t.Flies other operation.hash ∧ t.Works other := by
  have hentered := h.locks.enter operation.hash
  obtain ⟨mutex, nextMutex, -, henter⟩ := t.world.locks.enter_eq operation.hash
  rw [henter] at hentered
  have hown := Table.get?_insert_self t.world.locks.holders t.world.locks.nextTicket
    { hash := operation.hash, mutex : LockHolder }
  have hworks := hentered.owns_acquire_iff hown
  simp only [Traffic.step, isFileHash_iff.mpr haccepted, ↓reduceIte, Works, Locks.run,
    List.foldl_cons, List.foldl_nil, Locks.step, henter]
  rw [hworks]
  have hkept {other : Nat} (hne : t.world.locks.nextTicket ≠ other) :=
    Table.get?_insert_of_ne t.world.locks.holders hne
      { hash := operation.hash, mutex : LockHolder }
  constructor
  · rintro hall ⟨other, hother, howns⟩
    obtain ⟨rival, hrival, hhash⟩ := h.flies_iff.mp hother
    have hne := Nat.ne_of_gt (h.locks.ticket_lt other rival hrival)
    refine hne (hall other rival ((hkept hne).trans hrival) hhash ?_).symm
    rwa [Locks.owns, hkept hne]
  · intro hnone other rival hrival hhash howns
    by_contra hother
    have hne := Ne.symm hother
    rw [hkept hne] at hrival
    rw [Locks.owns, hkept hne] at howns
    exact hnone ⟨other, h.flies_iff.mpr ⟨rival, hrival, hhash⟩, howns⟩

theorem Sound.mem_keys_iff (h : t.Sound) (hash : String) :
    hash ∈ t.world.locks.mutexes.keys ↔ ∃ ticket, t.Flies ticket hash := by
  have hkeys : t.world.locks.mutexes.get? hash = none ↔ hash ∉ t.world.locks.mutexes.keys :=
    Table.get?_eq_none_iff
  rw [← not_iff_not, ← hkeys]
  constructor
  · rintro hnone ⟨ticket, hflies⟩
    obtain ⟨holder, hholder, rfl⟩ := h.flies_iff.mp hflies
    cases hnone.symm.trans (h.locks.listed ticket holder hholder)
  · intro hnone
    by_contra hsome
    obtain ⟨mutex, hmutex⟩ := Option.ne_none_iff_exists'.mp hsome
    obtain ⟨ticket, holder, hholder, hhash⟩ := h.locks.used hash mutex hmutex
    exact hnone ⟨ticket, h.flies_iff.mpr ⟨holder, hholder, hhash⟩⟩

theorem Sound.size_eq_zero_iff (h : t.Sound) :
    t.world.locks.mutexes.size = 0 ↔ t.flights.size = 0 := by
  have hmutexes : t.world.locks.mutexes.size = 0 ↔ t.world.locks.mutexes.keys = [] := by
    simp [Table.size, Table.keys]
  have hflights : t.flights.size = 0 ↔ t.flights.keys = [] := by simp [Table.size, Table.keys]
  rw [hmutexes, hflights, List.eq_nil_iff_forall_not_mem, List.eq_nil_iff_forall_not_mem]
  constructor
  · intro hnone ticket hticket
    obtain ⟨flight, hflight⟩ := Option.ne_none_iff_exists'.mp (mt Table.get?_eq_none_iff.mp
      (not_not_intro hticket))
    exact hnone _ ((h.mem_keys_iff flight.operation.hash).mpr ⟨ticket, flight, hflight, rfl⟩)
  · intro hnone hash hhash
    obtain ⟨ticket, flight, hflight, -⟩ := (h.mem_keys_iff hash).mp hhash
    exact absurd (Table.get?_eq_none_iff.mpr (hnone ticket)) (by simp [hflight])

theorem Sound.guards (h : t.Sound) (root : Path) : t.Guarded root where
  shared := by
    intro ticket hash hflies
    obtain ⟨holder, hholder, rfl⟩ := h.flies_iff.mp hflies
    exact ⟨holder.mutex, mutex?_eq hholder, h.locks.listed ticket holder hholder⟩
  apart := by
    intro first second one two hfirst hsecond
    obtain ⟨holder, hholder, rfl⟩ := h.flies_iff.mp hfirst
    obtain ⟨rival, hrival, rfl⟩ := h.flies_iff.mp hsecond
    rw [mutex?_eq hholder, mutex?_eq hrival, Option.some.injEq]
    exact h.locks.mutex_eq_iff hholder hrival
  exclusive := fun first second hash ↦ h.exclusive
  idle := by
    intro ticket hidle
    cases hflight : t.flights.get? ticket with
    | none =>
      have hstep : t.step root (.poll ticket) = t := by simp only [Traffic.step, hflight]
      exact ⟨congrArg (·.world.files) hstep, congrArg (·.flights) hstep⟩
    | some flight =>
      rw [step_poll_of_idle root hflight hidle]
      exact ⟨rfl, rfl⟩
  unhindered := fun ticket hash ↦ h.unhindered root
  begins := fun operation ↦ h.begins root
  listed := ⟨h.locks.mutexes_distinct, h.mem_keys_iff⟩
  forgotten := h.size_eq_zero_iff
  counted := by
    intro ticket hash mutex hflies hmutex
    obtain ⟨holder, hholder, rfl⟩ := h.flies_iff.mp hflies
    obtain rfl := Option.some.inj ((mutex?_eq hholder).symm.trans hmutex)
    have hlisted := h.locks.listed ticket holder hholder
    simp only [Traffic.finish, Locks.step, h.locks.leave_eq hholder]
    split_ifs with hcount <;> simp [Table.contains, hlisted, hcount]

/-- However operations on one cache interleave, wherever they end or are dropped. -/
theorem guarded_of_moves (root : Path) (world : World) (moves : List Move) :
    ((start world).after root moves).Guarded root :=
  ((sound_start world).after root moves).guards root

/-! ### One operation by itself -/

/-- The traffic once an operation that has its mutex has made all requests it has left. -/
def completed (t : Traffic) (ticket : Nat) (rest : Errand) : Traffic :=
  let (reply, files) := rest.perform t.world.files
  { { t with world := { t.world with files } }.finish ticket with
    replies := t.replies ++ [(ticket, reply)] }

/-- An operation that has its mutex and is polled often enough makes the requests it has left. -/
def Completes (root : Path) (ticket : Nat) (rest : Errand) : Prop :=
  ∀ (t : Traffic) (operation : Operation), t.flights.get? ticket = some { operation, rest } →
    t.Works ticket →
      ∃ polls, t.after root (List.replicate polls (.poll ticket)) = t.completed ticket rest

/-- Polling an operation that has its mutex: it ends, or makes a request and has more of them left. -/
theorem step_poll_of_works (root : Path) {rest : Errand}
    (hflight : t.flights.get? ticket = some { operation, rest }) (hworks : t.Works ticket) :
    t.step root (.poll ticket) = t.completed ticket rest ∨
      (∀ reply, (rest.advance t.world.files).1 ≠ .done reply) ∧
        t.step root (.poll ticket) = { t with
          world := { t.world with files := (rest.advance t.world.files).2 }
          flights := t.flights.insert ticket
            { operation, rest := (rest.advance t.world.files).1 } } := by
  have hstep : t.step root (.poll ticket) = t.poll ticket { operation, rest } := by
    rw [step, hflight]
  have howns : t.world.locks.owns ticket = true := hworks
  have hsame := rest.perform_advance t.world.files
  rw [hstep, poll, if_pos howns]
  dsimp only
  split
  · rename_i reply hdone
    rw [hdone, Errand.perform] at hsame
    left
    rw [completed, ← hsame]
  · rename_i hmore
    exact .inr ⟨hmore, rfl⟩

theorem completes_of_advance {rest : Errand}
    (hnext : ∀ files, Completes root ticket (rest.advance files).1) :
    Completes root ticket rest := by
  intro t operation hflight hworks
  rcases step_poll_of_works root hflight hworks with hstep | ⟨-, hstep⟩
  · exact ⟨1, hstep⟩
  -- A request leaves the locks as they are, so the operation still has its mutex for the next one.
  obtain ⟨polls, hpolls⟩ := hnext t.world.files (t.step root (.poll ticket)) operation
    (by rw [hstep]; exact Table.get?_insert_self t.flights ticket _) (by rw [hstep]; exact hworks)
  refine ⟨polls + 1, hpolls.trans ?_⟩
  simp only [hstep, completed, finish, Errand.perform_advance, Table.erase_insert]

theorem completes (root : Path) (ticket : Nat) (rest : Errand) : Completes root ticket rest := by
  induction rest with
  | done reply =>
    intro t operation hflight hworks
    rcases step_poll_of_works root hflight hworks with hstep | ⟨hmore, -⟩
    · exact ⟨1, hstep⟩
    · exact absurd rfl (hmore reply)
  | read path next ih => exact completes_of_advance fun files ↦ ih _
  | makeDirectories path next ih => exact completes_of_advance fun files ↦ ih _
  | write path content next ih => exact completes_of_advance fun files ↦ ih _
  | rename source target next ih => exact completes_of_advance fun files ↦ ih _
  | remove path next ih => exact completes_of_advance fun files ↦ ih _

/-- The requests of an operation are what the cache does in one go. -/
theorem perform_disk (haccepted : Accepted operation.hash) (root : Path) (world : World) :
    operation.call.perform (disk root) world =
      let (reply, files) := (operation.errand root world.temporaries).perform world.files
      (reply, { world with
        files
        locks := world.locks.run [.enter operation.hash, .acquire world.locks.nextTicket,
          .leave world.locks.nextTicket]
        temporaries := world.temporaries + operation.temporaries }) := by
  have hfile := isFileHash_iff.mpr haccepted
  obtain ⟨mutex, nextMutex, -, henter⟩ := world.locks.enter_eq operation.hash
  cases operation with
  | get hash =>
    simp only [Operation.hash] at hfile henter
    simp only [Call.perform, Operation.call, Operation.hash, disk, locked, hfile, ↓reduceIte,
      Operation.errand, Errand.perform, readEntry, Operation.temporaries, Locks.run,
      List.foldl_cons, List.foldl_nil, Locks.step, henter]
    cases world.files.read (entryPath root hash) with
    | ok content => rfl
    | error e => cases e <;> rfl
  | put hash content =>
    simp only [Operation.hash] at hfile henter
    simp only [Call.perform, Operation.call, Operation.hash, disk, locked, hfile, ↓reduceIte,
      Operation.errand, Errand.perform, writeEntry, Operation.temporaries, Locks.run,
      List.foldl_cons, List.foldl_nil, Locks.step, henter]
    rcases world.files.makeDirectories (root.child (shard hash)) with ⟨made | made, files⟩
    · rfl
    dsimp only [Errand.perform]
    cases files.write (temporaryPath root hash world.temporaries) content with
    | error e => rfl
    | ok files =>
      dsimp only [Errand.perform, Errand.attempt]
      cases files.rename (temporaryPath root hash world.temporaries) (entryPath root hash) with
      | ok files => rfl
      | error e =>
        dsimp only [Errand.perform, Errand.attempt]
        cases files.remove (temporaryPath root hash world.temporaries) <;> rfl
  | remove hash =>
    simp only [Operation.hash] at hfile henter
    simp only [Call.perform, Operation.call, Operation.hash, disk, locked, hfile, ↓reduceIte,
      Operation.errand, Errand.perform, removeEntry, Operation.temporaries, Locks.run,
      List.foldl_cons, List.foldl_nil, Locks.step, henter]
    cases world.files.remove (entryPath root hash) with
    | ok files => rfl
    | error e => cases e <;> rfl

/-- An operation that begins when no other one has the mutex of its hash, and is then polled while
all others wait, does what the cache does in one go. -/
theorem alone_eq (h : t.Sound) (root : Path) (haccepted : Accepted operation.hash)
    (hfree : ¬ ∃ other, t.Flies other operation.hash ∧ t.Works other) :
    ∃ polls, t.after root
        (.begin operation :: List.replicate polls (.poll t.world.locks.nextTicket)) =
      { t with
        world := (operation.call.perform (disk root) t.world).2
        replies := t.replies ++
          [(t.world.locks.nextTicket, (operation.call.perform (disk root) t.world).1)] } := by
  have hworks := (h.begins root haccepted).mpr hfree
  have hbegin : t.step root (.begin operation) = { t with
      world := { t.world with
        locks := t.world.locks.run [.enter operation.hash, .acquire t.world.locks.nextTicket]
        temporaries := t.world.temporaries + operation.temporaries }
      flights := t.flights.insert t.world.locks.nextTicket
        { operation, rest := operation.errand root t.world.temporaries } } :=
    if_pos (isFileHash_iff.mpr haccepted)
  obtain ⟨polls, hpolls⟩ := completes root t.world.locks.nextTicket
    (operation.errand root t.world.temporaries) (t.step root (.begin operation)) operation
    (by rw [hbegin]; exact Table.get?_insert_self t.flights _ _) hworks
  refine ⟨polls, hpolls.trans ?_⟩
  simp only [hbegin, completed, finish, perform_disk haccepted, Table.erase_insert,
    Table.erase_of_none h.get?_nextTicket]
  rfl

end Traffic

end Cache

end Blueprint

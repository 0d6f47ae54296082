import Blueprint.Proofs.Cache.Disk

/-!
The locks of the cache on disk. Whatever operations do, those on one hash hold on to one mutex, which
the table has under that hash, those on different hashes hold on to different ones, and one operation
at most has a mutex (`Locks.Sound`). Each move of an operation keeps to that (`Locks.Sound.run`). Who
leaves takes a mutex out of the table when only two references to it are left
(`Locks.Sound.leave_eq`), that is, when no other operation on its hash is under way
(`Locks.Sound.get?_mutexes_leave`).
-/

set_option autoImplicit false

namespace Blueprint

namespace Locks

/-- An operation has its mutex. -/
def owns (l : Locks) (ticket : Nat) : Bool := (l.holders.get? ticket).any (·.owns)

/-- How many refer to a mutex: the table, under a hash, and the operations that hold on to it. -/
def references (l : Locks) (hash : String) (mutex : Nat) : Nat :=
  (if l.mutexes.get? hash = some mutex then 1 else 0) + l.holders.countValues (·.mutex == mutex)

/-- What the locks keep to, whatever operations do. -/
structure Sound (l : Locks) : Prop where
  holders_distinct : l.holders.Distinct
  mutexes_distinct : l.mutexes.Distinct
  /-- Who holds on to a mutex finds it in the table. -/
  listed : ∀ ticket holder, l.holders.get? ticket = some holder →
    l.mutexes.get? holder.hash = some holder.mutex
  /-- Somebody holds on to every mutex in the table. -/
  used : ∀ hash mutex, l.mutexes.get? hash = some mutex →
    ∃ ticket holder, l.holders.get? ticket = some holder ∧ holder.hash = hash
  injective : ∀ hash other mutex, l.mutexes.get? hash = some mutex →
    l.mutexes.get? other = some mutex → hash = other
  exclusive : ∀ ticket other holder rival, l.holders.get? ticket = some holder →
    l.holders.get? other = some rival → holder.mutex = rival.mutex → holder.owns = true →
    rival.owns = true → ticket = other
  mutex_lt : ∀ hash mutex, l.mutexes.get? hash = some mutex → mutex < l.nextMutex
  ticket_lt : ∀ ticket holder, l.holders.get? ticket = some holder → ticket < l.nextTicket

theorem sound_empty : ({} : Locks).Sound where
  holders_distinct := Table.distinct_empty
  mutexes_distinct := Table.distinct_empty
  listed := fun _ _ h ↦ nomatch h
  used := fun _ _ h ↦ nomatch h
  injective := fun _ _ _ h ↦ nomatch h
  exclusive := fun _ _ _ _ h ↦ nomatch h
  mutex_lt := fun _ _ h ↦ nomatch h
  ticket_lt := fun _ _ h ↦ nomatch h

variable {l : Locks} {hash : String} {ticket mutex : Nat} {holder : LockHolder}

theorem isOwned_iff (h : l.Sound) : l.isOwned mutex = true ↔
    ∃ ticket holder, l.holders.get? ticket = some holder ∧ holder.mutex = mutex ∧
      holder.owns = true := by
  simp only [isOwned, List.any_eq_true, Bool.and_eq_true, beq_iff_eq, Prod.exists]
  refine exists_congr fun ticket ↦ exists_congr fun holder ↦ and_congr_left fun _ ↦ ?_
  exact ⟨h.holders_distinct.get?_of_mem, Table.mem_of_get?⟩

theorem isShared_iff (h : l.Sound) : l.isShared ticket mutex = true ↔
    ∃ other holder, l.holders.get? other = some holder ∧ other ≠ ticket ∧ holder.mutex = mutex := by
  simp only [isShared, List.any_eq_true, Bool.and_eq_true, beq_iff_eq, bne_iff_ne, Prod.exists]
  refine exists_congr fun other ↦ exists_congr fun holder ↦ and_congr_left fun _ ↦ ?_
  exact ⟨h.holders_distinct.get?_of_mem, Table.mem_of_get?⟩

/-- Two hold on to the same mutex when their hashes are the same. -/
theorem Sound.mutex_eq_iff (h : l.Sound) {other : Nat} {rival : LockHolder}
    (hholder : l.holders.get? ticket = some holder) (hrival : l.holders.get? other = some rival) :
    holder.mutex = rival.mutex ↔ holder.hash = rival.hash := by
  have hlisted := h.listed ticket holder hholder
  have hother := h.listed other rival hrival
  constructor
  · intro heq
    exact h.injective _ _ _ (heq ▸ hlisted) hother
  · intro heq
    exact Option.some.inj (hlisted.symm.trans (heq ▸ hother))

/-! ### The moves of one operation -/

/-- The mutex of a hash for one who enters, and the locks after it. -/
theorem enter_eq (l : Locks) (hash : String) : ∃ mutex nextMutex,
    (l.mutexes.get? hash = some mutex ∧ nextMutex = l.nextMutex ∨
      l.mutexes.get? hash = none ∧ mutex = l.nextMutex ∧ nextMutex = l.nextMutex + 1) ∧
    l.enter hash = (l.nextTicket, {
      mutexes := l.mutexes.insert hash mutex
      holders := l.holders.insert l.nextTicket { hash, mutex }
      nextMutex, nextTicket := l.nextTicket + 1 }) := by
  unfold enter
  cases hget : l.mutexes.get? hash with
  | none => exact ⟨_, _, .inr ⟨rfl, rfl, rfl⟩, rfl⟩
  | some mutex => exact ⟨mutex, _, .inl ⟨rfl, rfl⟩, by rw [Table.insert_self hget]⟩

theorem Sound.enter (h : l.Sound) (hash : String) : (l.enter hash).2.Sound := by
  obtain ⟨mutex, nextMutex, hmutex, heq⟩ := l.enter_eq hash
  have hholders {ticket : Nat} {holder : LockHolder} :
      (l.holders.insert l.nextTicket { hash, mutex }).get? ticket = some holder ↔
        l.nextTicket = ticket ∧ { hash, mutex } = holder ∨
          l.nextTicket ≠ ticket ∧ l.holders.get? ticket = some holder := Table.get?_insert_eq_some
  have hmutexes {other : String} {found : Nat} :
      (l.mutexes.insert hash mutex).get? other = some found ↔
        hash = other ∧ mutex = found ∨ hash ≠ other ∧ l.mutexes.get? other = some found :=
    Table.get?_insert_eq_some
  rw [heq]
  constructor
  case holders_distinct => exact h.holders_distinct.insert _ _
  case mutexes_distinct => exact h.mutexes_distinct.insert _ _
  case listed =>
    intro ticket holder hget
    rcases hholders.mp hget with ⟨-, rfl⟩ | ⟨-, hold⟩
    · exact hmutexes.mpr (.inl ⟨rfl, rfl⟩)
    · have hlisted := h.listed ticket holder hold
      grind
  case used =>
    intro other found hget
    rcases hmutexes.mp hget with ⟨rfl, -⟩ | ⟨-, hold⟩
    · exact ⟨l.nextTicket, _, hholders.mpr (.inl ⟨rfl, rfl⟩), rfl⟩
    · obtain ⟨ticket, holder, hholder, hhash⟩ := h.used other found hold
      have hlt := h.ticket_lt ticket holder hholder
      exact ⟨ticket, holder, hholders.mpr (.inr ⟨Nat.ne_of_gt hlt, hholder⟩), hhash⟩
  case injective =>
    intro first second found hfirst hsecond
    have hlt := h.mutex_lt
    have hinjective := h.injective
    grind
  case exclusive =>
    intro ticket other holder rival hholder hrival hsame howns hrivalOwns
    rcases hholders.mp hholder with ⟨-, rfl⟩ | ⟨-, hholder⟩
    · cases howns
    rcases hholders.mp hrival with ⟨-, rfl⟩ | ⟨-, hrival⟩
    · cases hrivalOwns
    exact h.exclusive ticket other holder rival hholder hrival hsame howns hrivalOwns
  case mutex_lt =>
    intro other found hget
    have hlt := h.mutex_lt
    grind
  case ticket_lt =>
    intro ticket holder hget
    rcases hholders.mp hget with ⟨rfl, -⟩ | ⟨-, hold⟩
    · exact Nat.lt_succ_self _
    · exact Nat.lt_succ_of_lt (h.ticket_lt ticket holder hold)

theorem Sound.acquire (h : l.Sound) (ticket : Nat) : (l.acquire ticket).Sound := by
  unfold Locks.acquire
  cases hget : l.holders.get? ticket with
  | none => exact h
  | some holder =>
    dsimp only
    split_ifs with howned
    · exact h
    have hholders {other : Nat} {rival : LockHolder} :
        (l.holders.insert ticket { holder with owns := true }).get? other = some rival ↔
          ticket = other ∧ { holder with owns := true } = rival ∨
            ticket ≠ other ∧ l.holders.get? other = some rival := Table.get?_insert_eq_some
    have hfree {other : Nat} {rival : LockHolder} (hrival : l.holders.get? other = some rival)
        (hsame : rival.mutex = holder.mutex) : rival.owns ≠ true := fun howns ↦
      howned ((isOwned_iff h).mpr ⟨other, rival, hrival, hsame, howns⟩)
    constructor
    case holders_distinct => exact h.holders_distinct.insert _ _
    case mutexes_distinct => exact h.mutexes_distinct
    case listed =>
      intro other rival hrival
      rcases hholders.mp hrival with ⟨-, rfl⟩ | ⟨-, hold⟩
      · exact h.listed ticket holder hget
      · exact h.listed other rival hold
    case used =>
      intro hash mutex hmutex
      obtain ⟨other, rival, hrival, hhash⟩ := h.used hash mutex hmutex
      by_cases hother : ticket = other
      · subst hother
        obtain rfl := Option.some.inj (hget.symm.trans hrival)
        exact ⟨ticket, _, hholders.mpr (.inl ⟨rfl, rfl⟩), hhash⟩
      · exact ⟨other, rival, hholders.mpr (.inr ⟨hother, hrival⟩), hhash⟩
    case injective => exact h.injective
    case exclusive =>
      intro first second one two hone htwo hsame howns hrivalOwns
      rcases hholders.mp hone with ⟨rfl, rfl⟩ | ⟨-, hone⟩
      · rcases hholders.mp htwo with ⟨rfl, -⟩ | ⟨-, htwo⟩
        · rfl
        · exact absurd hrivalOwns (hfree htwo hsame.symm)
      · rcases hholders.mp htwo with ⟨rfl, rfl⟩ | ⟨-, htwo⟩
        · exact absurd howns (hfree hone hsame)
        · exact h.exclusive first second one two hone htwo hsame howns hrivalOwns
    case mutex_lt => exact h.mutex_lt
    case ticket_lt =>
      intro other rival hrival
      rcases hholders.mp hrival with ⟨rfl, -⟩ | ⟨-, hold⟩
      · exact h.ticket_lt ticket holder hget
      · exact h.ticket_lt other rival hold

/-- An operation is the last one that holds on to its mutex when two references to it are left, its
own and that of the table. -/
theorem Sound.isShared_eq (h : l.Sound) (hget : l.holders.get? ticket = some holder) :
    l.isShared ticket holder.mutex = !(l.references holder.hash holder.mutex == 2) := by
  have hcount := h.holders_distinct.countValues_erase hget (·.mutex == holder.mutex)
  rw [beq_self_eq_true, if_pos rfl] at hcount
  -- Besides its own reference and that of the table there are those of the other operations.
  have hothers : (l.holders.erase ticket).countValues (·.mutex == holder.mutex) = 0 ↔
      l.isShared ticket holder.mutex = false := by
    simp only [Table.countValues, Table.erase, Table.drop, isShared, List.countP_eq_zero,
      List.mem_filter, List.any_eq_false, Bool.and_eq_true, bne_iff_ne, decide_eq_true_eq]
    exact forall_congr' fun entry ↦ by tauto
  rw [references, if_pos (h.listed ticket holder hget), hcount]
  cases hshared : l.isShared ticket holder.mutex with
  | false => simp [hothers.mpr hshared]
  | true =>
    have hpositive : (l.holders.erase ticket).countValues (·.mutex == holder.mutex) ≠ 0 :=
      fun hzero ↦ Bool.false_ne_true ((hothers.mp hzero).symm.trans hshared)
    have hmore : 1 + ((l.holders.erase ticket).countValues (·.mutex == holder.mutex) + 1) ≠ 2 := by
      omega
    simp [hmore]

theorem Sound.leave_eq (h : l.Sound) (hget : l.holders.get? ticket = some holder) :
    l.leave ticket = { l with
      mutexes :=
        if l.references holder.hash holder.mutex = 2 then l.mutexes.erase holder.hash else l.mutexes
      holders := l.holders.erase ticket } := by
  simp only [Locks.leave, hget, h.listed ticket holder hget, h.isShared_eq hget, beq_self_eq_true,
    Bool.true_and, Bool.not_not, beq_iff_eq]

/-- The mutex of a hash stays in the table just as long as an operation on the hash is left. -/
theorem Sound.get?_mutexes_leave (h : l.Sound) (hget : l.holders.get? ticket = some holder)
    (hash : String) (mutex : Nat) :
    (l.leave ticket).mutexes.get? hash = some mutex ↔
      l.mutexes.get? hash = some mutex ∧
        ∃ other rival, l.holders.get? other = some rival ∧ other ≠ ticket ∧ rival.hash = hash := by
  have hshared : l.isShared ticket holder.mutex = true ↔ ∃ other rival,
      l.holders.get? other = some rival ∧ other ≠ ticket ∧ rival.hash = holder.hash := by
    rw [isShared_iff h]
    refine exists_congr fun other ↦ exists_congr fun rival ↦ and_congr_right fun hrival ↦
      and_congr_right fun _ ↦ h.mutex_eq_iff hrival hget
  have hleft : (l.leave ticket).mutexes =
      if l.isShared ticket holder.mutex then l.mutexes else l.mutexes.erase holder.hash := by
    simp only [Locks.leave, hget, h.listed ticket holder hget, beq_self_eq_true, Bool.true_and]
    cases l.isShared ticket holder.mutex <;> rfl
  rw [hleft]
  by_cases hhash : holder.hash = hash
  · subst hhash
    rw [← hshared]
    split_ifs with hmore <;> simp [hmore]
  · have hkept : (if l.isShared ticket holder.mutex then l.mutexes else
        l.mutexes.erase holder.hash).get? hash = l.mutexes.get? hash := by
      split_ifs
      · rfl
      · rw [Table.get?_erase, if_neg hhash]
    rw [hkept, iff_self_and]
    intro hmutex
    obtain ⟨other, rival, hrival, rfl⟩ := h.used hash mutex hmutex
    refine ⟨other, rival, hrival, ?_, rfl⟩
    rintro rfl
    exact hhash (congrArg (·.hash) (Option.some.inj (hget.symm.trans hrival)))

theorem Sound.leave (h : l.Sound) (ticket : Nat) : (l.leave ticket).Sound := by
  cases hget : l.holders.get? ticket with
  | none =>
    simp only [Locks.leave, hget]
    exact h
  | some holder =>
    -- Of the table only what is left in it matters, not whether this operation was the last one.
    have hmutexes := h.get?_mutexes_leave hget
    have hstays {hash : String} {mutex : Nat}
        (hmutex : (l.leave ticket).mutexes.get? hash = some mutex) :
        l.mutexes.get? hash = some mutex := ((hmutexes hash mutex).mp hmutex).1
    rw [h.leave_eq hget] at hmutexes hstays ⊢
    have hholders {other : Nat} {rival : LockHolder} :
        (l.holders.erase ticket).get? other = some rival ↔
          other ≠ ticket ∧ l.holders.get? other = some rival := by
      rw [Table.get?_erase]
      split_ifs with hother <;> simp [hother, Ne.symm]
    constructor
    case holders_distinct => exact h.holders_distinct.erase _
    case mutexes_distinct =>
      dsimp only
      split_ifs
      · exact h.mutexes_distinct.erase _
      · exact h.mutexes_distinct
    case listed =>
      intro other rival hrival
      obtain ⟨hother, hold⟩ := hholders.mp hrival
      exact (hmutexes _ _).mpr ⟨h.listed other rival hold, other, rival, hold, hother, rfl⟩
    case used =>
      intro hash mutex hmutex
      obtain ⟨-, other, rival, hold, hother, hhash⟩ := (hmutexes hash mutex).mp hmutex
      exact ⟨other, rival, hholders.mpr ⟨hother, hold⟩, hhash⟩
    case injective =>
      intro hash other mutex hhash hother
      exact h.injective hash other mutex (hstays hhash) (hstays hother)
    case exclusive =>
      intro first second one two hone htwo
      exact h.exclusive first second one two (hholders.mp hone).2 (hholders.mp htwo).2
    case mutex_lt => exact fun hash mutex hmutex ↦ h.mutex_lt hash mutex (hstays hmutex)
    case ticket_lt => exact fun other rival hrival ↦ h.ticket_lt other rival (hholders.mp hrival).2

theorem Sound.step (h : l.Sound) (move : Move) : (l.step move).Sound := by
  cases move with
  | enter hash => exact h.enter hash
  | acquire ticket => exact h.acquire ticket
  | leave ticket => exact h.leave ticket

theorem Sound.run (h : l.Sound) (moves : List Move) : (l.run moves).Sound := by
  induction moves generalizing l with
  | nil => exact h
  | cons move rest ih => exact ih (h.step move)

/-! ### Who gets a mutex -/

theorem holders_acquire (l : Locks) (ticket other : Nat) :
    ((l.acquire ticket).holders.get? other).map (·.hash) =
      (l.holders.get? other).map (·.hash) := by
  unfold acquire
  split
  · rfl
  · rename_i holder hget
    split_ifs
    · rfl
    · dsimp only
      rw [Table.get?_insert]
      split_ifs with hother
      · rw [← hother, hget]
        rfl
      · rfl

/-- Who tries to take its mutex has it afterwards, unless another operation on the hash has it. -/
theorem Sound.owns_acquire_iff (h : l.Sound) (hget : l.holders.get? ticket = some holder) :
    (l.acquire ticket).owns ticket = true ↔
      ∀ other rival, l.holders.get? other = some rival → rival.hash = holder.hash →
        l.owns other = true → other = ticket := by
  have howns {other : Nat} {rival : LockHolder} (hrival : l.holders.get? other = some rival) :
      l.owns other = rival.owns := by rw [owns, hrival, Option.any_some]
  by_cases howned : l.isOwned holder.mutex = true
  · obtain ⟨owner, rival, hrival, hsame, hrivalOwns⟩ := (isOwned_iff h).mp howned
    have hhash : rival.hash = holder.hash := (h.mutex_eq_iff hrival hget).mp hsame
    have hacquire : l.acquire ticket = l := by
      simp only [Locks.acquire, hget, howned, ↓reduceIte]
    rw [hacquire]
    constructor
    · intro hticket other third hthird hthirdHash hthirdOwns
      rw [howns hget] at hticket
      rw [howns hthird] at hthirdOwns
      exact h.exclusive other ticket third holder hthird hget
        ((h.mutex_eq_iff hthird hget).mpr hthirdHash) hthirdOwns hticket
    · intro hall
      have howner : l.owns owner = true := (howns hrival).trans hrivalOwns
      exact hall owner rival hrival hhash howner ▸ howner
  · have hacquire : (l.acquire ticket).owns ticket = true := by
      simp only [Locks.acquire, hget, howned, Bool.false_eq_true, ↓reduceIte, owns,
        Table.get?_insert_self, Option.any_some]
    refine iff_of_true hacquire fun other rival hrival hhash hrivalOwns ↦ ?_
    have hsame := (h.mutex_eq_iff hrival hget).mpr hhash
    rw [howns hrival] at hrivalOwns
    exact absurd ((isOwned_iff h).mpr ⟨other, rival, hrival, hsame, hrivalOwns⟩) howned

end Locks

end Blueprint

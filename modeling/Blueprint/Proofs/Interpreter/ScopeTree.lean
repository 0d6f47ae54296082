import Blueprint.Interpreter.Basic
import Blueprint.Proofs.Table
import Mathlib.Data.Nat.Find

/-!
The open scopes of a run form a tree. Every open scope counts the open scopes below it, a parent is
older than its children and open as long as they are, and no scope stays open once its node has
finished and nothing is open below it (`ScopeTable.Tree`).

Opening a scope keeps the tree (`Tree.openNext`). A finished node closes its scope and then the
scopes above it, as far as nothing else holds them open. `Closes` says what such a round of closing
does, one scope at a time, and `closeUp_closes` that this is what the interpreter does; the tree
comes through it (`Closes.tree`), a scope closes after every scope below it
(`Closes.child_before`), and what stays open keeps its parent and its node's state
(`Closes.get?_rest`). `finishes_of_finish` gathers this for a finished node.
-/

set_option autoImplicit false

namespace Blueprint.ScopeTable

/-- How many open scopes are right below one. -/
def childCount (entries : Table Nat OpenScope) (id : Nat) : Nat :=
  entries.countValues fun scope ↦ scope.parent == some id

/-- The shape of the open scopes of a run whose next scope is `next`. Only the scope `loose`, if
any, may be due to close. -/
structure Tree (next : Nat) (entries : Table Nat OpenScope) (loose : Option Nat) : Prop where
  distinct : entries.Distinct
  lt_next : ∀ id scope, entries.get? id = some scope → id < next
  parent_open : ∀ id scope parent, entries.get? id = some scope → scope.parent = some parent →
    parent < id ∧ (entries.get? parent).isSome
  counted : ∀ id scope, entries.get? id = some scope →
    scope.openChildren = childCount entries id
  held : ∀ id scope, entries.get? id = some scope → scope.nodeFinished = true →
    scope.openChildren = 0 → loose = some id

theorem Tree.get?_next {next : Nat} {entries : Table Nat OpenScope} {loose : Option Nat}
    (h : Tree next entries loose) : entries.get? next = none := by
  cases hget : entries.get? next with
  | none => rfl
  | some scope => exact absurd (h.lt_next next scope hget) (Nat.lt_irrefl _)

theorem Tree.childCount_next {next : Nat} {entries : Table Nat OpenScope} {loose : Option Nat}
    (h : Tree next entries loose) : childCount entries next = 0 := by
  refine List.countP_eq_zero.mpr fun ⟨id, scope⟩ hmem hparent ↦ ?_
  have hget := h.distinct.get?_of_mem hmem
  have hlt := (h.parent_open id scope next hget (by simpa using hparent)).1
  have hid := h.lt_next id scope hget
  omega

/-- A scope that counts no children has none. -/
theorem Tree.parent_ne {next : Nat} {entries : Table Nat OpenScope} {loose : Option Nat}
    (h : Tree next entries loose) {id : Nat} {scope : OpenScope}
    (hget : entries.get? id = some scope) (hnone : scope.openChildren = 0) {child : Nat}
    {below : OpenScope} (hchild : entries.get? child = some below) : below.parent ≠ some id := by
  intro hparent
  have hcount : childCount entries id = 0 := (h.counted id scope hget).symm.trans hnone
  have hentry := List.countP_eq_zero.mp hcount (child, below) (Table.mem_of_get? hchild)
  exact hentry (by simp [hparent])

/-- A scope that counts a child has one. -/
theorem Tree.exists_child {next : Nat} {entries : Table Nat OpenScope} {loose : Option Nat}
    (h : Tree next entries loose) {id : Nat} {scope : OpenScope}
    (hget : entries.get? id = some scope) (hsome : scope.openChildren ≠ 0) :
    ∃ child below, entries.get? child = some below ∧ below.parent = some id := by
  have hcount : 0 < childCount entries id := by
    rw [← h.counted id scope hget]
    exact Nat.pos_of_ne_zero hsome
  obtain ⟨⟨child, below⟩, hmem, hparent⟩ := List.countP_pos_iff.mp hcount
  exact ⟨child, below, h.distinct.get?_of_mem hmem, by simpa using hparent⟩

theorem tree_initial : Tree initial.next initial.entries none := by
  have hget : ∀ id scope, initial.entries.get? id = some scope → id = rootScope ∧ scope = {} := by
    intro id scope hget
    by_cases hid : rootScope = id
    · simp [initial, hid] at hget
      exact ⟨hid.symm, hget.symm⟩
    · simp [initial, hid] at hget
  refine ⟨Table.distinct_empty.insert _ _, ?_, ?_, ?_, ?_⟩
  · intro id scope h
    rw [(hget id scope h).1]
    exact Nat.lt_succ_self _
  · intro id scope parent h hparent
    rw [(hget id scope h).2] at hparent
    cases hparent
  · intro id scope h
    obtain ⟨rfl, rfl⟩ := hget id scope h
    rfl
  · intro id scope h hfinished
    rw [(hget id scope h).2] at hfinished
    cases hfinished

/-! ### Opening -/

theorem get?_openNext_of_open {t : ScopeTable} {parent : Nat} {above : OpenScope}
    (hparent : t.entries.get? parent = some above) (id : Nat) :
    (t.openNext true parent).entries.get? id =
      if t.next = id then some { parent := some parent }
      else if parent = id then some { above with openChildren := above.openChildren + 1 }
      else t.entries.get? id := by
  simp [openNext, hparent]

theorem get?_openNext_of_closed {t : ScopeTable} {parent : Nat}
    (hparent : t.entries.get? parent = none) (id : Nat) :
    (t.openNext true parent).entries.get? id =
      if t.next = id then some {} else t.entries.get? id := by
  simp [openNext, hparent]

/-- A new scope is below the one it was triggered from, if that is open. -/
theorem get?_openNext_next (t : ScopeTable) (parent : Nat) :
    (t.openNext true parent).entries.get? t.next =
      some { parent := (t.entries.get? parent).map fun _ ↦ parent } := by
  cases hparent : t.entries.get? parent with
  | none => rw [get?_openNext_of_closed hparent, if_pos rfl, Option.map_none]
  | some above => rw [get?_openNext_of_open hparent, if_pos rfl, Option.map_some]

/-- Another scope changes in the number of its children only. -/
theorem get?_openNext_of_ne {t : ScopeTable} {id : Nat} (hid : t.next ≠ id) (parent : Nat) :
    ∃ change : Nat → Nat, (t.openNext true parent).entries.get? id =
      (t.entries.get? id).map fun scope ↦
        { scope with openChildren := change scope.openChildren } := by
  cases hparent : t.entries.get? parent with
  | none => exact ⟨fun n ↦ n, by rw [get?_openNext_of_closed hparent, if_neg hid]; simp⟩
  | some above =>
    rw [get?_openNext_of_open hparent, if_neg hid]
    by_cases hp : parent = id
    · exact ⟨fun n ↦ n + 1, by rw [if_pos hp, ← hp, hparent, Option.map_some]⟩
    · exact ⟨fun n ↦ n, by rw [if_neg hp]; simp⟩

theorem openNext_unwired (t : ScopeTable) (parent : Nat) :
    t.openNext false parent = { t with next := t.next + 1 } := rfl

@[simp] theorem next_openNext (t : ScopeTable) (wired : Bool) (parent : Nat) :
    (t.openNext wired parent).next = t.next + 1 := by
  unfold openNext
  split
  · rfl
  · split <;> rfl

theorem Tree.mono {next later : Nat} {entries : Table Nat OpenScope} {loose : Option Nat}
    (h : Tree next entries loose) (hle : next ≤ later) : Tree later entries loose :=
  { h with lt_next := fun id scope hget ↦ Nat.lt_of_lt_of_le (h.lt_next id scope hget) hle }

/-- Assumes: a tree, and a scope that is open. The tree with one more scope below that one. -/
theorem Tree.openNext_of_open {t : ScopeTable} (h : Tree t.next t.entries none) {parent : Nat}
    {above : OpenScope} (hparent : t.entries.get? parent = some above) :
    Tree (t.next + 1) (t.openNext true parent).entries none := by
  have hnew : t.next ≠ parent := fun heq ↦ by simp [← heq, h.get?_next] at hparent
  have hget := get?_openNext_of_open hparent
  have hcount (id : Nat) : childCount (t.openNext true parent).entries id =
      childCount t.entries id + if parent = id then 1 else 0 := by
    have habsent : (t.entries.insert parent
        { above with openChildren := above.openChildren + 1 }).get? t.next = none := by
      simp [hnew.symm, h.get?_next]
    have hover : (t.entries.insert parent
        { above with openChildren := above.openChildren + 1 }).countValues
          (fun scope ↦ scope.parent == some id) =
        t.entries.countValues fun scope ↦ scope.parent == some id :=
      Table.countValues_insert_over hparent rfl
    simp only [childCount, openNext, hparent, Bool.not_true, Bool.false_eq_true, ↓reduceIte]
    rw [Table.countValues_insert_new habsent, hover]
    simp
  refine ⟨?_, ?_, ?_, ?_, ?_⟩
  · simp only [openNext, hparent, Bool.not_true, Bool.false_eq_true, ↓reduceIte]
    exact (h.distinct.insert _ _).insert _ _
  · intro id scope hid
    by_cases hnext : t.next = id
    · omega
    · by_cases hp : parent = id
      · have := h.lt_next parent above hparent
        omega
      · rw [hget, if_neg hnext, if_neg hp] at hid
        exact Nat.lt_succ_of_lt (h.lt_next id scope hid)
  · intro id scope top hid htop
    have hopen : ∀ other, (t.entries.get? other).isSome →
        ((t.openNext true parent).entries.get? other).isSome := by
      intro other hother
      rw [hget]
      split_ifs <;> simp_all
    by_cases hnext : t.next = id
    · rw [hget, if_pos hnext, Option.some.injEq] at hid
      subst hid
      cases htop
      exact ⟨hnext ▸ h.lt_next parent above hparent, hopen _ (by simp [hparent])⟩
    · by_cases hp : parent = id
      · rw [hget, if_neg hnext, if_pos hp, Option.some.injEq] at hid
        subst hid hp
        have hold := h.parent_open parent above top hparent htop
        exact ⟨hold.1, hopen _ hold.2⟩
      · rw [hget, if_neg hnext, if_neg hp] at hid
        have hold := h.parent_open id scope top hid htop
        exact ⟨hold.1, hopen _ hold.2⟩
  · intro id scope hid
    rw [hcount]
    by_cases hnext : t.next = id
    · rw [hget, if_pos hnext, Option.some.injEq] at hid
      subst hid hnext
      rw [h.childCount_next, if_neg hnew.symm]
    · by_cases hp : parent = id
      · rw [hget, if_neg hnext, if_pos hp, Option.some.injEq] at hid
        subst hid hp
        rw [if_pos rfl, ← h.counted parent above hparent]
      · rw [hget, if_neg hnext, if_neg hp] at hid
        rw [if_neg hp, ← h.counted id scope hid, Nat.add_zero]
  · intro id scope hid hfinished hnone
    by_cases hnext : t.next = id
    · rw [hget, if_pos hnext, Option.some.injEq] at hid
      subst hid
      cases hfinished
    · by_cases hp : parent = id
      · rw [hget, if_neg hnext, if_pos hp, Option.some.injEq] at hid
        subst hid
        cases hnone
      · rw [hget, if_neg hnext, if_neg hp] at hid
        exact h.held id scope hid hfinished hnone

/-- Assumes: a tree, and a scope that is not open. The tree with one more scope that is below
nothing. -/
theorem Tree.openNext_of_closed {t : ScopeTable} (h : Tree t.next t.entries none) {parent : Nat}
    (hparent : t.entries.get? parent = none) :
    Tree (t.next + 1) (t.openNext true parent).entries none := by
  have hget := get?_openNext_of_closed hparent
  have hcount (id : Nat) : childCount (t.openNext true parent).entries id =
      childCount t.entries id := by
    simp only [childCount, openNext, hparent, Bool.not_true, Bool.false_eq_true, ↓reduceIte]
    rw [Table.countValues_insert_new h.get?_next]
    simp
  refine ⟨?_, ?_, ?_, ?_, ?_⟩
  · simp only [openNext, hparent, Bool.not_true, Bool.false_eq_true, ↓reduceIte]
    exact h.distinct.insert _ _
  · intro id scope hid
    by_cases hnext : t.next = id
    · omega
    · rw [hget, if_neg hnext] at hid
      exact Nat.lt_succ_of_lt (h.lt_next id scope hid)
  · intro id scope top hid htop
    by_cases hnext : t.next = id
    · rw [hget, if_pos hnext, Option.some.injEq] at hid
      subst hid
      cases htop
    · rw [hget, if_neg hnext] at hid
      obtain ⟨hlt, hopen⟩ := h.parent_open id scope top hid htop
      refine ⟨hlt, ?_⟩
      rw [hget]
      split_ifs
      · rfl
      · exact hopen
  · intro id scope hid
    rw [hcount]
    by_cases hnext : t.next = id
    · rw [hget, if_pos hnext, Option.some.injEq] at hid
      subst hid hnext
      exact h.childCount_next.symm
    · rw [hget, if_neg hnext] at hid
      exact h.counted id scope hid
  · intro id scope hid hfinished hnone
    by_cases hnext : t.next = id
    · rw [hget, if_pos hnext, Option.some.injEq] at hid
      subst hid
      cases hfinished
    · rw [hget, if_neg hnext] at hid
      exact h.held id scope hid hfinished hnone

/-- Triggering keeps the tree, from whichever scope and whether or not the pin is wired. -/
theorem Tree.openNext {t : ScopeTable} (h : Tree t.next t.entries none) (wired : Bool)
    (parent : Nat) :
    Tree (t.openNext wired parent).next (t.openNext wired parent).entries none := by
  rw [next_openNext]
  cases wired with
  | false => exact h.mono (Nat.le_succ _)
  | true =>
    cases hparent : t.entries.get? parent with
    | none => exact h.openNext_of_closed hparent
    | some above => exact h.openNext_of_open hparent

/-! ### Closing -/

/-- What closing does from one scope upwards: the closed scopes in order, and the scopes left. -/
inductive Closes : Table Nat OpenScope → Option Nat → List Nat → Table Nat OpenScope → Prop
  /-- There is nothing above. -/
  | top (entries : Table Nat OpenScope) : Closes entries none [] entries
  /-- The scope is held open, or it is not open at all. -/
  | held {entries : Table Nat OpenScope} {id : Nat}
      (hheld : ∀ scope, entries.get? id = some scope → scope.nodeFinished = true →
        scope.openChildren ≠ 0) :
      Closes entries (some id) [] entries
  | close {entries rest : Table Nat OpenScope} {id : Nat} {scope : OpenScope} {closed : List Nat}
      (hopen : entries.get? id = some scope) (hfinished : scope.nodeFinished = true)
      (hnone : scope.openChildren = 0)
      (habove : Closes (uncount (entries.erase id) scope.parent) scope.parent closed rest) :
      Closes entries (some id) (id :: closed) rest

theorem size_uncount (entries : Table Nat OpenScope) (parent : Option Nat) :
    (uncount entries parent).size = entries.size := by
  cases parent with
  | none => rfl
  | some parent => exact Table.size_modify _ _ _

/-- A round for each open scope is enough. -/
theorem closeUp_closes {rounds : Nat} {entries : Table Nat OpenScope} (hrounds : entries.size ≤ rounds)
    (cursor : Option Nat) :
    Closes entries cursor (closeUp rounds entries cursor).1 (closeUp rounds entries cursor).2 := by
  induction rounds generalizing entries cursor with
  | zero =>
    cases cursor with
    | none => exact .top entries
    | some id =>
      refine .held fun scope hopen ↦ ?_
      have hlt := Table.size_erase_lt hopen
      omega
  | succ rounds ih =>
    cases cursor with
    | none => exact .top entries
    | some id =>
      cases hopen : entries.get? id with
      | none =>
        simp only [closeUp, hopen]
        exact .held fun scope h ↦ by simp [hopen] at h
      | some scope =>
        by_cases hdue : scope.nodeFinished = true ∧ scope.openChildren = 0
        · obtain ⟨hfinished, hnone⟩ := hdue
          have hless : (uncount (entries.erase id) scope.parent).size ≤ rounds := by
            have hlt := Table.size_erase_lt hopen
            rw [size_uncount]
            omega
          simp only [closeUp, hopen, hfinished, hnone, beq_self_eq_true, Bool.and_self, ↓reduceIte]
          exact .close hopen hfinished hnone (ih hless scope.parent)
        · have hneg : ¬ ((scope.nodeFinished && scope.openChildren == 0) = true) := by
            simpa using hdue
          simp only [closeUp, hopen, hneg]
          refine .held fun other h hfinished hnone ↦ hdue ?_
          rw [hopen, Option.some.injEq] at h
          exact ⟨h ▸ hfinished, h ▸ hnone⟩

theorem get?_uncount (entries : Table Nat OpenScope) (parent : Option Nat) (id : Nat) :
    (uncount entries parent).get? id =
      if parent = some id then
        (entries.get? id).map fun scope ↦ { scope with openChildren := scope.openChildren - 1 }
      else entries.get? id := by
  cases parent with
  | none => simp [uncount]
  | some parent => by_cases h : parent = id <;> simp [uncount, h]

theorem childCount_uncount (entries : Table Nat OpenScope) (parent : Option Nat) (id : Nat) :
    childCount (uncount entries parent) id = childCount entries id := by
  cases parent with
  | none => rfl
  | some parent => exact Table.countValues_modify entries parent fun _ ↦ rfl

/-- Assumes: a tree in which one scope is due to close. Without it the rest is a tree in which only
the scope above it may be due. -/
theorem Tree.close {next : Nat} {entries : Table Nat OpenScope} {id : Nat}
    (h : Tree next entries (some id)) {scope : OpenScope} (hopen : entries.get? id = some scope)
    (hnone : scope.openChildren = 0) :
    Tree next (uncount (entries.erase id) scope.parent) scope.parent := by
  have hself : scope.parent ≠ some id := fun heq ↦
    absurd (h.parent_open id scope id hopen heq).1 (Nat.lt_irrefl _)
  have hget (other : Nat) : (uncount (entries.erase id) scope.parent).get? other =
      if id = other then none
      else if scope.parent = some other then
        (entries.get? other).map fun s ↦ { s with openChildren := s.openChildren - 1 }
      else entries.get? other := by
    rw [get?_uncount, Table.get?_erase]
    by_cases hid : id = other
    · subst hid
      simp
    · simp [hid]
  have hcount (other : Nat) : childCount entries other =
      childCount (uncount (entries.erase id) scope.parent) other +
        if scope.parent = some other then 1 else 0 := by
    rw [childCount_uncount, childCount, h.distinct.countValues_erase hopen]
    simp [childCount]
  have hold {other : Nat} {left : OpenScope}
      (hleft : (uncount (entries.erase id) scope.parent).get? other = some left) :
      id ≠ other ∧ ∃ was, entries.get? other = some was ∧ left.parent = was.parent ∧
        left.nodeFinished = was.nodeFinished ∧ left.openChildren =
          was.openChildren - if scope.parent = some other then 1 else 0 := by
    rw [hget] at hleft
    split_ifs at hleft with hid hparent
    · obtain ⟨was, hwas, rfl⟩ := Option.map_eq_some_iff.mp hleft
      exact ⟨hid, was, hwas, rfl, rfl, by simp [hparent]⟩
    · exact ⟨hid, left, hleft, rfl, rfl, by simp [hparent]⟩
  refine ⟨?_, ?_, ?_, ?_, ?_⟩
  · cases scope.parent with
    | none => exact h.distinct.erase id
    | some parent => exact (h.distinct.erase id).modify parent _
  · intro other left hleft
    obtain ⟨-, was, hwas, -⟩ := hold hleft
    exact h.lt_next other was hwas
  · intro other left parent hleft hparent
    obtain ⟨-, was, hwas, hsame, -⟩ := hold hleft
    rw [hsame] at hparent
    obtain ⟨hlt, habove⟩ := h.parent_open other was parent hwas hparent
    have hne : id ≠ parent := fun heq ↦ h.parent_ne hopen hnone hwas (heq ▸ hparent)
    refine ⟨hlt, ?_⟩
    rw [hget, if_neg hne]
    split_ifs
    · simpa using habove
    · exact habove
  · intro other left hleft
    obtain ⟨-, was, hwas, -, -, hchildren⟩ := hold hleft
    rw [hchildren, h.counted other was hwas, hcount other]
    exact Nat.add_sub_cancel _ _
  · intro other left hleft hfinished hzero
    obtain ⟨hid, was, hwas, -, hsame, hchildren⟩ := hold hleft
    by_contra hparent
    rw [if_neg hparent, Nat.sub_zero] at hchildren
    have hloose := h.held other was hwas (hsame ▸ hfinished) (hchildren ▸ hzero)
    exact hid (Option.some.inj hloose)

namespace Closes

variable {next : Nat} {entries rest : Table Nat OpenScope} {cursor : Option Nat}
  {closed : List Nat}

theorem tree (h : Closes entries cursor closed rest) (htree : Tree next entries cursor) :
    Tree next rest none := by
  induction h with
  | top entries => exact htree
  | held hheld =>
    refine { htree with held := fun other scope hget hfinished hnone ↦ ?_ }
    have hid := Option.some.inj (htree.held other scope hget hfinished hnone)
    exact absurd hnone (hheld scope (hid ▸ hget) hfinished)
  | close hopen hfinished hnone habove ih => exact ih (htree.close hopen hnone)

/-- What stays open changes in the number of its children only. -/
theorem get?_rest (h : Closes entries cursor closed rest) {id : Nat} (hid : id ∉ closed) :
    ∃ change : Nat → Nat, rest.get? id =
      (entries.get? id).map fun scope ↦ { scope with openChildren := change scope.openChildren } := by
  induction h with
  | top entries => exact ⟨fun n ↦ n, by simp⟩
  | held hheld => exact ⟨fun n ↦ n, by simp⟩
  | @close entries rest top scope closed hopen hfinished hnone habove ih =>
    rw [List.mem_cons, not_or] at hid
    obtain ⟨change, hchange⟩ := ih hid.2
    rw [get?_uncount, Table.get?_erase, if_neg (Ne.symm hid.1)] at hchange
    by_cases hparent : scope.parent = some id
    · refine ⟨fun n ↦ change (n - 1), ?_⟩
      rw [hchange, if_pos hparent, Option.map_map]
      rfl
    · exact ⟨change, by rw [hchange, if_neg hparent]⟩

theorem get?_closed (h : Closes entries cursor closed rest) {id : Nat} (hid : id ∈ closed) :
    (∃ scope, entries.get? id = some scope ∧ scope.nodeFinished = true) ∧
      rest.get? id = none := by
  induction h with
  | top entries => simp at hid
  | held hheld => simp at hid
  | @close entries rest top scope closed hopen hfinished hnone habove ih =>
    by_cases hmem : id ∈ closed
    · obtain ⟨⟨left, hleft, hdone⟩, hgone⟩ := ih hmem
      refine ⟨?_, hgone⟩
      rw [get?_uncount, Table.get?_erase] at hleft
      split_ifs at hleft with hparent htop
      · simp at hleft
      · obtain ⟨was, hwas, rfl⟩ := Option.map_eq_some_iff.mp hleft
        exact ⟨was, hwas, hdone⟩
      · exact ⟨left, hleft, hdone⟩
    · obtain rfl : id = top := (List.mem_cons.mp hid).resolve_right hmem
      obtain ⟨change, hchange⟩ := habove.get?_rest hmem
      refine ⟨⟨scope, hopen, hfinished⟩, ?_⟩
      rw [hchange, get?_uncount, Table.get?_erase, if_pos rfl]
      simp

/-- Scopes close after all scopes below them. Assumes: the open scopes are a tree. -/
theorem child_before (h : Closes entries cursor closed rest) (htree : Tree next entries cursor)
    {before after : List Nat} {id : Nat} (hsplit : closed = before ++ id :: after) {child : Nat}
    {below : OpenScope} (hchild : entries.get? child = some below)
    (hparent : below.parent = some id) : child ∈ before := by
  induction h generalizing before below with
  | top entries => simp at hsplit
  | held hheld => simp at hsplit
  | @close entries rest top scope closed hopen hfinished hnone habove ih =>
    cases before with
    | nil =>
      obtain ⟨rfl, -⟩ := List.cons.inj hsplit
      exact absurd hparent (htree.parent_ne hopen hnone hchild)
    | cons first before =>
      obtain ⟨rfl, htail⟩ := List.cons.inj hsplit
      by_cases hfirst : top = child
      · exact hfirst ▸ List.mem_cons_self
      · refine List.mem_cons_of_mem _ ?_
        have hleft : (uncount (entries.erase top) scope.parent).get? child =
            if scope.parent = some child then
              some { below with openChildren := below.openChildren - 1 } else some below := by
          rw [get?_uncount, Table.get?_erase, if_neg hfirst, hchild]
          rfl
        by_cases hup : scope.parent = some child
        · rw [if_pos hup] at hleft
          exact ih (htree.close hopen hnone) htail hleft hparent
        · rw [if_neg hup] at hleft
          exact ih (htree.close hopen hnone) htail hleft hparent

/-- Younger scopes close first. Assumes: the open scopes are a tree. -/
theorem pairwise_gt (h : Closes entries cursor closed rest) (htree : Tree next entries cursor) :
    (∀ id ∈ closed, ∀ top ∈ cursor, id ≤ top) ∧ closed.Pairwise (· > ·) := by
  induction h with
  | top entries => simp
  | held hheld => simp
  | @close entries rest top scope closed hopen hfinished hnone habove ih =>
    obtain ⟨hbound, hdown⟩ := ih (htree.close hopen hnone)
    have hlt : ∀ id ∈ closed, id < top := by
      intro id hid
      cases hparent : scope.parent with
      | none =>
        rw [hparent] at habove
        cases habove
        simp at hid
      | some parent =>
        have hle := hbound id hid parent (by simp [hparent])
        have hup := (htree.parent_open top scope parent hopen hparent).1
        omega
    refine ⟨?_, List.pairwise_cons.mpr ⟨hlt, hdown⟩⟩
    intro id hid other hother
    obtain rfl : top = other := Option.some.inj hother
    rcases List.mem_cons.mp hid with rfl | hid
    · exact Nat.le_refl _
    · exact Nat.le_of_lt (hlt id hid)

end Closes

/-! ### Finishing -/

/-- What it means for a scope table that the node on one scope has finished. -/
structure Finishes (t : ScopeTable) (id : Nat) (closed : List Nat) (later : ScopeTable) : Prop where
  next_eq : later.next = t.next
  awaited : ∃ scope, t.entries.get? id = some scope ∧ scope.nodeFinished = false
  /-- What stays open keeps its parent, and its node's state unless it is the node's own scope. -/
  rest : ∀ other, other ∉ closed → ∃ change : Nat → Nat, later.entries.get? other =
    (t.entries.get? other).map fun scope ↦
      { scope with
        nodeFinished := scope.nodeFinished || id == other
        openChildren := change scope.openChildren }
  gone : ∀ other ∈ closed, later.entries.get? other = none ∧
    ∃ scope, t.entries.get? other = some scope ∧ (scope.nodeFinished = true ∨ other = id)
  child_before : ∀ before top after, closed = before ++ top :: after → ∀ child below,
    t.entries.get? child = some below → below.parent = some top → child ∈ before
  pairwise_gt : closed.Pairwise (· > ·)
  tree : Tree later.next later.entries none

theorem Tree.mark {next : Nat} {entries : Table Nat OpenScope} (h : Tree next entries none)
    {id : Nat} {scope : OpenScope} (hopen : entries.get? id = some scope) :
    Tree next (entries.insert id { scope with nodeFinished := true }) (some id) := by
  have hold {other : Nat} {left : OpenScope}
      (hleft : (entries.insert id { scope with nodeFinished := true }).get? other = some left) :
      ∃ was, entries.get? other = some was ∧ left.parent = was.parent ∧
        left.openChildren = was.openChildren ∧ (id ≠ other → left = was) := by
    rw [Table.get?_insert] at hleft
    split_ifs at hleft with hid
    · obtain rfl := Option.some.inj hleft
      exact ⟨scope, hid ▸ hopen, rfl, rfl, fun hne ↦ absurd hid hne⟩
    · exact ⟨left, hleft, rfl, rfl, fun _ ↦ rfl⟩
  refine ⟨h.distinct.insert _ _, ?_, ?_, ?_, ?_⟩
  · intro other left hleft
    obtain ⟨was, hwas, -⟩ := hold hleft
    exact h.lt_next other was hwas
  · intro other left parent hleft hparent
    obtain ⟨was, hwas, hsame, -⟩ := hold hleft
    obtain ⟨hlt, habove⟩ := h.parent_open other was parent hwas (hsame ▸ hparent)
    refine ⟨hlt, ?_⟩
    rw [Table.get?_insert]
    split_ifs
    · rfl
    · exact habove
  · intro other left hleft
    obtain ⟨was, hwas, -, hsame, -⟩ := hold hleft
    have hcount : childCount (entries.insert id { scope with nodeFinished := true }) other =
        childCount entries other := Table.countValues_insert_over hopen rfl
    rw [hsame, hcount]
    exact h.counted other was hwas
  · intro other left hleft hfinished hnone
    obtain ⟨was, hwas, -, -, hsame⟩ := hold hleft
    by_contra hid
    obtain rfl := hsame fun heq ↦ hid (congrArg some heq)
    exact absurd (h.held other left hwas hfinished hnone) (by simp)

/-- Assumes: the open scopes are a tree, and the interpreter accepts that the node on a scope has
finished. -/
theorem finishes_of_finish {t : ScopeTable} (htree : Tree t.next t.entries none) {id : Nat}
    {closed : List Nat} {later : ScopeTable} (h : t.finish id = some (closed, later)) :
    Finishes t id closed later := by
  unfold finish at h
  cases hopen : t.entries.get? id with
  | none => simp [hopen] at h
  | some scope =>
    cases hfinished : scope.nodeFinished with
    | true => simp [hopen, hfinished] at h
    | false =>
      simp only [hopen, hfinished, Bool.false_eq_true, ↓reduceIte, Option.some.injEq,
        Prod.mk.injEq] at h
      obtain ⟨rfl, rfl⟩ := h
      have hmark := htree.mark hopen
      have hcloses := closeUp_closes
        (Nat.le_refl (t.entries.insert id { scope with nodeFinished := true }).size) (some id)
      refine ⟨rfl, ⟨scope, hopen, hfinished⟩, ?_, ?_, ?_, (hcloses.pairwise_gt hmark).2,
        hcloses.tree hmark⟩
      · intro other hother
        obtain ⟨change, hchange⟩ := hcloses.get?_rest hother
        refine ⟨change, hchange.trans ?_⟩
        rw [Table.get?_insert]
        by_cases hid : id = other
        · subst hid
          simp [hopen]
        · have hne : (id == other) = false := beq_false_of_ne hid
          simp [hid, hne]
      · intro other hother
        obtain ⟨⟨marked, hmarked, hdone⟩, hgone⟩ := hcloses.get?_closed hother
        refine ⟨hgone, ?_⟩
        rw [Table.get?_insert] at hmarked
        split_ifs at hmarked with hid
        · exact ⟨scope, hid ▸ hopen, Or.inr hid.symm⟩
        · exact ⟨marked, hmarked, Or.inl hdone⟩
      · intro before top after hsplit child below hchild hparent
        by_cases hid : id = child
        · subst hid
          rw [hopen, Option.some.injEq] at hchild
          subst hchild
          have hself : (t.entries.insert id { scope with nodeFinished := true }).get? id =
              some { scope with nodeFinished := true } := by simp
          exact hcloses.child_before hmark hsplit hself hparent
        · exact hcloses.child_before hmark hsplit
            (by rw [Table.get?_insert, if_neg hid]; exact hchild) hparent

/-- A finish is refused exactly when the scope is not open or its node has finished before. -/
theorem finish_eq_none_iff {t : ScopeTable} {id : Nat} :
    t.finish id = none ↔ ∀ scope, t.entries.get? id = some scope → scope.nodeFinished = true := by
  unfold finish
  cases hopen : t.entries.get? id with
  | none => simp
  | some scope => cases hfinished : scope.nodeFinished <;> simp [hfinished]

/-- A run whose root has finished at once. -/
theorem finish_initial :
    initial.finish rootScope = some ([rootScope], { next := rootScope + 1, entries := {} }) := rfl

/-! ### Awaited nodes -/

/-- Whether a scope is open and its node has not finished. -/
def awaits (t : ScopeTable) (id : Nat) : Bool :=
  (t.entries.get? id).any fun scope ↦ !scope.nodeFinished

theorem isSome_of_awaits {t : ScopeTable} {id : Nat} (h : t.awaits id = true) :
    (t.entries.get? id).isSome := by
  unfold awaits at h
  cases hget : t.entries.get? id with
  | none => simp [hget] at h
  | some scope => rfl

theorem awaits_initial (id : Nat) : initial.awaits id = (id == rootScope) := by
  by_cases hid : rootScope = id
  · subst hid
    rfl
  · simp [awaits, initial, hid, Ne.symm hid]

theorem awaits_openNext (t : ScopeTable) (parent id : Nat) :
    (t.openNext true parent).awaits id = (id == t.next || t.awaits id) := by
  unfold awaits
  by_cases hid : t.next = id
  · subst hid
    simp [get?_openNext_next]
  · obtain ⟨change, hchange⟩ := get?_openNext_of_ne hid parent
    rw [hchange]
    cases t.entries.get? id <;> simp [Ne.symm hid]

/-- A node that has finished is not awaited any more, and nothing else changes. -/
theorem Finishes.awaits {t later : ScopeTable} {id : Nat} {closed : List Nat}
    (h : Finishes t id closed later) (other : Nat) :
    later.awaits other = (t.awaits other && id != other) := by
  unfold ScopeTable.awaits
  by_cases hclosed : other ∈ closed
  · obtain ⟨hgone, scope, hscope, hdone | rfl⟩ := h.gone other hclosed
    · simp [hgone, hscope, hdone]
    · simp [hgone]
  · obtain ⟨change, hchange⟩ := h.rest other hclosed
    rw [hchange]
    cases t.entries.get? other with
    | none => simp
    | some scope => simp [bne]

/-! ### Roots -/

/-- Every open scope but the root has a parent. -/
def Rooted (entries : Table Nat OpenScope) : Prop :=
  ∀ id scope, entries.get? id = some scope → id ≠ rootScope → scope.parent ≠ none

theorem rooted_initial : Rooted initial.entries := by
  intro id scope hget hroot
  rw [initial, Table.get?_insert, if_neg (Ne.symm hroot)] at hget
  cases hget

/-- A scope below an open one. -/
theorem Rooted.openNext {t : ScopeTable} (h : Rooted t.entries) {parent : Nat}
    (hparent : (t.entries.get? parent).isSome) : Rooted (t.openNext true parent).entries := by
  intro id scope hget hroot
  by_cases hid : t.next = id
  · subst hid
    obtain ⟨above, habove⟩ := Option.isSome_iff_exists.mp hparent
    rw [get?_openNext_next, habove, Option.some.injEq] at hget
    rw [← hget]
    exact Option.some_ne_none parent
  · obtain ⟨change, hchange⟩ := get?_openNext_of_ne hid parent
    obtain ⟨was, hwas, rfl⟩ := Option.map_eq_some_iff.mp (hchange.symm.trans hget)
    exact h id was hwas hroot

theorem Finishes.rooted {t later : ScopeTable} {id : Nat} {closed : List Nat}
    (h : Finishes t id closed later) (hrooted : Rooted t.entries) : Rooted later.entries := by
  intro other scope hget hroot
  have hother : other ∉ closed := fun hmem ↦ by simp [(h.gone other hmem).1] at hget
  obtain ⟨change, hchange⟩ := h.rest other hother
  obtain ⟨was, hwas, rfl⟩ := Option.map_eq_some_iff.mp (hchange.symm.trans hget)
  exact hrooted other was hwas hroot

/-- Assumes: a tree in which every scope but the root has a parent. No scope is open once the root
is not. -/
theorem Tree.get?_of_root {next : Nat} {entries : Table Nat OpenScope} {loose : Option Nat}
    (h : Tree next entries loose) (hrooted : Rooted entries)
    (hroot : entries.get? rootScope = none) (id : Nat) : entries.get? id = none := by
  induction id using Nat.strongRecOn with
  | ind id ih =>
    by_contra hopen
    obtain ⟨scope, hscope⟩ := Option.ne_none_iff_exists'.mp hopen
    have hne : id ≠ rootScope := fun heq ↦ by simp [heq, hroot] at hscope
    obtain ⟨parent, hparent⟩ := Option.ne_none_iff_exists'.mp (hrooted id scope hscope hne)
    obtain ⟨hlt, habove⟩ := h.parent_open id scope parent hscope hparent
    simp [ih parent hlt] at habove

/-! ### The scopes of a run that triggers from open scopes only -/

/-- A tree below one root. -/
structure Sound (t : ScopeTable) : Prop where
  tree : Tree t.next t.entries none
  rooted : Rooted t.entries
  positive : rootScope < t.next

theorem sound_initial : initial.Sound := ⟨tree_initial, rooted_initial, Nat.zero_lt_one⟩

theorem Sound.openUnwired {t : ScopeTable} (h : t.Sound) (parent : Nat) :
    (t.openNext false parent).Sound :=
  ⟨h.tree.openNext false parent, h.rooted, Nat.lt_succ_of_lt h.positive⟩

theorem Sound.openWired {t : ScopeTable} (h : t.Sound) {parent : Nat}
    (hparent : (t.entries.get? parent).isSome) : (t.openNext true parent).Sound :=
  ⟨h.tree.openNext true parent, h.rooted.openNext hparent,
    next_openNext t true parent ▸ Nat.lt_succ_of_lt h.positive⟩

theorem Sound.finishes {t later : ScopeTable} (h : t.Sound) {id : Nat} {closed : List Nat}
    (hfinish : t.finish id = some (closed, later)) :
    Finishes t id closed later ∧ later.Sound := by
  have hfinishes := finishes_of_finish h.tree hfinish
  exact ⟨hfinishes, hfinishes.tree, hfinishes.rooted h.rooted, hfinishes.next_eq ▸ h.positive⟩

/-- As long as the root is open, the last of the open scopes is awaited. -/
theorem Sound.exists_last {t : ScopeTable} (h : t.Sound)
    (hroot : (t.entries.get? rootScope).isSome = true) :
    ∃ last, t.awaits last = true ∧ ∀ scope, (t.entries.get? scope).isSome = true → scope ≤ last := by
  have hle (scope : Nat) (hopen : (t.entries.get? scope).isSome = true) :
      scope ≤ Nat.findGreatest (fun scope ↦ (t.entries.get? scope).isSome = true) t.next := by
    obtain ⟨opened, hopened⟩ := Option.isSome_iff_exists.mp hopen
    exact Nat.le_findGreatest (Nat.le_of_lt (h.tree.lt_next scope opened hopened)) hopen
  have hlast : (t.entries.get? (Nat.findGreatest
      (fun scope ↦ (t.entries.get? scope).isSome = true) t.next)).isSome = true :=
    Nat.findGreatest_spec (P := fun scope ↦ (t.entries.get? scope).isSome = true)
      (Nat.le_of_lt h.positive) hroot
  generalize Nat.findGreatest (fun scope ↦ (t.entries.get? scope).isSome = true) t.next = last
    at hle hlast
  refine ⟨last, ?_, hle⟩
  obtain ⟨opened, hopened⟩ := Option.isSome_iff_exists.mp hlast
  by_contra hawaits
  have hdone : opened.nodeFinished = true := by simpa [awaits, hopened] using hawaits
  -- What has finished and is still open has a child, which is later.
  have hchildren : opened.openChildren ≠ 0 := by
    intro hnone
    cases h.tree.held last opened hopened hdone hnone
  obtain ⟨child, below, hchild, hparent⟩ := h.tree.exists_child hopened hchildren
  have hlater := (h.tree.parent_open child below last hchild hparent).1
  exact absurd (hle child (by simp [hchild])) (Nat.not_le.mpr hlater)

/-- A node that is awaited may finish. -/
theorem finish_of_awaits {t : ScopeTable} {id : Nat} (h : t.awaits id = true) :
    ∃ closed later, t.finish id = some (closed, later) := by
  cases hfinish : t.finish id with
  | some finished => exact ⟨finished.1, finished.2, rfl⟩
  | none =>
    obtain ⟨scope, hscope⟩ := Option.isSome_iff_exists.mp (isSome_of_awaits h)
    have hdone := finish_eq_none_iff.mp hfinish scope hscope
    simp [awaits, hscope, hdone] at h

end Blueprint.ScopeTable

import Blueprint.Proofs.Interpreter.ScopeTree
import Blueprint.Proofs.Graph.Wiring
import Mathlib.Data.Finset.Dedup
import Mathlib.Data.Finset.Card

/-!
The scopes of every run are regular, whatever calls were made and in whatever order
(`Interpreter.regular_of_reached`). The count of a scope is the number of scopes right below it, a
parent is open and older than its children, and no scope is open without a reason
(`ScopeTable.Regular`). A run keeps this because each call keeps the tree
(`Interpreter.Treelike.trigger`, `Interpreter.Treelike.finish`).

Closing is forgiving as it is written: it takes one off a count even if that is zero, passes over a
parent that is gone, and is given a round for each open scope. `ScopeTable.finishChecked` stops at
each of these, with no more rounds than there are scopes from the finished one up to the top of its
tree (`ScopeTable.Ancestry`). On a tree the two agree, as one round on the way up leaves a tree
again in which only the next scope may be due (`ScopeTable.Tree.closeUpChecked_eq`).
-/

set_option autoImplicit false

namespace Blueprint

namespace ScopeTable

/-! ### The way up -/

/-- A scope and the scopes above it, up to one that is below nothing. -/
inductive Ancestry (entries : Table Nat OpenScope) : Nat → List Nat → Prop
  | top {id : Nat} {scope : OpenScope} (hopen : entries.get? id = some scope)
      (hparent : scope.parent = none) : Ancestry entries id [id]
  | up {id parent : Nat} {scope : OpenScope} {above : List Nat}
      (hopen : entries.get? id = some scope) (hparent : scope.parent = some parent)
      (habove : Ancestry entries parent above) : Ancestry entries id (id :: above)

variable {next : Nat} {entries later : Table Nat OpenScope} {loose : Option Nat} {id : Nat}
  {path : List Nat}

theorem Ancestry.exists_scope (h : Ancestry entries id path) :
    ∃ scope, entries.get? id = some scope := by
  cases h with
  | top hopen => exact ⟨_, hopen⟩
  | up hopen => exact ⟨_, hopen⟩

theorem Ancestry.of_parent {first parent : Nat} {above : List Nat} {scope : OpenScope}
    (h : Ancestry entries id (first :: above)) (hopen : entries.get? id = some scope)
    (hparent : scope.parent = some parent) : Ancestry entries parent above := by
  cases h with
  | top hsame hnone =>
    obtain rfl := Option.some.inj (hsame.symm.trans hopen)
    cases hnone.symm.trans hparent
  | up hsame hup habove =>
    obtain rfl := Option.some.inj (hsame.symm.trans hopen)
    obtain rfl := Option.some.inj (hup.symm.trans hparent)
    exact habove

/-- Only the parents on the way matter. -/
theorem Ancestry.of_parents (h : Ancestry entries id path)
    (hsame : ∀ top ∈ path, (later.get? top).map OpenScope.parent =
      (entries.get? top).map OpenScope.parent) : Ancestry later id path := by
  induction h with
  | top hopen hparent =>
    have hself := hsame _ (List.mem_singleton_self _)
    rw [hopen] at hself
    obtain ⟨left, hleft, hlast⟩ := Option.map_eq_some_iff.mp hself
    exact .top hleft (hlast.trans hparent)
  | up hopen hparent habove ih =>
    have hself := hsame _ List.mem_cons_self
    rw [hopen] at hself
    obtain ⟨left, hleft, hlast⟩ := Option.map_eq_some_iff.mp hself
    exact .up hleft (hlast.trans hparent)
      (ih fun top htop ↦ hsame top (List.mem_cons_of_mem _ htop))

namespace Tree

theorem le_of_mem_ancestry (h : Tree next entries loose) (hpath : Ancestry entries id path) :
    ∀ top ∈ path, top ≤ id := by
  induction hpath with
  | top hopen hparent => exact fun top htop ↦ Nat.le_of_eq (List.mem_singleton.mp htop)
  | @up id parent scope above hopen hparent habove ih =>
    have hlt := (h.parent_open id scope parent hopen hparent).1
    intro top htop
    rcases List.mem_cons.mp htop with rfl | hrest
    · exact Nat.le_refl _
    · exact Nat.le_trans (ih top hrest) (Nat.le_of_lt hlt)

/-- As parents are older, every way up ends. -/
theorem exists_ancestry (h : Tree next entries loose) {scope : OpenScope}
    (hopen : entries.get? id = some scope) : ∃ path, Ancestry entries id path := by
  induction id using Nat.strong_induction_on generalizing scope with
  | _ id ih =>
    cases hparent : scope.parent with
    | none => exact ⟨[id], .top hopen hparent⟩
    | some parent =>
      obtain ⟨hlt, habove⟩ := h.parent_open id scope parent hopen hparent
      obtain ⟨above, habove⟩ := Option.isSome_iff_exists.mp habove
      obtain ⟨path, hpath⟩ := ih parent hlt habove
      exact ⟨id :: path, .up hopen hparent hpath⟩

end Tree

/-! ### Closing that stops at a fault -/

/-- What would be wrong with the scopes on the way up. -/
inductive ClosingFault where
  /-- A scope on the way is not open. -/
  | missing (id : Nat)
  /-- A scope that counts no children loses one. -/
  | underflow (id : Nat)
  /-- The way goes on after the last round. -/
  | outOfRounds
deriving DecidableEq

/-- A scope that was below another one is gone, and that one has counted it. -/
def uncountChecked (entries : Table Nat OpenScope) :
    Option Nat → Except ClosingFault (Table Nat OpenScope)
  | none => .ok entries
  | some parent =>
    match entries.get? parent with
    | none => .error (.missing parent)
    | some above =>
      if above.openChildren = 0 then .error (.underflow parent)
      else .ok (entries.insert parent { above with openChildren := above.openChildren - 1 })

/-- Closes upwards in a number of rounds, and stops at the first fault. -/
def closeUpChecked : Nat → Table Nat OpenScope → Option Nat →
    Except ClosingFault (List Nat × Table Nat OpenScope)
  | _, entries, none => .ok ([], entries)
  | 0, _, some _ => .error .outOfRounds
  | rounds + 1, entries, some id =>
    match entries.get? id with
    | none => .error (.missing id)
    | some scope =>
      if scope.nodeFinished && scope.openChildren == 0 then do
        let entries ← uncountChecked (entries.erase id) scope.parent
        let (closed, entries) ← closeUpChecked rounds entries scope.parent
        return (id :: closed, entries)
      else .ok ([], entries)

/-- The node on a scope has finished; closing stops at the first fault. -/
def finishChecked (t : ScopeTable) (rounds id : Nat) :
    Except ClosingFault (Option (List Nat × ScopeTable)) :=
  match t.entries.get? id with
  | some scope =>
    if scope.nodeFinished then .ok none
    else do
      let entries := t.entries.insert id { scope with nodeFinished := true }
      let (closed, entries) ← closeUpChecked rounds entries (some id)
      return some (closed, { t with entries })
  | none => .ok none

theorem closeUpChecked_none (rounds : Nat) (entries : Table Nat OpenScope) :
    closeUpChecked rounds entries none = .ok ([], entries) := by
  cases rounds <;> rfl

theorem closeUp_none (rounds : Nat) (entries : Table Nat OpenScope) :
    closeUp rounds entries none = ([], entries) := by
  cases rounds <;> rfl

namespace Tree

/-- The parent of an open scope is open and counts it. -/
theorem uncountChecked_eq (h : Tree next entries loose) {scope : OpenScope}
    (hopen : entries.get? id = some scope) :
    uncountChecked (entries.erase id) scope.parent =
      .ok (uncount (entries.erase id) scope.parent) := by
  cases hparent : scope.parent with
  | none => rfl
  | some parent =>
    obtain ⟨hlt, habove⟩ := h.parent_open id scope parent hopen hparent
    obtain ⟨above, habove⟩ := Option.isSome_iff_exists.mp habove
    have hleft : (entries.erase id).get? parent = some above := by
      rw [Table.get?_erase, if_neg (Nat.ne_of_gt hlt), habove]
    have hcounts : above.openChildren ≠ 0 := fun hnone ↦ h.parent_ne habove hnone hopen hparent
    simp only [uncountChecked, hleft, if_neg hcounts, uncount, Table.modify_of_some hleft]

/-- What closing a scope leaves above it is the way up that there was. -/
theorem ancestry_close (h : Tree next entries loose) {scope : OpenScope} {parent : Nat}
    {above : List Nat} (hopen : entries.get? id = some scope) (hparent : scope.parent = some parent)
    (hpath : Ancestry entries parent above) :
    Ancestry (uncount (entries.erase id) scope.parent) parent above := by
  refine hpath.of_parents fun top htop ↦ ?_
  have hle := h.le_of_mem_ancestry hpath top htop
  have hlt := (h.parent_open id scope parent hopen hparent).1
  have hne : id ≠ top := by omega
  rw [get?_uncount, Table.get?_erase, if_neg hne]
  split
  · rw [Option.map_map]
    rfl
  · rfl

/-- Assumes: a tree in which one scope may be due to close. As many rounds as there are scopes from
that one to the top meet no fault and close what closing closes. -/
theorem closeUpChecked_eq {rounds : Nat} (h : Tree next entries (some id))
    (hpath : Ancestry entries id path) (hrounds : entries.size ≤ rounds) :
    closeUpChecked path.length entries (some id) = .ok (closeUp rounds entries (some id)) := by
  -- A round leads from a scope to its parent and from one tree to the next.
  induction path generalizing entries id rounds with
  | nil => cases hpath
  | cons first above ih =>
    obtain ⟨scope, hopen⟩ := hpath.exists_scope
    have hless := Table.size_erase_lt hopen
    obtain ⟨rounds, rfl⟩ : ∃ fewer, rounds = fewer + 1 := Nat.exists_eq_succ_of_ne_zero (by omega)
    rw [List.length_cons]
    simp only [closeUpChecked, closeUp, hopen]
    split
    · rename_i hdue
      rw [Bool.and_eq_true, beq_iff_eq] at hdue
      have hclose := h.close hopen hdue.2
      have habove : closeUpChecked above.length (uncount (entries.erase id) scope.parent)
          scope.parent = .ok (closeUp rounds (uncount (entries.erase id) scope.parent)
            scope.parent) := by
        cases hparent : scope.parent with
        | none => rw [closeUpChecked_none, closeUp_none]
        | some parent =>
          have hrest := h.ancestry_close hopen hparent (hpath.of_parent hopen hparent)
          rw [hparent] at hclose hrest
          exact ih hclose hrest (by rw [size_uncount]; omega)
      rw [h.uncountChecked_eq hopen]
      simp only [bind, Except.bind, habove, pure, Except.pure]
    · rfl

/-- The node on a scope can finish in as many rounds as the scope is deep. -/
theorem finishChecked_eq {t : ScopeTable} (h : Tree t.next t.entries none)
    (hpath : Ancestry t.entries id path) :
    t.finishChecked path.length id = .ok (t.finish id) := by
  unfold finishChecked finish
  cases hopen : t.entries.get? id with
  | none => rfl
  | some scope =>
    dsimp only
    split
    · rfl
    · have hmarked :
          Ancestry (t.entries.insert id { scope with nodeFinished := true }) id path := by
        refine hpath.of_parents fun top _ ↦ ?_
        rw [Table.get?_insert]
        split
        · rename_i hself
          rw [← hself, hopen]
          rfl
        · rfl
      rw [(h.mark hopen).closeUpChecked_eq hmarked (Nat.le_refl _)]
      rfl

end Tree

/-! ### Regular scopes -/

/-- The scopes right below one. -/
def children (entries : Table Nat OpenScope) (id : Nat) : Finset Nat :=
  ((entries.entries.filter fun entry ↦ entry.2.parent == some id).map (·.1)).toFinset

theorem mem_children (h : entries.Distinct) {child : Nat} :
    child ∈ children entries id ↔
      ∃ below, entries.get? child = some below ∧ below.parent = some id := by
  simp only [children, List.mem_toFinset, List.mem_map, List.mem_filter, beq_iff_eq]
  constructor
  · rintro ⟨⟨_, below⟩, ⟨hmem, hparent⟩, rfl⟩
    exact ⟨below, h.get?_of_mem hmem, hparent⟩
  · rintro ⟨below, hchild, hparent⟩
    exact ⟨(child, below), ⟨Table.mem_of_get? hchild, hparent⟩, rfl⟩

theorem card_children (h : entries.Distinct) (id : Nat) :
    (children entries id).card = childCount entries id := by
  rw [children, List.toFinset_card_of_nodup (h.sublist (List.filter_sublist.map _)),
    List.length_map, ← List.countP_eq_length_filter]
  rfl

/-- What holds of the scopes of a run at every moment. -/
structure Regular (t : ScopeTable) : Prop where
  /-- A scope counts the open scopes that it is the parent of. -/
  counted : ∀ id scope, t.entries.get? id = some scope → ∃ below : Finset Nat,
    (∀ child, child ∈ below ↔
      ∃ other, t.entries.get? child = some other ∧ other.parent = some id) ∧
    scope.openChildren = below.card
  parent_open : ∀ id scope parent, t.entries.get? id = some scope → scope.parent = some parent →
    parent < id ∧ (t.entries.get? parent).isSome
  lt_next : ∀ id scope, t.entries.get? id = some scope → id < t.next
  held : ∀ id scope, t.entries.get? id = some scope →
    ¬ (scope.nodeFinished = true ∧ scope.openChildren = 0)
  deep : ∀ id scope, t.entries.get? id = some scope → ∃ path, Ancestry t.entries id path
  /-- Finishing the node on a scope meets no fault, in as many rounds as the scope is deep. -/
  finish_checked : ∀ id path, Ancestry t.entries id path →
    t.finishChecked path.length id = .ok (t.finish id)

theorem Tree.regular {t : ScopeTable} (h : Tree t.next t.entries none) : t.Regular where
  counted id scope hopen := ⟨children t.entries id, fun _ ↦ mem_children h.distinct,
    (h.counted id scope hopen).trans (card_children h.distinct id).symm⟩
  parent_open := h.parent_open
  lt_next := h.lt_next
  held id scope hopen hover := by cases h.held id scope hopen hover.1 hover.2
  deep _ _ hopen := h.exists_ancestry hopen
  finish_checked _ _ hpath := h.finishChecked_eq hpath

end ScopeTable

namespace Interpreter

/-! ### States that calls lead to -/

/-- The states that calls lead to from an interpreter without runs. A call has changed the state
before it tells the host, so what a host calls meanwhile comes after it. Only a graph without nodes
finishes once its root is told of; `begin` is the state before that. -/
inductive Reached : Interpreter → Prop
  | idle (lastHandle : Nat) (graphs : Table Nat Graph) : Reached { lastHandle, graphs }
  | load {e : Interpreter} (h : Reached e) (registry : Registry) (text : String) :
      Reached (e.load registry text).2
  | begin {e : Interpreter} (h : Reached e) {handle : Nat} {graph : Graph}
      (hgraph : e.graphs.get? handle = some graph) (run : RunId) (inputs : Inputs) :
      Reached { e with runs := e.runs.insert run { graph, inputs, scopes := .initial } }
  | execute {e : Interpreter} (h : Reached e) (handle : Nat) (run : RunId) (inputs : Inputs)
      (view : Bindings) : Reached (e.execute handle run inputs view).state
  | trigger {e : Interpreter} (h : Reached e) (run : RunId) (scope : Nat) (node pin : String)
      (view : Bindings) : Reached (e.trigger run scope node pin view).state
  | finish {e : Interpreter} (h : Reached e) (run : RunId) (scope : Nat) :
      Reached (e.finish run scope).state
  | endRun {e : Interpreter} (h : Reached e) (run : RunId) : Reached (e.endRun run)
  | release {e : Interpreter} (h : Reached e) (handle : Nat) : Reached (e.release handle)

/-- The scopes of every run are a tree. -/
def Treelike (e : Interpreter) : Prop :=
  e.runs.All fun active ↦ ScopeTable.Tree active.scopes.next active.scopes.entries none

variable {e : Interpreter}

theorem Treelike.begin (h : e.Treelike) (run : RunId) (graph : Graph) (inputs : Inputs) :
    Treelike { e with runs := e.runs.insert run { graph, inputs, scopes := .initial } } :=
  Table.All.insert h run ScopeTable.tree_initial

theorem Treelike.load (h : e.Treelike) (registry : Registry) (text : String) :
    (e.load registry text).2.Treelike := by
  unfold Interpreter.load
  split
  · exact h
  · split
    · exact h
    · exact h

theorem Treelike.finish (h : e.Treelike) (run : RunId) (scope : Nat) :
    (e.finish run scope).state.Treelike := by
  unfold Interpreter.finish
  split
  · exact h
  · rename_i active hactive
    split
    · exact h
    · rename_i closed scopes hfinish
      exact Table.All.insert h run
        (ScopeTable.finishes_of_finish (Table.All.get? h hactive) hfinish).tree

theorem Treelike.execute (h : e.Treelike) (handle : Nat) (run : RunId) (inputs : Inputs)
    (view : Bindings) : (e.execute handle run inputs view).state.Treelike := by
  unfold Interpreter.execute
  split
  · exact h
  · rename_i graph hgraph
    split
    · exact h.begin run graph inputs
    · exact (h.begin run graph inputs).finish run rootScope

/-- Whatever scope the branch starts from. -/
theorem Treelike.trigger (h : e.Treelike) (run : RunId) (scope : Nat) (node pin : String)
    (view : Bindings) : (e.trigger run scope node pin view).state.Treelike := by
  unfold Interpreter.trigger
  split
  · exact h
  · rename_i active hactive
    split
    · exact h
    · split
      · exact h
      · rename_i target htarget
        exact Table.All.insert h run ((Table.All.get? h hactive).openNext target.isSome scope)

theorem Reached.treelike (h : Reached e) : e.Treelike := by
  induction h with
  | idle lastHandle graphs => exact Table.all_empty
  | load h registry text ih => exact ih.load registry text
  | begin h hgraph run inputs ih => exact ih.begin run _ inputs
  | execute h handle run inputs view ih => exact ih.execute handle run inputs view
  | trigger h run scope node pin view ih => exact ih.trigger run scope node pin view
  | finish h run scope ih => exact ih.finish run scope
  | endRun h run ih => exact Table.All.erase ih run
  | release h handle ih => exact ih

/-- In every state that calls lead to, the scopes of every run are regular: the counts are right,
parents are open and older, and no scope stays open without a reason. So the node on any scope can
finish without a fault, in as many rounds as the scope is deep. -/
theorem regular_of_reached (h : Reached e) {run : RunId} {active : ActiveRun}
    (hactive : e.runs.get? run = some active) : active.scopes.Regular :=
  (h.treelike.get? hactive).regular

/-- Two nodes have returned that the scopes below hold open. When the deepest one returns, its scope
and the one above close, and the root stays. -/
theorem regular_of_forked :
    let begun := (execute { graphs := .ofList [(1, .forked)] } 1 7 {} {}).state
    let opened := [(0, "then_0"), (0, "then_1"), (1, "then_0")].foldl
      (fun e (scope, pin) ↦ (e.trigger 7 scope "fork" pin {}).state) begun
    let returned := [0, 1].foldl (fun e scope ↦ (e.finish 7 scope).state) opened
    let scopes : ScopeTable := {
      next := 4
      entries := ⟨[(0, { nodeFinished := true, openChildren := 2 }),
        (1, { parent := some 0, nodeFinished := true, openChildren := 1 }),
        (2, { parent := some 0 }), (3, { parent := some 1 })]⟩ }
    Reached returned ∧
      returned.runs.get? 7 = some { graph := .forked, inputs := {}, scopes } ∧
      (scopes.finish 3).map (·.1) = some [3, 1] ∧ scopes.Regular := by
  intro begun opened returned scopes
  have hbegun : Reached begun := (Reached.idle 0 _).execute 1 7 {} {}
  have hopened : Reached opened :=
    ((hbegun.trigger 7 0 "fork" "then_0" {}).trigger 7 0 "fork" "then_1" {}).trigger 7 1 "fork"
      "then_0" {}
  have hreturned : Reached returned := (hopened.finish 7 0).finish 7 1
  have hactive : returned.runs.get? 7 = some { graph := .forked, inputs := {}, scopes } := rfl
  exact ⟨hreturned, hactive, rfl, regular_of_reached hreturned hactive⟩

end Interpreter

end Blueprint

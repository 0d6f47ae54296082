import Blueprint.Proofs.Interpreter.Calls
import Blueprint.Interpreter.Session
import Mathlib.Logic.Relation

/-!
The scopes of a run as its calls make them, told apart from how the interpreter keeps them. A
lineage notes which scopes were opened and below which, which came from pins that lead nowhere, and
whose nodes were accepted as finished. It is read off the calls and their answers alone.

`Lineage.Obeyed` is the law of completion: scopes are reported dispatched in the order of their
ids, and a scope is reported completed exactly when it leads nowhere or its node and the nodes of
all scopes below it have finished, once, after its dispatch and after all scopes below it.
`Lineage.Tracks` ties a lineage to the interpreter's counters, and implies the law
(`Tracks.obeyed`).
-/

set_option autoImplicit false

namespace Blueprint

/-- The scopes reported dispatched, in order. -/
def dispatchedIn (told : List Callback) : List Nat := told.filterMap Callback.dispatched?

/-- The scopes reported completed, in order. -/
def completedIn (told : List Callback) : List Nat := told.filterMap Callback.completed?

theorem mem_completedIn {told : List Callback} {scope : Nat} :
    scope ∈ completedIn told ↔ .completed scope ∈ told := by
  rw [completedIn, List.mem_filterMap]
  constructor
  · rintro ⟨callback, hmem, hscope⟩
    cases callback <;> simp [Callback.completed?] at hscope
    exact hscope ▸ hmem
  · exact fun hmem ↦ ⟨_, hmem, rfl⟩

theorem dispatchedIn_append (told more : List Callback) :
    dispatchedIn (told ++ more) = dispatchedIn told ++ dispatchedIn more :=
  List.filterMap_append

theorem completedIn_append (told more : List Callback) :
    completedIn (told ++ more) = completedIn told ++ completedIn more :=
  List.filterMap_append

theorem dispatchedIn_completed (closed : List Nat) :
    dispatchedIn (closed.map .completed) = [] := by
  induction closed with
  | nil => rfl
  | cons id closed ih => exact ih

theorem completedIn_completed (closed : List Nat) :
    completedIn (closed.map .completed) = closed := by
  induction closed with
  | nil => rfl
  | cons id closed ih => exact congrArg (id :: ·) ih

theorem dispatchedIn_startNode (inputs : Inputs) (view : Bindings) (node : NodeDocument)
    (scope : Nat) :
    dispatchedIn (.dispatched scope :: Interpreter.startNode inputs view node scope) = [scope] :=
  congrArg (scope :: ·)
    (Interpreter.filterMap_startNode inputs view node scope (fun _ _ _ ↦ rfl) fun _ ↦ rfl)

theorem completedIn_startNode (inputs : Inputs) (view : Bindings) (node : NodeDocument)
    (scope : Nat) :
    completedIn (.dispatched scope :: Interpreter.startNode inputs view node scope) = [] :=
  Interpreter.filterMap_startNode inputs view node scope (fun _ _ _ ↦ rfl) fun _ ↦ rfl

/-- The scopes of one run. -/
structure Lineage where
  /-- The scopes that were opened, each with the scope it is a child of. -/
  opened : List (Nat × Option Nat)
  /-- The scopes of exec pins that lead nowhere. -/
  unwired : List Nat := []
  /-- The scopes whose nodes were accepted as finished. -/
  returned : List Nat := []

namespace Lineage

/-- At its start a run has its root. The root of a graph without nodes has finished at once. -/
def start (graph : Graph) : Lineage :=
  { opened := [(rootScope, none)], returned := if graph.nodes.isEmpty then [rootScope] else [] }

/-- Whether a scope is open, by what was told of the run. -/
def isOpenIn (told : List Callback) (scope : Nat) : Bool :=
  (dispatchedIn told).contains scope && !(completedIn told).contains scope

/-- What a call on a run, and its answer, make of the run's scopes. A wired trigger opens a child of
the scope it was made from, if that one was open. -/
def after (l : Lineage) (graph : Graph) (run : RunId) (told : List Callback) :
    EngineCall → EngineAnswer → Lineage
  | .trigger other scope node pin, .scope child =>
    if other = run then
      match graph.target? node pin with
      | some (some _) =>
        { l with opened := l.opened ++ [(child, if isOpenIn told scope then some scope else none)] }
      | _ => { l with unwired := l.unwired ++ [child] }
    else l
  | .finish other scope, .done =>
    if other = run then { l with returned := l.returned ++ [scope] } else l
  | _, _ => l

/-- One scope was opened right below another. -/
def IsChild (l : Lineage) (child parent : Nat) : Prop := (child, some parent) ∈ l.opened

/-- One scope is below another. -/
def Below (l : Lineage) : Nat → Nat → Prop := Relation.TransGen l.IsChild

/-- The law of completion, for what was told of a run. -/
structure Obeyed (l : Lineage) (told : List Callback) : Prop where
  /-- Every scope is reported dispatched once, in the order 0, 1, 2, … -/
  dispatched_eq : dispatchedIn told = List.range (l.opened.length + l.unwired.length)
  completed_iff : ∀ scope, scope ∈ completedIn told ↔ scope ∈ l.unwired ∨
    (scope ∈ l.returned ∧ ∀ below, l.Below below scope → below ∈ l.returned)
  completed_once : (completedIn told).Nodup
  /-- When a scope is reported completed, its dispatch and the completions of all scopes below it
  have been reported. -/
  completed_after : ∀ before scope later, told = before ++ .completed scope :: later →
    scope ∈ dispatchedIn before ∧ ∀ below, l.Below below scope → below ∈ completedIn before

/-- A lineage agrees with the open scopes of a run and with what was told of it. -/
structure Tracks (l : Lineage) (t : ScopeTable) (told : List Callback) : Prop where
  tree : ScopeTable.Tree t.next t.entries none
  dispatched_eq : dispatchedIn told = List.range t.next
  next_eq : t.next = l.opened.length + l.unwired.length
  open_iff : ∀ id, (t.entries.get? id).isSome ↔ id < t.next ∧ id ∉ completedIn told
  entry : ∀ id scope, t.entries.get? id = some scope →
    (id, scope.parent) ∈ l.opened ∧ (scope.nodeFinished = true ↔ id ∈ l.returned)
  opened_lt : ∀ id parent, (id, parent) ∈ l.opened → id < t.next ∧ ∀ top ∈ parent, top < id
  opened_nodup : (l.opened.map (·.1)).Nodup
  unwired_lt : ∀ id ∈ l.unwired, id < t.next
  returned_lt : ∀ id ∈ l.returned, id < t.next
  opened_unwired : ∀ id parent, (id, parent) ∈ l.opened → id ∉ l.unwired
  unwired_completed : ∀ id ∈ l.unwired, id ∈ completedIn told
  completed_cases : ∀ id ∈ completedIn told, id ∈ l.unwired ∨ id ∈ l.returned
  completed_once : (completedIn told).Nodup
  completed_after : ∀ before id later, told = before ++ .completed id :: later →
    id ∈ dispatchedIn before ∧ ∀ child, l.IsChild child id → child ∈ completedIn before

namespace Tracks

variable {l : Lineage} {t : ScopeTable} {told : List Callback}

theorem mem_dispatchedIn (h : l.Tracks t told) {id : Nat} :
    id ∈ dispatchedIn told ↔ id < t.next := by
  rw [h.dispatched_eq, List.mem_range]

theorem isOpenIn_iff (h : l.Tracks t told) {id : Nat} :
    isOpenIn told id = true ↔ (t.entries.get? id).isSome := by
  simp [isOpenIn, h.open_iff, h.mem_dispatchedIn]

theorem opened_of_child (h : l.Tracks t told) {child parent : Nat} (hchild : l.IsChild child parent) :
    child < t.next ∧ parent < child :=
  ⟨(h.opened_lt child _ hchild).1, (h.opened_lt child _ hchild).2 parent rfl⟩

/-- An open scope is a child of the scope the interpreter keeps as its parent, and of no other. -/
theorem parent_eq (h : l.Tracks t told) {id : Nat} {scope : OpenScope}
    (hopen : t.entries.get? id = some scope) {parent : Option Nat} (hmem : (id, parent) ∈ l.opened) :
    scope.parent = parent := by
  have hpair := List.inj_on_of_nodup_map h.opened_nodup (h.entry id scope hopen).1 hmem rfl
  exact congrArg Prod.snd hpair

/-- Assumes: a scope reported completed. So were all scopes below it, before it. -/
theorem below_completed (h : l.Tracks t told) {below scope : Nat} (hbelow : l.Below below scope) :
    ∀ before later, told = before ++ .completed scope :: later → below ∈ completedIn before := by
  induction hbelow with
  | single hchild => exact fun before later hsplit ↦ (h.completed_after before _ later hsplit).2 _ hchild
  | @tail middle scope hbelow hchild ih =>
    intro before later hsplit
    have hmiddle := mem_completedIn.mp ((h.completed_after before scope later hsplit).2 middle hchild)
    obtain ⟨first, rest, rfl⟩ := List.append_of_mem hmiddle
    have hbefore := ih first (rest ++ .completed scope :: later) (by simp [hsplit])
    rw [completedIn_append]
    exact List.mem_append_left _ hbefore

theorem opened_of_below {below scope : Nat} (hbelow : l.Below below scope) :
    ∃ parent, (below, parent) ∈ l.opened := by
  induction hbelow with
  | single hchild => exact ⟨_, hchild⟩
  | tail _ _ ih => exact ih

/-- Assumes: the nodes of a scope and of all scopes below it have finished. The scope has been
reported completed: otherwise it would be open, with an open child of the same kind. -/
theorem completed_of_returned (h : l.Tracks t told) {scope : Nat} (hscope : scope ∈ l.returned)
    (hbelow : ∀ below, l.Below below scope → below ∈ l.returned) : scope ∈ completedIn told := by
  induction hage : t.next - scope using Nat.strongRecOn generalizing scope with
  | ind age ih =>
    by_contra hmissing
    obtain ⟨entry, hentry⟩ := Option.isSome_iff_exists.mp
      ((h.open_iff scope).mpr ⟨h.returned_lt scope hscope, hmissing⟩)
    have hfinished := (h.entry scope entry hentry).2.mpr hscope
    have hchildren : entry.openChildren ≠ 0 := fun hnone ↦ by
      simpa using h.tree.held scope entry hentry hfinished hnone
    obtain ⟨child, below, hchild, hparent⟩ := h.tree.exists_child hentry hchildren
    have hmem : l.IsChild child scope := by
      rw [IsChild, ← hparent]
      exact (h.entry child below hchild).1
    have hlt := h.opened_of_child hmem
    have hdone := ih (t.next - child) (by omega) (hbelow child (.single hmem))
      (fun other hother ↦ hbelow other (hother.tail hmem)) rfl
    exact ((h.open_iff child).mp (by simp [hchild])).2 hdone

theorem obeyed (h : l.Tracks t told) : l.Obeyed told := by
  refine ⟨h.next_eq ▸ h.dispatched_eq, fun scope ↦ ⟨fun hscope ↦ ?_, ?_⟩, h.completed_once, ?_⟩
  · refine (h.completed_cases scope hscope).imp_right fun hreturned ↦ ⟨hreturned, ?_⟩
    intro below hbelow
    obtain ⟨before, later, hsplit⟩ := List.append_of_mem (mem_completedIn.mp hscope)
    have hbefore := h.below_completed hbelow before later hsplit
    obtain ⟨parent, hopened⟩ := opened_of_below hbelow
    refine (h.completed_cases below ?_).resolve_left (h.opened_unwired below parent hopened)
    rw [hsplit, completedIn_append]
    exact List.mem_append_left _ hbefore
  · rintro (hunwired | ⟨hreturned, hbelow⟩)
    · exact h.unwired_completed scope hunwired
    · exact h.completed_of_returned hreturned hbelow
  · intro before scope later hsplit
    exact ⟨(h.completed_after before scope later hsplit).1,
      fun below hbelow ↦ h.below_completed hbelow before later hsplit⟩

/-! ### Calls -/

/-- Assumes: more is told after `told`, and a completion in it. The completion was told before, or
it is among the rest. -/
theorem split_told {told more before later : List Callback} {callback : Callback}
    (h : told ++ more = before ++ callback :: later) :
    (∃ rest, told = before ++ callback :: rest) ∨
      ∃ mid, before = told ++ mid ∧ more = mid ++ callback :: later := by
  rcases List.append_eq_append_iff.mp h with ⟨mid, hbefore, hmore⟩ | ⟨rest, htold, hlater⟩
  · exact Or.inr ⟨mid, hbefore, hmore⟩
  · cases rest with
    | nil => exact Or.inr ⟨[], by simpa using htold.symm, by simpa using hlater.symm⟩
    | cons first rest =>
      rw [List.cons_append, List.cons.injEq] at hlater
      exact Or.inl ⟨rest, by rw [htold, hlater.1]⟩

theorem not_completed_of_lt (h : l.Tracks t told) {id : Nat} (hid : t.next ≤ id) :
    id ∉ completedIn told := by
  intro hmem
  have hlt : id < t.next := (h.completed_cases id hmem).elim (h.unwired_lt id) (h.returned_lt id)
  omega

/-- A trigger of a pin that leads nowhere. -/
theorem openUnwired (h : l.Tracks t told) (scope : Nat) :
    Tracks { l with unwired := l.unwired ++ [t.next] } (t.openNext false scope)
      (told ++ [.dispatched t.next, .completed t.next]) := by
  have hdispatched : dispatchedIn (told ++ [.dispatched t.next, .completed t.next]) =
      dispatchedIn told ++ [t.next] := dispatchedIn_append _ _
  have hcompleted : completedIn (told ++ [.dispatched t.next, .completed t.next]) =
      completedIn told ++ [t.next] := completedIn_append _ _
  have hnew := h.not_completed_of_lt (Nat.le_refl t.next)
  rw [ScopeTable.openNext_unwired]
  constructor
  case tree => exact h.tree.mono (Nat.le_succ _)
  case dispatched_eq => rw [hdispatched, h.dispatched_eq, List.range_succ]
  case next_eq =>
    have hnext := h.next_eq
    simp only [List.length_append, List.length_singleton]
    omega
  case open_iff =>
    intro id
    rw [hcompleted, h.open_iff id, List.mem_append, List.mem_singleton]
    constructor
    · rintro ⟨hlt, hmem⟩
      exact ⟨Nat.lt_succ_of_lt hlt, fun hor ↦ hor.elim hmem fun heq ↦ by omega⟩
    · rintro ⟨hlt, hmem⟩
      have hne : id ≠ t.next := fun heq ↦ hmem (Or.inr heq)
      exact ⟨(Nat.lt_succ_iff_lt_or_eq.mp hlt).resolve_right hne, fun hin ↦ hmem (Or.inl hin)⟩
  case entry => exact h.entry
  case opened_lt =>
    intro id parent hmem
    exact ⟨Nat.lt_succ_of_lt (h.opened_lt id parent hmem).1, (h.opened_lt id parent hmem).2⟩
  case opened_nodup => exact h.opened_nodup
  case unwired_lt =>
    intro id hmem
    rcases List.mem_append.mp hmem with hold | hone
    · exact Nat.lt_succ_of_lt (h.unwired_lt id hold)
    · exact (List.mem_singleton.mp hone) ▸ Nat.lt_succ_self _
  case returned_lt => exact fun id hmem ↦ Nat.lt_succ_of_lt (h.returned_lt id hmem)
  case opened_unwired =>
    intro id parent hmem hor
    rcases List.mem_append.mp hor with hold | hone
    · exact h.opened_unwired id parent hmem hold
    · have hlt := (h.opened_lt id parent hmem).1
      rw [List.mem_singleton.mp hone] at hlt
      omega
  case unwired_completed =>
    intro id hmem
    rw [hcompleted]
    rcases List.mem_append.mp hmem with hold | hone
    · exact List.mem_append_left _ (h.unwired_completed id hold)
    · exact List.mem_append_right _ hone
  case completed_cases =>
    intro id hmem
    rw [hcompleted] at hmem
    rcases List.mem_append.mp hmem with hold | hone
    · exact (h.completed_cases id hold).imp_left (List.mem_append_left _)
    · exact Or.inl (List.mem_append_right _ hone)
  case completed_once =>
    rw [hcompleted]
    exact List.nodup_append.mpr ⟨h.completed_once, by simp, fun id hid other hother ↦
      fun heq ↦ hnew ((List.mem_singleton.mp hother) ▸ heq ▸ hid)⟩
  case completed_after =>
    intro before id later hsplit
    rcases split_told hsplit with ⟨rest, htold⟩ | ⟨mid, rfl, hmore⟩
    · exact h.completed_after before id rest htold
    · have hid : mid = [.dispatched t.next] ∧ id = t.next := by
        match mid, hmore with
        | [], hmore => simp at hmore
        | [first], hmore =>
          simp only [List.singleton_append, List.cons.injEq, Callback.completed.injEq] at hmore
          exact ⟨by rw [← hmore.1], hmore.2.1.symm⟩
        | first :: second :: mid, hmore => simp at hmore
      obtain ⟨rfl, rfl⟩ := hid
      refine ⟨by simp [dispatchedIn, Callback.dispatched?], ?_⟩
      intro child hchild
      have hlt := h.opened_of_child hchild
      omega

/-- A trigger of a wired pin. Assumes: the new scope's dispatch is told, and no completion. -/
theorem openWired (h : l.Tracks t told) (scope : Nat) {more : List Callback}
    (hmore : dispatchedIn more = [t.next]) (hnone : completedIn more = []) :
    Tracks { l with
        opened := l.opened ++ [(t.next, if isOpenIn told scope then some scope else none)] }
      (t.openNext true scope) (told ++ more) := by
  have hdispatched : dispatchedIn (told ++ more) = dispatchedIn told ++ [t.next] := by
    rw [dispatchedIn_append, hmore]
  have hcompleted : completedIn (told ++ more) = completedIn told := by
    rw [completedIn_append, hnone, List.append_nil]
  have hparent : (t.entries.get? scope).map (fun _ ↦ scope) =
      if isOpenIn told scope then some scope else none := by
    cases hscope : t.entries.get? scope with
    | none =>
      have hclosed : ¬ isOpenIn told scope = true := fun hopen ↦ by
        simpa [hscope] using h.isOpenIn_iff.mp hopen
      rw [if_neg hclosed, Option.map_none]
    | some entry => rw [if_pos (h.isOpenIn_iff.mpr (by simp [hscope])), Option.map_some]
  have hlast {id : Nat} {parent : Option Nat} (hmem : (id, parent) ∈ l.opened ++
      [(t.next, if isOpenIn told scope then some scope else none)]) :
      (id, parent) ∈ l.opened ∨ id = t.next ∧ parent = (t.entries.get? scope).map fun _ ↦ scope := by
    rw [List.mem_append, List.mem_singleton, Prod.mk.injEq, ← hparent] at hmem
    exact hmem
  constructor
  case tree => exact h.tree.openNext true scope
  case dispatched_eq =>
    rw [hdispatched, h.dispatched_eq, ScopeTable.next_openNext, List.range_succ]
  case next_eq =>
    have hnext := h.next_eq
    simp only [ScopeTable.next_openNext, List.length_append, List.length_singleton]
    omega
  case open_iff =>
    intro id
    rw [hcompleted, ScopeTable.next_openNext]
    by_cases hid : t.next = id
    · subst hid
      rw [ScopeTable.get?_openNext_next]
      simp [h.not_completed_of_lt (Nat.le_refl _)]
    · obtain ⟨change, hchange⟩ := ScopeTable.get?_openNext_of_ne hid scope
      rw [hchange, Option.isSome_map, h.open_iff id, Nat.lt_succ_iff_lt_or_eq, or_iff_left (Ne.symm hid)]
  case entry =>
    intro id entry hentry
    by_cases hid : t.next = id
    · subst hid
      rw [ScopeTable.get?_openNext_next, Option.some.injEq] at hentry
      subst hentry
      have hfresh : t.next ∉ l.returned := fun hmem ↦ Nat.lt_irrefl _ (h.returned_lt _ hmem)
      exact ⟨List.mem_append_right _ (by rw [hparent]; exact List.mem_singleton_self _),
        by simp [hfresh]⟩
    · obtain ⟨change, hchange⟩ := ScopeTable.get?_openNext_of_ne hid scope
      obtain ⟨was, hwas, rfl⟩ := Option.map_eq_some_iff.mp (hchange.symm.trans hentry)
      exact ⟨List.mem_append_left _ (h.entry id was hwas).1, (h.entry id was hwas).2⟩
  case opened_lt =>
    intro id parent hmem
    rw [ScopeTable.next_openNext]
    rcases hlast hmem with hold | ⟨rfl, rfl⟩
    · exact ⟨Nat.lt_succ_of_lt (h.opened_lt id parent hold).1, (h.opened_lt id parent hold).2⟩
    · refine ⟨Nat.lt_succ_self _, fun top htop ↦ ?_⟩
      obtain ⟨entry, hentry, rfl⟩ := Option.map_eq_some_iff.mp htop
      exact h.tree.lt_next scope entry hentry
  case opened_nodup =>
    rw [List.map_append, List.nodup_append]
    refine ⟨h.opened_nodup, by simp, fun id hid other hother heq ↦ ?_⟩
    obtain ⟨⟨_, parent⟩, hmem, rfl⟩ := List.mem_map.mp hid
    have hlt := (h.opened_lt _ parent hmem).1
    simp only [List.map_cons, List.map_nil, List.mem_singleton] at hother
    omega
  case unwired_lt =>
    exact fun id hmem ↦ ScopeTable.next_openNext t true scope ▸ Nat.lt_succ_of_lt (h.unwired_lt id hmem)
  case returned_lt =>
    exact fun id hmem ↦ ScopeTable.next_openNext t true scope ▸ Nat.lt_succ_of_lt (h.returned_lt id hmem)
  case opened_unwired =>
    intro id parent hmem hunwired
    rcases hlast hmem with hold | ⟨rfl, -⟩
    · exact h.opened_unwired id parent hold hunwired
    · exact Nat.lt_irrefl _ (h.unwired_lt _ hunwired)
  case unwired_completed => exact fun id hmem ↦ hcompleted ▸ h.unwired_completed id hmem
  case completed_cases => exact fun id hmem ↦ h.completed_cases id (hcompleted ▸ hmem)
  case completed_once => exact hcompleted ▸ h.completed_once
  case completed_after =>
    intro before id later hsplit
    rcases split_told hsplit with ⟨rest, htold⟩ | ⟨mid, -, hin⟩
    · obtain ⟨hid, hchildren⟩ := h.completed_after before id rest htold
      refine ⟨hid, fun child hchild ↦ ?_⟩
      rcases hlast hchild with hold | ⟨-, hscope⟩
      · exact hchildren child hold
      · -- The new scope is below an open one, and this one has been reported completed.
        obtain ⟨entry, hentry, rfl⟩ := Option.map_eq_some_iff.mp hscope.symm
        have hclosed : scope ∈ completedIn told := mem_completedIn.mpr (htold ▸ by simp)
        exact absurd hclosed ((h.open_iff scope).mp (by simp [hentry])).2
    · have hmem : id ∈ completedIn more := mem_completedIn.mpr (hin ▸ by simp)
      simp [hnone] at hmem

end Tracks

end Lineage

end Blueprint

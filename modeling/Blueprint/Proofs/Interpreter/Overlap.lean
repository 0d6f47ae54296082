import Blueprint.Proofs.Interpreter.Starting
import Mathlib.Logic.Relation

/-!
Calls that overlap. A host may call the interpreter while it is told something, and so may others
meanwhile. A call changes the tables at once and makes its callbacks one by one, between which any
other calls may come (`Overlap.Move`). Each execution of a graph has a host of its own.

However calls overlap, every open scope of a run has one node invoked on it, or about to be by a call
under way: a call opens a scope together with the one invocation on it (`Session.mans_step`), the
ids of scopes are never used again, and what is told is what calls had to tell (`Overlap.perm_made`).
So once no call is under way, each open scope has had its node, and waits for that one or for one
below it (`Overlap.attended_of_moves`).
-/

set_option autoImplicit false

namespace Blueprint

/-- Whether a node is invoked on a scope. -/
def Callback.invokes (scope : Nat) : Callback → Bool
  | .invoke call => call.scope == scope
  | _ => false

/-- How many nodes are invoked on a scope. -/
def invokedOn (scope : Nat) (told : List Callback) : Nat := told.countP (·.invokes scope)

theorem invokedOn_append (scope : Nat) (first second : List Callback) :
    invokedOn scope (first ++ second) = invokedOn scope first + invokedOn scope second :=
  List.countP_append

/-! ### Scopes and invocations -/

namespace ScopeTable

/-- Every open scope has had one node invoked on it, and the scopes to come none. -/
structure Manned (t : ScopeTable) (invoked : Nat → Nat) : Prop where
  tree : Tree t.next t.entries none
  once : ∀ scope, (t.entries.get? scope).isSome → invoked scope = 1
  unused : ∀ scope, t.next ≤ scope → invoked scope = 0

variable {t : ScopeTable} {invoked : Nat → Nat}

theorem manned_initial : initial.Manned fun scope ↦ if rootScope = scope then 1 else 0 where
  tree := tree_initial
  once scope hopen := by
    by_cases hscope : rootScope = scope
    · exact if_pos hscope
    · simp [initial, hscope] at hopen
  unused scope hscope := if_neg fun heq ↦ by
    subst heq
    exact absurd hscope (Nat.not_succ_le_self _)

theorem manned_over : Manned { next := rootScope + 1, entries := {} } fun _ ↦ 0 where
  tree := ⟨Table.distinct_empty, nofun, nofun, nofun, nofun⟩
  once _ hopen := by cases hopen
  unused _ _ := rfl

theorem Manned.finish (h : t.Manned invoked) {id : Nat} {closed : List Nat} {later : ScopeTable}
    (hfinishes : Finishes t id closed later) : later.Manned invoked where
  tree := hfinishes.tree
  once scope hopen := by
    have hscope : scope ∉ closed := fun hmem ↦ by simp [(hfinishes.gone scope hmem).1] at hopen
    obtain ⟨change, hchange⟩ := hfinishes.rest scope hscope
    rw [hchange, Option.isSome_map] at hopen
    exact h.once scope hopen
  unused scope hscope := h.unused scope (hfinishes.next_eq ▸ hscope)

theorem Manned.openUnwired (h : t.Manned invoked) (parent : Nat) :
    (t.openNext false parent).Manned invoked where
  tree := h.tree.openNext false parent
  once := h.once
  unused scope hscope := h.unused scope (Nat.le_of_succ_le hscope)

/-- A scope is opened together with an invocation on it. -/
theorem Manned.openWired (h : t.Manned invoked) (parent : Nat) :
    (t.openNext true parent).Manned fun scope ↦ invoked scope + if t.next = scope then 1 else 0 where
  tree := h.tree.openNext true parent
  once scope hopen := by
    by_cases hscope : t.next = scope
    · rw [if_pos hscope, h.unused scope (Nat.le_of_eq hscope)]
    · obtain ⟨change, hchange⟩ := get?_openNext_of_ne hscope parent
      rw [hchange, Option.isSome_map] at hopen
      rw [if_neg hscope, h.once scope hopen]
  unused scope hscope := by
    rw [next_openNext] at hscope
    rw [if_neg (by omega), h.unused scope (by omega)]

/-- One open scope is another one or below it. -/
def Beneath (t : ScopeTable) : Nat → Nat → Prop :=
  Relation.ReflTransGen fun child parent ↦
    ∃ below, t.entries.get? child = some below ∧ below.parent = some parent

/-- Assumes: a tree of scopes. An open scope waits for its node or for that of a scope below it. -/
theorem Tree.exists_awaited (h : Tree t.next t.entries none) {scope : Nat}
    (hopen : (t.entries.get? scope).isSome) :
    ∃ below, t.Beneath below scope ∧ t.awaits below = true := by
  -- Children have later ids, so the search for one that is awaited goes towards the next id.
  induction hleft : t.next - scope using Nat.strongRecOn generalizing scope with
  | ind left ih =>
    obtain ⟨opened, hopened⟩ := Option.isSome_iff_exists.mp hopen
    by_cases hawaits : t.awaits scope = true
    · exact ⟨scope, .refl, hawaits⟩
    · have hdone : opened.nodeFinished = true := by simpa [awaits, hopened] using hawaits
      have hchildren : opened.openChildren ≠ 0 := fun hnone ↦ by
        cases h.held scope opened hopened hdone hnone
      obtain ⟨child, below, hchild, hparent⟩ := h.exists_child hopened hchildren
      have hlater := (h.parent_open child below scope hchild hparent).1
      have hlast := h.lt_next child below hchild
      obtain ⟨last, hbeneath, hlast⟩ :=
        ih (t.next - child) (by omega) (by simp [hchild]) rfl
      exact ⟨last, hbeneath.tail ⟨below, hchild, hparent⟩, hlast⟩

end ScopeTable

namespace Interpreter

/-- What is told when a node is handed to the host: the scope is reported, the inputs are visited in
turn, and the node is invoked. -/
def HandsOver (node : NodeDocument) (inputs : Inputs) (view : Bindings) (scope : Nat)
    (told : List Callback) : Prop :=
  ∃ bound later, Visits node.id inputs view node.inputs bound later ∧
    told = .dispatched scope :: bound ++
      [.invoke { scope, node := node.id, kind := node.kind, params := node.params }]

theorem handsOver_startNode (node : NodeDocument) (inputs : Inputs) (view : Bindings) (scope : Nat) :
    HandsOver node inputs view scope (.dispatched scope :: startNode inputs view node scope) :=
  ⟨_, _, visits_bindInputs node.id inputs view node.inputs, rfl⟩

theorem Visits.invokedOn {node : String} {inputs : Inputs} {view later : Bindings}
    {sources : List (String × InputSource)} {told : List Callback}
    (h : Visits node inputs view sources told later) (scope : Nat) : invokedOn scope told = 0 := by
  induction h with
  | done view => rfl
  | bound hvalue hrest ih => exact ih
  | passed hnone hrest ih => exact ih

/-- A node that is handed over is invoked once, and no other one. -/
theorem HandsOver.invokedOn {node : NodeDocument} {inputs : Inputs} {view : Bindings} {scope : Nat}
    {told : List Callback} (h : HandsOver node inputs view scope told) (other : Nat) :
    invokedOn other told = if scope = other then 1 else 0 := by
  obtain ⟨bound, later, hvisits, rfl⟩ := h
  have hdispatched : Blueprint.invokedOn other (.dispatched scope :: bound) = 0 :=
    hvisits.invokedOn other
  rw [invokedOn_append, hdispatched, Nat.zero_add]
  by_cases hscope : scope = other <;> simp [Blueprint.invokedOn, Callback.invokes, hscope]

end Interpreter

namespace Session

variable {s : Session}

/-- Whether a call begins an execution. -/
def begins (s : Session) (call : EngineCall) : Bool :=
  match call, (s.step call).1 with
  | .execute .., .scope _ => true
  | _, _ => false

/-- What a call makes of the scopes of its run, and on which of them it invokes a node. -/
inductive Mans (s : Session) (call : EngineCall) : Option ActiveRun → Prop
  /-- The call is refused, or it does not find the run. -/
  | idle {active : Option ActiveRun} {run : RunId} (hrun : call.run? = some run)
      (hsame : s.interpreter.runs.get? run = active) (hbegins : s.begins call = false)
      (htold : s.callbacks call = []) : Mans s call active
  /-- The run is forgotten. -/
  | gone (hbegins : s.begins call = false) (htold : s.callbacks call = []) : Mans s call none
  /-- An execution begins. -/
  | begun {active : ActiveRun} (hbegins : s.begins call = true)
      (hmanned : active.scopes.Manned fun scope ↦ invokedOn scope (s.callbacks call)) :
      Mans s call (some active)
  /-- The scopes of the run change. -/
  | changed {was active : ActiveRun} {run : RunId} (hrun : call.run? = some run)
      (hwas : s.interpreter.runs.get? run = some was) (hbegins : s.begins call = false)
      (hmanned : ∀ invoked, was.scopes.Manned invoked →
        active.scopes.Manned fun scope ↦ invoked scope + invokedOn scope (s.callbacks call)) :
      Mans s call (some active)

theorem invokedOn_completed (scope : Nat) (closed : List Nat) :
    invokedOn scope (closed.map .completed) = 0 := by
  simp [invokedOn, List.countP_eq_zero, Callback.invokes]

/-- Assumes: accepted graphs. -/
theorem mans_execute (haccepted : s.interpreter.GraphsAccepted) (handle : Nat) (run : RunId)
    (inputs : Inputs) : s.Mans (.execute handle run inputs)
      ((s.step (.execute handle run inputs)).2.interpreter.runs.get? run) := by
  cases hgraph : s.interpreter.graphs.get? handle with
  | none =>
    have hreply (view : Bindings) : s.interpreter.execute handle run inputs view =
        { outcome := .error (.unknownGraph handle), state := s.interpreter } := by
      simp [Interpreter.execute, hgraph]
    refine .idle rfl ?_ ?_ ?_
    · rw [step, accept, hreply]
    · simp [begins, step, hreply, EngineAnswer.ofExcept]
    · rw [callbacks, hreply]
  | some graph =>
    have hexecutes := Interpreter.executes_execute hgraph (haccepted handle graph hgraph).wired run
      inputs (s.host run).bindings
    generalize hreply : s.interpreter.execute handle run inputs (s.host run).bindings = reply
      at hexecutes
    have hbegins (hok : reply.outcome = .ok rootScope) :
        s.begins (.execute handle run inputs) = true := by
      simp [begins, step, hreply, hok, EngineAnswer.ofExcept]
    rw [step, accept, hreply]
    cases hexecutes with
    | entered entry hentry =>
      refine (Table.get?_insert_self s.interpreter.runs run _).symm ▸ .begun (hbegins rfl) ?_
      have htold (scope : Nat) : invokedOn scope (s.callbacks (.execute handle run inputs)) =
          if rootScope = scope then 1 else 0 := by
        rw [callbacks, hreply]
        exact (Interpreter.handsOver_startNode entry inputs _ rootScope).invokedOn scope
      simpa only [htold] using ScopeTable.manned_initial
    | nodeless hnodes =>
      refine (Table.get?_insert_self s.interpreter.runs run _).symm ▸ .begun (hbegins rfl) ?_
      have htold (scope : Nat) :
          invokedOn scope (s.callbacks (.execute handle run inputs)) = 0 := by
        rw [callbacks, hreply]
        rfl
      simpa only [htold] using ScopeTable.manned_over

theorem mans_finish (run : RunId) (scope : Nat) : s.Mans (.finish run scope)
    ((s.step (.finish run scope)).2.interpreter.runs.get? run) := by
  cases hwas : s.interpreter.runs.get? run with
  | none =>
    have hreply := Interpreter.finish_of_no_run hwas scope
    exact .idle rfl (by rw [step, accept, hreply]) rfl (by rw [callbacks, hreply])
  | some was =>
    cases hfinish : was.scopes.finish scope with
    | none =>
      have hreply := Interpreter.finish_refused hwas hfinish
      exact .idle rfl (by rw [step, accept, hreply]) rfl (by rw [callbacks, hreply])
    | some finished =>
      have hreply := Interpreter.finish_accepted hwas hfinish
      rw [step, accept, hreply]
      refine (Table.get?_insert_self s.interpreter.runs run _).symm ▸
        .changed rfl hwas rfl fun invoked hmanned ↦ ?_
      have htold (other : Nat) : invokedOn other (s.callbacks (.finish run scope)) = 0 := by
        rw [callbacks, hreply]
        exact invokedOn_completed other finished.1
      simpa only [htold, Nat.add_zero] using
        hmanned.finish (ScopeTable.finishes_of_finish hmanned.tree hfinish)

/-- Assumes: runs of accepted graphs. -/
theorem mans_trigger
    (haccepted : ∀ run active, s.interpreter.runs.get? run = some active → active.graph.Accepted)
    (run : RunId) (scope : Nat) (node pin : String) : s.Mans (.trigger run scope node pin)
      ((s.step (.trigger run scope node pin)).2.interpreter.runs.get? run) := by
  cases hwas : s.interpreter.runs.get? run with
  | none =>
    have hreply := Interpreter.trigger_of_no_run hwas scope node pin (s.host run).bindings
    exact .idle rfl (by rw [step, accept, hreply]) rfl (by rw [callbacks, hreply])
  | some was =>
    have htriggers := Interpreter.triggers_trigger hwas (haccepted run was hwas).wired scope node pin
      (s.host run).bindings
    generalize hreply : s.interpreter.trigger run scope node pin (s.host run).bindings = reply
      at htriggers
    rw [step, accept, hreply]
    cases htriggers with
    | refused error hpin => exact .idle rfl rfl rfl (by rw [callbacks, hreply])
    | unwired hpin =>
      refine (Table.get?_insert_self s.interpreter.runs run _).symm ▸
        .changed rfl hwas rfl fun invoked hmanned ↦ ?_
      have htold (child : Nat) : invokedOn child (s.callbacks (.trigger run scope node pin)) = 0 := by
        rw [callbacks, hreply]
        rfl
      simpa only [htold, Nat.add_zero] using hmanned.openUnwired scope
    | wired next hpin hnext =>
      refine (Table.get?_insert_self s.interpreter.runs run _).symm ▸
        .changed rfl hwas rfl fun invoked hmanned ↦ ?_
      have htold (child : Nat) : invokedOn child (s.callbacks (.trigger run scope node pin)) =
          if was.scopes.next = child then 1 else 0 := by
        rw [callbacks, hreply]
        exact (Interpreter.handsOver_startNode next was.inputs _ was.scopes.next).invokedOn child
      simpa only [htold] using hmanned.openWired scope

/-- Assumes: a session as calls leave it. -/
theorem mans_step (hkept : s.Kept) {call : EngineCall} {run : RunId} (hrun : call.run? = some run) :
    s.Mans call ((s.step call).2.interpreter.runs.get? run) := by
  cases call with
  | load registry text | release handle => cases hrun
  | execute handle other inputs =>
    exact Option.some.inj hrun ▸ mans_execute hkept.graphs_accepted handle other inputs
  | finish other scope => exact Option.some.inj hrun ▸ mans_finish other scope
  | trigger other scope node pin =>
    exact Option.some.inj hrun ▸ mans_trigger hkept.runs_accepted other scope node pin
  | endRun other =>
    obtain rfl := Option.some.inj hrun
    have hgone : (s.step (.endRun other)).2.interpreter.runs.get? other = none := by
      change (s.interpreter.runs.erase other).get? other = none
      simp
    exact hgone ▸ .gone rfl rfl

end Session

/-! ### Calls that overlap -/

/-- An interpreter, the calls on it that are under way, and what hosts were told. Executions are
numbered as they begin, and each has a host of its own. -/
structure Overlap where
  interpreter : Interpreter := {}
  /-- How many executions have begun. -/
  executions : Nat := 0
  /-- The last execution by the name of each run. -/
  current : Table RunId Nat := {}
  /-- What each call has yet to tell, after the execution whose host it tells it. -/
  underway : List (Nat × List Callback) := []
  /-- What was told in order, each after the execution whose host was told it. -/
  told : List (Nat × Callback) := []

namespace Overlap

/-- What happens next. -/
inductive Move where
  /-- Somebody makes a call, a host that is being told something or anybody else; `hosts` is what
  the hosts of all runs hold at the time. -/
  | call (call : EngineCall) (hosts : Table RunId HostRecord)
  /-- A call under way makes its next callback. -/
  | tell (place : Nat)

/-- The interpreter with what the hosts hold. -/
abbrev session (s : Overlap) (hosts : Table RunId HostRecord) : Session :=
  { interpreter := s.interpreter, hosts }

/-- A call is made. It is under way until it has told all it has to tell. -/
def make (s : Overlap) (call : EngineCall) (hosts : Table RunId HostRecord) : Overlap :=
  let interpreter := ((s.session hosts).step call).2.interpreter
  let told := (s.session hosts).callbacks call
  match call.run? with
  | none => { s with interpreter }
  | some run =>
    if (s.session hosts).begins call then
      { s with
        interpreter
        executions := s.executions + 1
        current := s.current.insert run s.executions
        underway := s.underway ++ [(s.executions, told)] }
    else
      { s with interpreter, underway := s.underway ++ [((s.current.get? run).getD 0, told)] }

def step (s : Overlap) : Move → Overlap
  | .call call hosts => s.make call hosts
  | .tell place =>
    match s.underway[place]? with
    | some (execution, callback :: left) =>
      { s with
        underway := s.underway.set place (execution, left)
        told := s.told ++ [(execution, callback)] }
    | _ => s

def after (s : Overlap) (moves : List Move) : Overlap := moves.foldl step s

/-- What the host of an execution was told. -/
def heard (s : Overlap) (execution : Nat) : List Callback :=
  s.told.filterMap fun entry ↦ if entry.1 = execution then some entry.2 else none

/-- What the calls under way have yet to tell the host of an execution. -/
def left (s : Overlap) (execution : Nat) : List Callback :=
  s.underway.flatMap fun call ↦ if call.1 = execution then call.2 else []

/-- All that the host of an execution was told or is to be told. -/
def made (s : Overlap) (execution : Nat) : List Callback := s.heard execution ++ s.left execution

/-- No call is under way that concerns an execution. -/
def Idle (s : Overlap) (execution : Nat) : Prop :=
  ∀ call ∈ s.underway, call.1 = execution → call.2 = []

variable {s : Overlap}

theorem perm_of_set {calls : List (Nat × List Callback)} {place execution : Nat}
    {callback : Callback} {rest : List Callback}
    (h : calls[place]? = some (execution, callback :: rest)) (other : Nat) :
    (calls.flatMap fun call ↦ if call.1 = other then call.2 else []).Perm
      ((if execution = other then [callback] else []) ++
        (calls.set place (execution, rest)).flatMap
          fun call ↦ if call.1 = other then call.2 else []) := by
  induction calls generalizing place with
  | nil => simp at h
  | cons call calls ih =>
    cases place with
    | zero =>
      obtain rfl := Option.some.inj h
      by_cases hother : execution = other <;> simp [hother]
    | succ place =>
      rw [List.set_cons_succ, List.flatMap_cons, List.flatMap_cons]
      exact ((ih h).append_left _).trans (List.perm_append_comm_assoc ..)

/-- Telling moves a callback from what is left to what was heard. -/
theorem perm_made (s : Overlap) (place execution : Nat) :
    ((s.step (.tell place)).made execution).Perm (s.made execution) := by
  rw [step]
  split
  · rename_i other callback rest hcall
    have hleft := perm_of_set hcall execution
    simp only [made, heard, left, List.filterMap_append, List.append_assoc]
    refine (List.Perm.append_left _ ?_).symm
    by_cases hother : other = execution <;> simpa [hother] using hleft
  · exact .refl _

theorem invokedOn_of_perm {first second : List Callback} (h : first.Perm second) (scope : Nat) :
    invokedOn scope first = invokedOn scope second :=
  h.countP_eq _

/-! ### What overlapping calls keep -/

/-- What holds however calls overlap: graphs are accepted, each run is the last execution by its
name, and the host of that was or will be told of one invocation on each open scope. -/
structure Sound (s : Overlap) : Prop where
  kept : ({ interpreter := s.interpreter } : Session).Kept
  manned : ∀ run active, s.interpreter.runs.get? run = some active →
    ∃ execution, s.current.get? run = some execution ∧
      active.scopes.Manned fun scope ↦ invokedOn scope (s.made execution)
  current_lt : ∀ run execution, s.current.get? run = some execution → execution < s.executions
  current_inj : ∀ run other execution, s.current.get? run = some execution →
    s.current.get? other = some execution → run = other
  unheard : ∀ execution, s.executions ≤ execution → s.made execution = []

theorem sound_empty : Sound {} where
  kept := Session.kept_empty
  manned _ _ hactive := by cases hactive
  current_lt _ _ hcurrent := by cases hcurrent
  current_inj _ _ _ hcurrent := by cases hcurrent
  unheard _ _ := rfl

theorem Sound.tell (h : s.Sound) (place : Nat) : (s.step (.tell place)).Sound := by
  have hmade := s.perm_made place
  obtain ⟨hinterpreter, hexecutions, hcurrent⟩ :
      (s.step (.tell place)).interpreter = s.interpreter ∧
        (s.step (.tell place)).executions = s.executions ∧
          (s.step (.tell place)).current = s.current := by
    rw [step]
    split <;> exact ⟨rfl, rfl, rfl⟩
  constructor
  case kept => exact hinterpreter ▸ h.kept
  case manned =>
    intro run active hactive
    obtain ⟨execution, hexecution, hmanned⟩ := h.manned run active (hinterpreter ▸ hactive)
    refine ⟨execution, hcurrent ▸ hexecution, ?_⟩
    simpa only [fun scope ↦ invokedOn_of_perm (hmade execution) scope] using hmanned
  case current_lt => exact hexecutions.symm ▸ hcurrent.symm ▸ h.current_lt
  case current_inj => exact hcurrent.symm ▸ h.current_inj
  case unheard =>
    intro execution hle
    have hnone := h.unheard execution (hexecutions ▸ hle)
    exact List.perm_nil.mp (hnone ▸ hmade execution)

theorem Sound.kept_session (h : s.Sound) (hosts : Table RunId HostRecord) : (s.session hosts).Kept :=
  ⟨h.kept.graphs_accepted, h.kept.runs_accepted⟩

variable {call : EngineCall} {hosts : Table RunId HostRecord} {run : RunId}

theorem interpreter_make (s : Overlap) (call : EngineCall) (hosts : Table RunId HostRecord) :
    (s.make call hosts).interpreter = ((s.session hosts).step call).2.interpreter := by
  unfold make
  cases call.run? with
  | none => rfl
  | some run => cases (s.session hosts).begins call <;> rfl

theorem make_of_graph_call (hrun : call.run? = none) : s.make call hosts =
    { s with interpreter := ((s.session hosts).step call).2.interpreter } := by
  simp [make, hrun]

theorem make_of_begins (hrun : call.run? = some run) (hbegins : (s.session hosts).begins call = true) :
    s.make call hosts =
      { s with
        interpreter := ((s.session hosts).step call).2.interpreter
        executions := s.executions + 1
        current := s.current.insert run s.executions
        underway := s.underway ++ [(s.executions, (s.session hosts).callbacks call)] } := by
  simp [make, hrun, hbegins]

theorem make_of_not_begins (hrun : call.run? = some run)
    (hbegins : (s.session hosts).begins call = false) : s.make call hosts =
      { s with
        interpreter := ((s.session hosts).step call).2.interpreter
        underway := s.underway ++
          [((s.current.get? run).getD 0, (s.session hosts).callbacks call)] } := by
  simp [make, hrun, hbegins]

/-- A call under way adds what it has to tell to what is made on one host. -/
theorem made_of_underway {later : Overlap} {host : Nat} {told : List Callback}
    (htold : later.told = s.told) (hunderway : later.underway = s.underway ++ [(host, told)])
    (execution : Nat) :
    later.made execution = s.made execution ++ if host = execution then told else [] := by
  simp [made, heard, left, htold, hunderway]

theorem Sound.make_of_begins (h : s.Sound) (hrun : call.run? = some run)
    (hbegins : (s.session hosts).begins call = true) : (s.make call hosts).Sound := by
  have hkept := (h.kept_session hosts).step call
  have hmake := Overlap.make_of_begins hrun hbegins
  have hmade (execution : Nat) : (s.make call hosts).made execution = s.made execution ++
      if s.executions = execution then (s.session hosts).callbacks call else [] :=
    made_of_underway (by rw [hmake]) (by rw [hmake]) execution
  have hcurrent : (s.make call hosts).current = s.current.insert run s.executions := by rw [hmake]
  have hcount : (s.make call hosts).executions = s.executions + 1 := by rw [hmake]
  constructor
  case kept =>
    rw [interpreter_make]
    exact ⟨hkept.graphs_accepted, hkept.runs_accepted⟩
  case manned =>
    intro other active hactive
    rw [interpreter_make] at hactive
    rw [hcurrent]
    by_cases hother : run = other
    · subst hother
      refine ⟨s.executions, Table.get?_insert_self _ _ _, ?_⟩
      have hmans := Session.mans_step (h.kept_session hosts) hrun
      rw [hactive] at hmans
      cases hmans with
      | begun _ hmanned =>
        rw [hmade, if_pos rfl, h.unheard _ (Nat.le_refl _)]
        exact hmanned
      | idle _ _ hnot _ | changed _ _ hnot _ => cases hbegins.symm.trans hnot
    · have hne : call.run? ≠ some other := by simpa [hrun] using hother
      have hsame := (s.session hosts).get?_runs_step hne
      obtain ⟨execution, hexecution, hmanned⟩ := h.manned other active (hsame.symm.trans hactive)
      have hlt := h.current_lt other execution hexecution
      refine ⟨execution, (Table.get?_insert_of_ne _ hother _).trans hexecution, ?_⟩
      rw [hmade, if_neg (by omega), List.append_nil]
      exact hmanned
  case current_lt =>
    intro other execution hexecution
    rw [hcurrent, Table.get?_insert] at hexecution
    rw [hcount]
    split_ifs at hexecution
    · exact Option.some.inj hexecution ▸ Nat.lt_succ_self _
    · exact Nat.lt_succ_of_lt (h.current_lt other execution hexecution)
  case current_inj =>
    intro first second execution hfirst hsecond
    rw [hcurrent, Table.get?_insert] at hfirst hsecond
    split_ifs at hfirst hsecond with hone htwo htwo
    · exact hone.symm.trans htwo
    · obtain rfl := Option.some.inj hfirst
      exact absurd (h.current_lt second _ hsecond) (Nat.lt_irrefl _)
    · obtain rfl := Option.some.inj hsecond
      exact absurd (h.current_lt first _ hfirst) (Nat.lt_irrefl _)
    · exact h.current_inj first second execution hfirst hsecond
  case unheard =>
    intro execution hle
    rw [hcount] at hle
    rw [hmade, if_neg (by omega), h.unheard execution (by omega), List.append_nil]

theorem Sound.make_of_not_begins (h : s.Sound) (hrun : call.run? = some run)
    (hbegins : (s.session hosts).begins call = false) : (s.make call hosts).Sound := by
  have hkept := (h.kept_session hosts).step call
  have hmake := Overlap.make_of_not_begins hrun hbegins
  have hmans := Session.mans_step (h.kept_session hosts) hrun
  have hadded (execution : Nat) : (s.make call hosts).made execution = s.made execution ++
      if (s.current.get? run).getD 0 = execution then (s.session hosts).callbacks call else [] :=
    made_of_underway (by rw [hmake]) (by rw [hmake]) execution
  -- A call that has something to tell has found its run.
  have hmade (execution : Nat) (hother : s.current.get? run ≠ some execution) :
      (s.make call hosts).made execution = s.made execution := by
    rw [hadded, List.append_right_eq_self]
    generalize ((s.session hosts).step call).2.interpreter.runs.get? run = active at hmans
    cases hmans with
    | idle _ _ _ htold | gone _ htold => rw [htold, ite_self]
    | begun hyes _ => cases hbegins.symm.trans hyes
    | @changed was _ other hsame hwas _ _ =>
      obtain rfl := Option.some.inj (hrun.symm.trans hsame)
      obtain ⟨host, hhost, -⟩ := h.manned run was hwas
      rw [hhost, Option.getD_some, if_neg fun (heq : host = execution) ↦ hother (heq ▸ hhost)]
  have hcurrent : (s.make call hosts).current = s.current := by rw [hmake]
  have hcount : (s.make call hosts).executions = s.executions := by rw [hmake]
  constructor
  case kept =>
    rw [interpreter_make]
    exact ⟨hkept.graphs_accepted, hkept.runs_accepted⟩
  case manned =>
    intro other active hactive
    rw [interpreter_make] at hactive
    rw [hcurrent]
    by_cases hother : run = other
    · subst hother
      rw [hactive] at hmans
      cases hmans with
      | begun hyes _ => cases hbegins.symm.trans hyes
      | @idle _ other hsame hwas _ htold =>
        obtain rfl := Option.some.inj (hrun.symm.trans hsame)
        obtain ⟨execution, hexecution, hmanned⟩ := h.manned run active hwas
        refine ⟨execution, hexecution, ?_⟩
        rw [hadded, htold, ite_self, List.append_nil]
        exact hmanned
      | @changed was _ other hsame hwas _ hchanged =>
        obtain rfl := Option.some.inj (hrun.symm.trans hsame)
        obtain ⟨execution, hexecution, hmanned⟩ := h.manned run was hwas
        refine ⟨execution, hexecution, ?_⟩
        rw [hadded, hexecution, Option.getD_some, if_pos rfl]
        simpa only [invokedOn_append] using hchanged _ hmanned
    · have hne : call.run? ≠ some other := by simpa [hrun] using hother
      have hsame := (s.session hosts).get?_runs_step hne
      obtain ⟨execution, hexecution, hmanned⟩ := h.manned other active (hsame.symm.trans hactive)
      refine ⟨execution, hexecution, ?_⟩
      rw [hmade execution fun heq ↦ hother (h.current_inj run other execution heq hexecution)]
      exact hmanned
  case current_lt => exact hcurrent.symm ▸ hcount.symm ▸ h.current_lt
  case current_inj => exact hcurrent.symm ▸ h.current_inj
  case unheard =>
    intro execution hle
    rw [hcount] at hle
    have hlater : s.current.get? run ≠ some execution := fun heq ↦
      absurd (h.current_lt run execution heq) (Nat.not_lt.mpr hle)
    rw [hmade execution hlater, h.unheard execution hle]

theorem Sound.make (h : s.Sound) (call : EngineCall) (hosts : Table RunId HostRecord) :
    (s.make call hosts).Sound := by
  cases hrun : call.run? with
  | none =>
    have hkept := (h.kept_session hosts).step call
    rw [make_of_graph_call hrun]
    exact { h with
      kept := ⟨hkept.graphs_accepted, hkept.runs_accepted⟩
      manned := fun other active hactive ↦ h.manned other active
        (((s.session hosts).get?_runs_step (by simp [hrun])).symm.trans hactive) }
  | some run =>
    cases hbegins : (s.session hosts).begins call with
    | true => exact h.make_of_begins hrun hbegins
    | false => exact h.make_of_not_begins hrun hbegins

theorem Sound.after (h : s.Sound) (moves : List Move) : (s.after moves).Sound := by
  induction moves generalizing s with
  | nil => exact h
  | cons move rest ih =>
    cases move with
    | call call hosts => exact ih (h.make call hosts)
    | tell place => exact ih (h.tell place)

/-- Every open scope has its node. -/
structure Attended (s : Overlap) : Prop where
  /-- Executing a graph that has nodes hands over the one it starts with. -/
  executed : ∀ handle graph run inputs view, s.interpreter.graphs.get? handle = some graph →
    graph.nodes ≠ [] → ∃ entry ∈ graph.nodes, graph.entryNode? = some entry ∧
      (s.interpreter.execute handle run inputs view).outcome = .ok rootScope ∧
      Interpreter.HandsOver entry inputs view rootScope
        (s.interpreter.execute handle run inputs view).callbacks
  /-- Triggering a wired pin hands over the node it leads to, on the next scope. -/
  triggered : ∀ run active scope node pin target view,
    s.interpreter.runs.get? run = some active →
    active.graph.target? node pin = some (some target) →
    ∃ next ∈ active.graph.nodes, next.id = target ∧
      (s.interpreter.trigger run scope node pin view).outcome = .ok active.scopes.next ∧
      Interpreter.HandsOver next active.inputs view active.scopes.next
        (s.interpreter.trigger run scope node pin view).callbacks
  /-- Only the scope of a pin that is not wired is completed at once. -/
  completed_at_once : ∀ run active scope node pin view child,
    s.interpreter.runs.get? run = some active →
    .completed child ∈ (s.interpreter.trigger run scope node pin view).callbacks →
    active.graph.target? node pin = some none
  /-- One node is invoked on an open scope: before it is told, a call under way has to tell it. -/
  invoked_once : ∀ run active, s.interpreter.runs.get? run = some active →
    ∃ execution, s.current.get? run = some execution ∧
      ∀ scope, (active.scopes.entries.get? scope).isSome →
        invokedOn scope (s.heard execution) + invokedOn scope (s.left execution) = 1 ∧
          (s.Idle execution → invokedOn scope (s.heard execution) = 1)
  /-- An open scope waits for a node at or below it, which may still finish. -/
  awaited : ∀ run active scope, s.interpreter.runs.get? run = some active →
    (active.scopes.entries.get? scope).isSome → ∃ below, active.scopes.Beneath below scope ∧
      (active.scopes.entries.get? below).isSome ∧
      (s.interpreter.finish run below).outcome = .ok ()

theorem left_of_idle {execution : Nat} (h : s.Idle execution) : s.left execution = [] := by
  refine List.flatMap_eq_nil_iff.mpr fun call hcall ↦ ?_
  split_ifs with hhost
  · exact h call hcall hhost
  · rfl

theorem Sound.attended (h : s.Sound) : s.Attended where
  executed := by
    intro handle graph run inputs view hgraph hnodes
    have hwired := (h.kept.graphs_accepted handle graph hgraph).wired
    obtain ⟨entry, hentry⟩ := Option.ne_none_iff_exists'.mp
      fun hnone ↦ hnodes (hwired.entry_none.mp hnone)
    have hreply : s.interpreter.execute handle run inputs view = {
        outcome := .ok rootScope
        state := { s.interpreter with
          runs := s.interpreter.runs.insert run { graph, inputs, scopes := .initial } }
        callbacks := .dispatched rootScope ::
          Interpreter.startNode inputs view entry rootScope } := by
      simp only [Interpreter.execute, hgraph, hentry]
    refine ⟨entry, hwired.entry_mem entry hentry, hentry, ?_⟩
    rw [hreply]
    exact ⟨rfl, Interpreter.handsOver_startNode entry inputs view rootScope⟩
  triggered := by
    intro run active scope node pin target view hactive htarget
    have hwired := (h.kept.runs_accepted run active hactive).wired
    have htriggers := Interpreter.triggers_trigger hactive hwired scope node pin view
    generalize s.interpreter.trigger run scope node pin view = reply at htriggers
    cases htriggers with
    | refused error hpin => cases hpin.symm.trans htarget
    | unwired hpin => cases hpin.symm.trans htarget
    | wired next hpin hnext =>
      have hid : next.id = target := Option.some.inj (Option.some.inj (hpin.symm.trans htarget))
      exact ⟨next, hnext, hid, rfl, Interpreter.handsOver_startNode next active.inputs view _⟩
  completed_at_once := by
    intro run active scope node pin view child hactive hcompleted
    have hwired := (h.kept.runs_accepted run active hactive).wired
    have htriggers := Interpreter.triggers_trigger hactive hwired scope node pin view
    generalize s.interpreter.trigger run scope node pin view = reply at htriggers hcompleted
    cases htriggers with
    | refused error hpin => cases hcompleted
    | unwired hpin => exact hpin
    | wired next hpin hnext =>
      have hnone := completedIn_startNode active.inputs view next active.scopes.next
      rw [← mem_completedIn, hnone] at hcompleted
      cases hcompleted
  invoked_once := by
    intro run active hactive
    obtain ⟨execution, hexecution, hmanned⟩ := h.manned run active hactive
    refine ⟨execution, hexecution, fun scope hopen ↦ ?_⟩
    have hone := hmanned.once scope hopen
    rw [made, invokedOn_append] at hone
    refine ⟨hone, fun hidle ↦ ?_⟩
    rw [left_of_idle hidle] at hone
    exact hone
  awaited := by
    intro run active scope hactive hopen
    obtain ⟨execution, -, hmanned⟩ := h.manned run active hactive
    obtain ⟨below, hbeneath, hawaits⟩ := hmanned.tree.exists_awaited hopen
    obtain ⟨closed, later, hfinish⟩ := ScopeTable.finish_of_awaits hawaits
    refine ⟨below, hbeneath, ScopeTable.isSome_of_awaits hawaits, ?_⟩
    rw [Interpreter.finish_accepted hactive hfinish]

/-- However calls on an interpreter overlap, whoever makes them and whatever the hosts hold, every
open scope has its node. -/
theorem attended_of_moves (moves : List Move) : (({} : Overlap).after moves).Attended :=
  (sound_empty.after moves).attended

/-- A pin is triggered as soon as the first scope is reported; the node behind it is invoked before
the first one. -/
example :
    ((({ interpreter := { graphs := Table.insert {} 1 Graph.forked } } : Overlap).after
      [.call (.execute 1 7 {}) {}, .tell 0, .call (.trigger 7 0 "fork" "then_0") {}, .tell 1, .tell 1,
        .tell 0]).heard 0).map (fun callback ↦ (callback.invokes 0, callback.invokes 1)) =
      [(false, false), (false, false), (false, true), (true, false)] := rfl

end Overlap

end Blueprint

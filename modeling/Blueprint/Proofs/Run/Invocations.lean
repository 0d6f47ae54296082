import Blueprint.Proofs.Node.Feeding
import Mathlib.Data.List.Induction

/-!
The invocations of a run, from the request of the interpreter to the end. Main statements, for
whatever happens on a machine and in whatever order nodes act: each invocation ends once, when its
node has returned, and what fails is counted (`Machine.finished_once_of_records`); and a node reads
from a pin of its own what was put there last, be that by this invocation or by another one
(`Machine.reads_of_records`).
-/

set_option autoImplicit false

namespace Blueprint

variable {registry : Registry} {config : RunConfig} {journal more : List Deed} {call : NodeCall}

namespace Chronicle

theorem left (h : Chronicle registry config (journal ++ more)) :
    Chronicle registry config journal := by
  rintro before deed after rfl
  exact h before deed (after ++ more) (by rw [List.append_assoc, List.cons_append])

/-- A later invocation is on a later scope. -/
theorem scopes_ascend (h : Chronicle registry config journal) :
    ((invocations journal).map (·.scope)).Pairwise (· < ·) := by
  induction journal using List.reverseRecOn with
  | nil => exact .nil
  | append_singleton before deed ih =>
    have hbefore := ih h.left
    rw [invocations_append, List.map_append]
    cases deed with
    | invoked call bound =>
      have hfollows := (h before (.invoked call bound) [] rfl).1
      refine List.pairwise_append.mpr
        ⟨hbefore, List.pairwise_singleton _ _, fun scope hscope last hlast ↦ ?_⟩
      obtain ⟨other, hother, rfl⟩ := List.mem_map.mp hscope
      obtain rfl := List.mem_singleton.mp hlast
      exact hfollows other hother
    | read | wrote | triggered | nested | ended | closed => exact (List.append_nil _).symm ▸ hbefore

/-- Where an invocation was begun. No other is on its scope. -/
theorem exists_split (h : Chronicle registry config journal) (hcall : call ∈ invocations journal) :
    ∃ before bound after, journal = before ++ .invoked call bound :: after ∧
      ∀ other ∈ invocations (before ++ after), other.scope ≠ call.scope := by
  obtain ⟨deed, hdeed, hinvoked⟩ := List.mem_filterMap.mp hcall
  obtain ⟨before, after, rfl⟩ := List.append_of_mem hdeed
  cases deed with
  | invoked other bound =>
    obtain rfl := Option.some.inj hinvoked
    refine ⟨before, bound, after, rfl, fun later hlater ↦ ?_⟩
    have hascend := h.scopes_ascend
    rw [invocations_append, List.map_append, List.pairwise_append] at hascend
    obtain ⟨-, hafter, hbefore⟩ := hascend
    have hfirst := (List.pairwise_cons.mp hafter).1
    rw [invocations_append] at hlater
    rcases List.mem_append.mp hlater with hlater | hlater
    · exact Nat.ne_of_lt (hbefore _ (List.mem_map_of_mem hlater) _ List.mem_cons_self)
    · exact Nat.ne_of_gt (hfirst _ (List.mem_map_of_mem hlater))
  | read | wrote | triggered | nested | ended | closed => cases hinvoked

end Chronicle

namespace Machine

variable {m m' : Machine} {run : RunId} {journals : RunId → List Deed} {c : Context}

/-! ### Endings -/

/-- In every machine that can be reached, and for every run with a place for tasks: every invocation
is at work or has ended, and has ended once; it has ended when its node had returned, and the
interpreter has accepted that unless it had forgotten the run before; and the run counts those that
did not succeed. -/
theorem finished_once_of_records (hblank : m.Blank) (hrecords : Records m m' journals)
    (hcontext : m'.context? run = some c) (htasks : c.hasTasks = true) :
    ((invocations (journals run)).map (·.scope)).Nodup ∧
      (m'.view run).works.map (·.1) + (outcomes (journals run)).map (·.1) =
        (invocations (journals run) : Multiset NodeCall) ∧
      m'.endings run = m.endings run ++ outcomes (journals run) ∧
      (∀ before call ending accepted after,
        journals run = before ++ .ended call ending accepted :: after →
          call ∈ invocations before ∧
          call.Returned m.provider.registry c.config before ending ∧
          (accepted = true ↔ .closed ∉ before)) ∧
      c.failedBranches = (outcomes (journals run)).countP fun outcome ↦ !outcome.2.1.isDone := by
  have htold := told_of_records hblank hrecords run
  rw [standing_eq hcontext] at htold
  refine ⟨?_, ?_, htold.endings, fun before call ending accepted after hsplit ↦ ?_, htold.failures⟩
  · exact htold.chronicle.scopes_ascend.imp Nat.ne_of_lt
  · have hbalance := htold.balance htasks
    rwa [Multiset.zero_add] at hbalance
  · obtain ⟨hwork, hreturned, haccepted⟩ := htold.chronicle before _ after hsplit
    exact ⟨hwork.1, hreturned, haccepted⟩

theorem records_forked (schedule : List Move) :
    ∃ journals, Records forked (forkedStarted.run schedule) journals ∧
      journals 1 = begun (forkedOpened.world.interpreter.execute 1 1 {} {}).callbacks ++
        forkedStarted.journalOf 1 schedule :=
  ⟨_, ((Records.refl.next (.opened _ _ _)).next (.started 1 _ {} rfl rfl)).trans
    (records_run forkedStarted schedule), rfl⟩

/-- The sequence and its two branches have ended. -/
theorem finished_once_of_forked :
    let m := forkedStarted.run (.poll 0 :: List.replicate 18 .advance)
    ∃ journals c, Records forked m journals ∧ m.context? 1 = some c ∧ c.hasTasks = true ∧
      (invocations (journals 1)).map (·.node) = ["fork", "say", "set"] ∧
      ((invocations (journals 1)).map (·.scope)).Nodup ∧
      ((outcomes (journals 1)).map (·.1) : Multiset NodeCall) = invocations (journals 1) ∧
      c.failedBranches = (outcomes (journals 1)).countP fun outcome ↦ !outcome.2.1.isDone := by
  intro m
  obtain ⟨journals, hrecords, hjournal⟩ :=
    records_forked (.poll 0 :: List.replicate 18 .advance)
  obtain ⟨c, hcontext⟩ := Option.isSome_iff_exists.mp (show (m.context? 1).isSome = true from rfl)
  have htasks : (m.context? 1).map (·.hasTasks) = some true := rfl
  rw [hcontext] at htasks
  have hidle : (m.view 1).works = 0 := rfl
  obtain ⟨hscopes, hbalance, -, -, hfailures⟩ :=
    finished_once_of_records forked_blank hrecords hcontext (Option.some.inj htasks)
  rw [hidle, Multiset.map_zero, Multiset.zero_add] at hbalance
  refine ⟨journals, c, hrecords, hcontext, Option.some.inj htasks, ?_, hscopes, hbalance, hfailures⟩
  rw [hjournal]
  rfl

/-! ### Reads -/

/-- In every machine that can be reached: what a node reads from a pin of its own is what was put
there last since its invocation was begun, or else the value that was bound for this invocation, or
else what was put there last before; and what it gives a graph that it runs are the inputs the graph
came with, under what it has read from the pins named like the graph's inputs. -/
theorem reads_of_records (hblank : m.Blank) (hrecords : Records m m' journals)
    (hcontext : m'.context? run = some c) :
    (∀ before call pin answer after,
      journals run = before ++ .read call call.node pin answer :: after →
        ∃ first bound since, before = first ++ .invoked call bound :: since ∧
          (∀ other ∈ invocations (first ++ since), other.scope ≠ call.scope) ∧
          answer = (lastPut call.node pin since).or
            ((lastPut call.node pin [.invoked call bound]).or (lastPut call.node pin first))) ∧
      ∀ before call graph inputs after,
        journals run = before ++ .nested call graph inputs :: after →
        m.provider.registry.get? call.kind = some NodeKind.executeBlueprint →
          ∃ id loaded, c.config.Finds id (.ok loaded) ∧ loaded.graph = graph ∧
            NodeKind.Fed call graph.inputs before loaded.inputs inputs := by
  have hchronicle := (told_of_records hblank hrecords run).chronicle
  rw [standing_eq hcontext] at hchronicle
  constructor
  · intro before call pin answer after hsplit
    obtain ⟨hwork, hanswer⟩ := hchronicle before _ after hsplit
    rw [hsplit] at hchronicle
    obtain ⟨first, bound, since, rfl, hother⟩ := hchronicle.left.exists_split hwork.1
    refine ⟨first, bound, since, rfl, hother, ?_⟩
    rw [hanswer, lastPut_append, ← List.singleton_append, lastPut_append, Option.or_assoc]
  · intro before call graph inputs after hsplit hkind
    obtain ⟨-, next, kind, hknown, hpath⟩ := hchronicle before _ after hsplit
    obtain rfl := Option.some.inj (hkind.symm.trans hknown)
    obtain ⟨id, loaded, hfinds, hgraph, hfed⟩ := NodeKind.executeBlueprint_inputs hpath
    exact ⟨id, loaded, hfinds, hgraph, hfed.mono fun _ hdeed ↦ (List.mem_filter.mp hdeed).1⟩

end Machine

/-! ### A graph that is run twice -/

namespace Graph

/-- Logs its input, or that there is nothing, and puts out a text under the name of the input. -/
def innerDocument : GraphDocument where
  inputs := [{ name := "x" }]
  outputs := [{ name := "x" }]
  nodes := [
    { id := "l", kind := "log", params := .object [("message", .string "nothing")]
      inputs := [("message", .graphInput "x")], links := [("then", some "o")] },
    { id := "o", kind := "set_output"
      params := .object [("name", .string "x"), ("value", .string "left over")]
      links := [("then", none)] }]

/-- What `innerDocument` is loaded to. -/
def inner : Graph where
  version := none
  entry := some 0
  inputs := innerDocument.inputs
  outputs := innerDocument.outputs
  nodes := innerDocument.nodes
  index := .ofList [("l", 0), ("o", 1)]

/-- Runs another graph on one node twice, one time after the other, and gives it nothing. -/
def outerDocument : GraphDocument where
  nodes := [
    { id := "s1", kind := "sequence"
      params := .object [("pins", .array [.string "first"]), ("join", .bool true)]
      links := [("first", some "E"), ("completed", some "s2")] },
    { id := "s2", kind := "sequence", params := .object [("pins", .array [.string "again"])]
      links := [("again", some "E")] },
    { id := "E", kind := "execute_blueprint", params := .object [("id", .string "child")]
      links := [("then", none)] }]

/-- What `outerDocument` is loaded to. -/
def outer : Graph where
  version := none
  entry := some 0
  inputs := []
  outputs := []
  nodes := outerDocument.nodes
  index := .ofList [("s1", 0), ("s2", 1), ("E", 2)]

end Graph

namespace Machine

/-- A machine on which both graphs are loaded. -/
def outer : Machine where
  provider := { fallback := .file none }
  world := { interpreter := { graphs := .ofList [(1, .outer), (2, .inner)] } }

theorem outer_blank : outer.Blank where
  context := fun _ ↦ rfl
  active := fun _ ↦ rfl
  frames := rfl
  tasks := rfl
  accepted := by
    intro handle g hget
    have hmem : (handle, g) ∈ [(1, Graph.outer), (2, .inner)] := Table.mem_of_get? hget
    rcases List.mem_cons.mp hmem with heq | hmem
    · obtain ⟨-, rfl⟩ := Prod.mk.inj heq
      exact ⟨.standard, Graph.outerDocument, rfl⟩
    · obtain ⟨-, rfl⟩ := Prod.mk.inj (List.mem_singleton.mp hmem)
      exact ⟨.standard, Graph.innerDocument, rfl⟩
  aloof := fun _ hcache ↦ nomatch hcache

/-- The same machine with a run of the outer graph that was opened; the inner one is loaded. -/
def outerOpened : Machine :=
  (outer.open_ { id := ⟨"root", by decide⟩, handle := 1, inputs := [], outputs := [] }
    { loaded := .ofList [("child",
      { graph :=
          { id := ⟨"child", by decide⟩, handle := 2, inputs := Graph.inner.inputs
            outputs := Graph.inner.outputs }
        inputs := {} })] } true).2

/-- The same machine with a run that was started. -/
def outerStarted : Machine := (outerOpened.start 1 {}).2

/-- The inner graph is run once, and the second run has just begun. -/
def outerSchedule : List Move :=
  .poll 0 :: List.replicate 3 .advance ++ .poll 1 :: List.replicate 18 .advance ++
    .poll 0 :: List.replicate 3 .advance ++ .poll 2 :: List.replicate 2 .advance ++
    .poll 3 :: List.replicate 4 .advance

/-- The second invocation of the node. -/
def secondCall : NodeCall where
  scope := 4
  node := "E"
  kind := "execute_blueprint"
  params := .object [("id", .string "child")]

theorem records_outer :
    ∃ journals, Records outer (outerStarted.run outerSchedule) journals ∧
      journals 1 = begun (outerOpened.world.interpreter.execute 1 1 {} {}).callbacks ++
        outerStarted.journalOf 1 outerSchedule :=
  ⟨_, ((Records.refl.next (.opened _ _ _)).next (.started 1 _ {} rfl rfl)).trans
    (records_run outerStarted outerSchedule), rfl⟩

theorem eq_append_of_getElem? {α : Type} {list : List α} {n : Nat} {item : α}
    (h : list[n]? = some item) : list = list.take n ++ item :: list.drop (n + 1) := by
  obtain ⟨hlt, rfl⟩ := List.getElem?_eq_some_iff.mp h
  rw [← List.drop_eq_getElem_cons hlt, List.take_append_drop]

/-- The second invocation was begun with nothing bound, and reads what the first one has left. -/
theorem journal_outer :
    ∃ journals first since after, Records outer (outerStarted.run outerSchedule) journals ∧
      journals 1 = first ++ .invoked secondCall [] :: since ++
        .read secondCall "E" "x" (some (.string "left over")) :: after := by
  obtain ⟨journals, hrecords, hjournal⟩ := records_outer
  have hread :
      (journals 1)[16]? = some (.read secondCall "E" "x" (some (.string "left over"))) := by
    rw [hjournal]
    rfl
  have hinvoked : ((journals 1).take 16)[13]? = some (.invoked secondCall []) := by
    rw [hjournal]
    rfl
  have hsplit := eq_append_of_getElem? hread
  rw [eq_append_of_getElem? hinvoked] at hsplit
  exact ⟨journals, _, _, _, hrecords, hsplit⟩

/-- Nothing was bound for the second invocation, so it reads what was put on the pin before, and it
gives that to the graph. -/
theorem reads_of_outer :
    ∃ journals c, Records outer (outerStarted.run outerSchedule) journals ∧
      (outerStarted.run outerSchedule).context? 1 = some c ∧
      (∃ first bound since after,
        journals 1 = first ++ .invoked secondCall bound :: since ++
          .read secondCall "E" "x" (some (.string "left over")) :: after ∧
        some (.string "left over") = (lastPut "E" "x" since).or
          ((lastPut "E" "x" [.invoked secondCall bound]).or (lastPut "E" "x" first))) ∧
      ∃ before graph inputs after, journals 1 = before ++ .nested secondCall graph inputs :: after ∧
        ∃ id loaded, c.config.Finds id (.ok loaded) ∧ loaded.graph = graph ∧
          NodeKind.Fed secondCall graph.inputs before loaded.inputs inputs := by
  obtain ⟨journals, hrecords, hjournal⟩ := records_outer
  obtain ⟨c, hcontext⟩ := Option.isSome_iff_exists.mp
    (show ((outerStarted.run outerSchedule).context? 1).isSome = true from rfl)
  obtain ⟨hreads, hnests⟩ := reads_of_records outer_blank hrecords hcontext
  have hread :
      (journals 1)[16]? = some (.read secondCall "E" "x" (some (.string "left over"))) := by
    rw [hjournal]
    rfl
  obtain ⟨graph, inputs, hnested⟩ :
      ∃ graph inputs, (journals 1)[17]? = some (.nested secondCall graph inputs) := by
    rw [hjournal]
    exact ⟨_, _, rfl⟩
  have hsplit := eq_append_of_getElem? hread
  obtain ⟨first, bound, since, hbefore, -, hanswer⟩ := hreads _ secondCall "x" _ _ hsplit
  rw [hbefore] at hsplit
  have hnest := eq_append_of_getElem? hnested
  exact ⟨journals, c, hrecords, hcontext, ⟨first, bound, since, _, hsplit, hanswer⟩, _, graph,
    inputs, _, hnest, hnests _ secondCall graph inputs _ hnest rfl⟩

/-- A node does not always read what was bound for its own invocation. -/
theorem read_not_bound :
    ¬ ∀ (m m' : Machine) (journals : RunId → List Deed) (run : RunId), m.Blank →
      m.provider.registry = .standard → Records m m' journals →
      ∀ first call bound since pin answer after,
        journals run = first ++ .invoked call bound :: since ++
          .read call call.node pin answer :: after →
        answer = lastPut call.node pin [.invoked call bound] := by
  intro hbound
  obtain ⟨journals, first, since, after, hrecords, hjournal⟩ := journal_outer
  have hanswer := hbound outer _ journals 1 outer_blank rfl hrecords first secondCall [] since "x" _
    after hjournal
  cases hanswer

end Machine

end Blueprint

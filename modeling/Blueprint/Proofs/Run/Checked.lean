import Blueprint.Proofs.Node.Checked
import Blueprint.Proofs.Run.Barrier
import Blueprint.Proofs.Run.Loading

/-!
What was checked when a graph was loaded does not make its nodes fail. In a run of a graph that was
loaded with a registry, every node that is invoked is of a kind that the registry knows, and the kind
has accepted the node's params (`Machine.vouches_of_recordsOf`). A node goes through its behaviour
request by request, so it heeds the check to its end (`NodeCall.ComesTo.heeds`).

So with the registry that every runtime has, no invocation ends for want of an implementation, or for
a reason for which its params would have been refused, and no output without a name is published
(`Machine.checked_of_recordsOf`). Where all graphs are loaded with the registry of the provider, all
runs are of such graphs (`Machine.RecordsWith.recordsOf`).
-/

set_option autoImplicit false

namespace Blueprint

section

variable {registry : Registry} {config : RunConfig} {journal : List Deed} {call : NodeCall}
  {request : Behaviour}

/-- A node heeds the check of its params wherever it is. -/
theorem NodeCall.ComesTo.heeds (hheeding : registry.Heeding) (hvouches : registry.Vouches call)
    (h : call.ComesTo registry config journal request) :
    ∃ kind, registry.get? call.kind = some kind ∧ request.Heeds kind.Refuses := by
  obtain ⟨kind, hkind, hvalid⟩ := hvouches
  obtain ⟨other, hother, hpath⟩ := h
  obtain rfl := Option.some.inj (hkind.symm.trans hother)
  exact ⟨kind, hkind, (hheeding _ kind hkind call hvalid).path hpath⟩

/-- An invocation does not end for what its kind would have refused when the graph was loaded. -/
structure NodeCall.Heeded (registry : Registry) (call : NodeCall) (ending : Ending) : Prop where
  implemented : ∀ kind, ending ≠ .unknownKind kind
  unrefused : ∀ kind failure, registry.get? call.kind = some kind → ending = .failed failure →
    ¬ kind.Refuses failure.message

theorem NodeCall.Returned.heeded {ending : Ending} (hheeding : registry.Heeding)
    (hvouches : registry.Vouches call) (h : call.Returned registry config journal ending) :
    call.Heeded registry ending := by
  cases h with
  | @ended request ending hcomes hending =>
    obtain ⟨kind, hkind, hheeds⟩ := hcomes.heeds hheeding hvouches
    constructor
    · rintro other rfl
      cases request <;> cases hending
    · rintro other failure hother rfl
      obtain rfl := Option.some.inj (hkind.symm.trans hother)
      cases request with
      | fail found =>
        cases hending
        exact hheeds
      | _ => cases hending
  | unknown hnone =>
    obtain ⟨kind, hkind, -⟩ := hvouches
    cases hnone.symm.trans hkind

theorem vouches_of_begun {callbacks : List Callback} {bound : List (String × Value)}
    (h : ∀ call, .invoke call ∈ callbacks → registry.Vouches call)
    (hdeed : .invoked call bound ∈ begun callbacks) : registry.Vouches call := by
  obtain ⟨other, hother, heq⟩ := List.mem_map.mp hdeed
  obtain ⟨rfl, -⟩ := Deed.invoked.inj heq
  obtain ⟨callback, hmem, hcall⟩ := List.mem_filterMap.mp hother
  cases callback with
  | invoke asked =>
    obtain rfl := Option.some.inj hcall
    exact h _ hmem
  | dispatched | completed | bind => cases hcall

end

namespace Machine

variable {registry : Registry} {m m' : Machine} {run : RunId} {a : Activity} {call : NodeCall}
  {request : Behaviour} {bound : List (String × Value)} {journals more : RunId → List Deed}

/-! ### What is invoked -/

/-- The graph of a run, while that is under way, was loaded with a registry. -/
def Performing (registry : Registry) (run : RunId) (m : Machine) : Prop :=
  ∀ g, m.world.interpreter.Performs run g → g.LoadedWith registry

theorem not_invoked_of_since : .invoked call bound ∉ m.since m' run := by
  intro hdeed
  rcases List.mem_append.mp hdeed with hended | hclosed
  · obtain ⟨ended, -, heq⟩ := List.mem_map.mp hended
    cases heq
  · split_ifs at hclosed
    · cases List.mem_singleton.mp hclosed
    · cases hclosed

theorem vouches_of_doing (h : m.Performing registry a.run)
    (hdeed : .invoked call bound ∈ m.doing a request) : registry.Vouches call := by
  cases request with
  | trigger pin next =>
    rcases List.mem_cons.mp hdeed with heq | hbegun
    · cases heq
    · exact vouches_of_begun (fun _ hinvoke ↦ Interpreter.vouches_of_trigger h hinvoke) hbegun
  | _ => simp [doing] at hdeed

/-- Assumes: a node that begins a run of its own. The first node of that is vouched for. -/
theorem Requesting.vouches_of_nested {home : Option Nat} {rest : List Frame} {graph : GraphInstance}
    {inputs : Inputs} {next : RunResult → Behaviour} {resting : Machine}
    (h : m.Requesting a home rest (.nest graph inputs next) resting) (hhoused : m.Housed)
    (hlater : m.advance.Performing registry resting.nextRun)
    (hinvoke : .invoke call ∈
      (resting.world.interpreter.execute graph.handle resting.nextRun inputs {}).callbacks) :
    registry.Vouches call := by
  obtain ⟨c, hrests⟩ := h.rests hhoused
  have hopened : (resting.waiting a c home graph next).context? resting.nextRun =
      some { graph, config := c.config } :=
    congrArg RunView.context (view_waiting_child (Nat.ne_of_lt hrests.old) hrests.new)
  refine vouches_of_started hopened rfl hrests.accepted hinvoke fun g hperforms hok ↦ hlater g ?_
  rw [h.advance_eq, serve_nest_of_ok hrests.context (Prod.ext hok rfl)]
  exact hperforms

theorem Housed.vouches_of_deeds (hhoused : m.Housed) (h : m.Performing registry run) {move : Move}
    (hlater : (m.step move).Performing registry run) (hdeed : .invoked call bound ∈ m.deeds run move) :
    registry.Vouches call := by
  rcases List.mem_append.mp hdeed with hasked | hended
  · split at hasked
    · rename_i a home rest hframes
      split_ifs at hasked with hcan
      · generalize hresume : ({ m with frames := rest } : Machine).resume a.progress = resumed
          at hasked
        obtain ⟨request, resting⟩ := resumed
        have hrequesting : m.Requesting a home rest request resting := ⟨hframes, hcan, hresume⟩
        obtain ⟨c, hrests⟩ := hrequesting.rests hhoused
        dsimp only at hasked
        unfold asking at hasked
        by_cases hrun : a.run = run
        · subst hrun
          rw [if_pos rfl] at hasked
          refine vouches_of_doing (fun g hperforms ↦ h g ?_) hasked
          obtain ⟨active, hactive, hgraph⟩ := hperforms
          exact ⟨active, (congrArg RunView.active hrests.view_eq).symm.trans hactive, hgraph⟩
        · -- A run besides that of the node itself is asked for a node only when it is begun by it.
          rw [if_neg hrun] at hasked
          cases request with
          | nest graph inputs next =>
            dsimp only at hasked
            split_ifs at hasked with hnext
            · subst hnext
              exact vouches_of_begun
                (fun _ hinvoke ↦ hrequesting.vouches_of_nested hhoused hlater hinvoke) hasked
            · cases hasked
          | _ => cases hasked
      · cases hasked
    · cases hasked
  · exact absurd hended not_invoked_of_since

theorem vouches_of_occurs (hhoused : m.Housed) (h : m.Performing registry run)
    (hlater : m'.Performing registry run) (hnext : Occurs m m' more)
    (hdeed : .invoked call bound ∈ more run) : registry.Vouches call := by
  cases hnext with
  | moved move => exact hhoused.vouches_of_deeds h hlater hdeed
  | started owner c inputs hcontext hinputs =>
    rcases List.mem_append.mp hdeed with hbegun | hended
    · split_ifs at hbegun with hrun
      · subst hrun
        refine vouches_of_begun (fun _ hinvoke ↦ ?_) hbegun
        exact vouches_of_started hcontext hinputs hhoused.accepted hinvoke fun g hperforms _ ↦
          hlater g hperforms
      · cases hbegun
    · exact absurd hended not_invoked_of_since
  | ended owner => exact absurd hdeed not_invoked_of_since
  | opened | handled | changed => cases hdeed

/-! ### Runs of graphs of a registry -/

/-- What happens in some order, where a run is of a graph that was loaded with a registry. Other runs
and other graphs may come from anywhere. -/
inductive RecordsOf (registry : Registry) (run : RunId) (m : Machine) :
    Machine → (RunId → List Deed) → Prop
  | refl : RecordsOf registry run m m fun _ ↦ []
  | next {middle later : Machine} {journals more : RunId → List Deed}
      (h : RecordsOf registry run m middle journals) (hnext : Occurs middle later more)
      (hgraph : later.Performing registry run) :
      RecordsOf registry run m later fun other ↦ journals other ++ more other

theorem RecordsOf.records (h : RecordsOf registry run m m' journals) : Records m m' journals := by
  induction h with
  | refl => exact .refl
  | next _ hnext _ ih => exact ih.next hnext

theorem RecordsOf.performing (h : RecordsOf registry run m m' journals) (hblank : m.Blank) :
    m'.Performing registry run := by
  cases h with
  | refl =>
    rintro g ⟨active, hactive, -⟩
    cases (hblank.active run).symm.trans hactive
  | next _ _ hgraph => exact hgraph

theorem vouches_of_recordsOf (hblank : m.Blank) (hrecords : RecordsOf registry run m m' journals)
    (hcall : call ∈ invocations (journals run)) : registry.Vouches call := by
  induction hrecords with
  | refl => cases hcall
  | @next middle later journals more hrecords hnext hgraph ih =>
    rw [invocations_append] at hcall
    rcases List.mem_append.mp hcall with hold | hnew
    · exact ih hold
    · obtain ⟨deed, hdeed, hinvoked⟩ := List.mem_filterMap.mp hnew
      cases deed with
      | invoked asked bound =>
        obtain rfl := Option.some.inj hinvoked
        obtain ⟨history, hleads⟩ := hrecords.records.leads
        exact vouches_of_occurs (hblank.leads hleads).housed (hrecords.performing hblank) hgraph hnext
          hdeed
      | read | wrote | triggered | nested | ended | closed => cases hinvoked

/-- Nor does any invocation of the run end for what was checked. -/
theorem heeded_of_recordsOf (hheeding : m.provider.registry.Heeding) (hblank : m.Blank)
    (hrecords : RecordsOf m.provider.registry run m m' journals) {ending : Ending} {accepted : Bool}
    (houtcome : (call, ending, accepted) ∈ outcomes (journals run)) :
    call.Heeded m.provider.registry ending := by
  have hchronicle := (told_of_records hblank hrecords.records run).chronicle
  have hvouches := vouches_of_recordsOf hblank hrecords (hchronicle.begun_of_outcome houtcome)
  obtain ⟨deed, hdeed, hended⟩ := List.mem_filterMap.mp houtcome
  obtain ⟨before, after, hsplit⟩ := List.append_of_mem hdeed
  have hfollows := hchronicle before deed after hsplit
  cases deed with
  | ended other found last =>
    cases hended
    exact NodeCall.Returned.heeded hheeding hvouches hfollows.2.1
  | invoked | read | wrote | triggered | nested | closed => cases hended

/-! ### What nodes publish -/

/-- What a move publishes is what the node on top of the frames asks for. -/
theorem requesting_of_publishing {move : Move} {written : String × Value}
    (hwritten : written ∈ m.publishing run move) :
    move = .advance ∧ ∃ a home rest request resting, m.Requesting a home rest request resting ∧
      a.run = run ∧ written ∈ request.published := by
  cases move with
  | advance =>
    rw [publishing] at hwritten
    split at hwritten
    · rename_i a home rest hframes
      split_ifs at hwritten with hmoves
      · rw [Bool.and_eq_true, beq_iff_eq] at hmoves
        exact ⟨rfl, a, home, rest, _, _, ⟨hframes, hmoves.2, rfl⟩, hmoves.1, hwritten⟩
      · cases hwritten
    · cases hwritten
  | poll | tick => cases hwritten

theorem named_of_publishing (hheeding : m.provider.registry.Heeding) (hblank : m.Blank)
    (hrecords : RecordsOf m.provider.registry run m m' journals) {move : Move}
    {written : String × Value} (hwritten : written ∈ m'.publishing run move) : written.1 ≠ "" := by
  obtain ⟨-, a, home, rest, request, resting, hrequesting, rfl, hpublished⟩ :=
    requesting_of_publishing hwritten
  obtain ⟨history, hleads⟩ := hrecords.records.leads
  obtain ⟨c, hrests⟩ := hrequesting.rests (hblank.leads hleads).housed
  have htold := told_of_records hblank hrecords.records a.run
  have hwork := mem_working hrequesting.mem_activities
  have hcomes := htold.stages _ hwork request hrests.resumed.resumes
  obtain ⟨kind, -, hheeds⟩ :=
    hcomes.heeds hheeding (vouches_of_recordsOf hblank hrecords (htold.begun _ hwork))
  cases request with
  | publish name value next =>
    obtain rfl := List.mem_singleton.mp hpublished
    exact hheeds.1
  | _ => cases hpublished

/-- What happens publishes what moves publish. -/
theorem Occurs.exists_happens (hnext : Occurs m m' more) : ∃ written, Happens m m' written ∧
    ∀ run, ∀ output ∈ written run, ∃ move, output ∈ m.publishing run move := by
  cases hnext with
  | moved move => exact ⟨_, .moved move, fun run output houtput ↦ ⟨move, houtput⟩⟩
  | opened graph config hasTasks => exact ⟨_, .opened graph config hasTasks, fun _ _ ↦ nofun⟩
  | started run c inputs hcontext hinputs =>
    exact ⟨_, .started run c inputs hcontext hinputs, fun _ _ ↦ nofun⟩
  | ended run => exact ⟨_, .ended run, fun _ _ ↦ nofun⟩
  | handled run handler => exact ⟨_, .handled run handler, fun _ _ ↦ nofun⟩
  | changed world hruns haccepted => exact ⟨_, .changed world hruns haccepted, fun _ _ ↦ nofun⟩

/-- Nothing that the run has published so far is without a name. -/
theorem leads_named (hheeding : m.provider.registry.Heeding) (hblank : m.Blank)
    (hrecords : RecordsOf m.provider.registry run m m' journals) :
    ∃ history, Leads m m' history ∧ ∀ written ∈ history run, written.1 ≠ "" := by
  induction hrecords with
  | refl => exact ⟨_, .refl, nofun⟩
  | next hrecords hnext _ ih =>
    obtain ⟨history, hleads, hnamed⟩ := ih
    obtain ⟨written, hhappens, hmoves⟩ := hnext.exists_happens
    refine ⟨_, hleads.next hhappens, fun output houtput ↦ ?_⟩
    rcases List.mem_append.mp houtput with hold | hnew
    · exact hnamed output hold
    · obtain ⟨move, hmove⟩ := hmoves run output hnew
      exact named_of_publishing hheeding hblank hrecords hmove

/-- No output of the run is without a name. -/
theorem outputs_named (hheeding : m.provider.registry.Heeding) (hblank : m.Blank)
    (hrecords : RecordsOf m.provider.registry run m m' journals) {c : Context}
    (hcontext : m'.context? run = some c) : c.outputs.get? "" = none := by
  obtain ⟨history, hleads, hnamed⟩ := leads_named hheeding hblank hrecords
  rw [((hblank.leads hleads).views run).recorded c hcontext, lastWritten, Option.map_eq_none_iff,
    List.find?_eq_none]
  intro written hwritten hname
  exact hnamed written (List.mem_reverse.mp hwritten) (beq_iff_eq.mp hname)

/-! ### Machines all of whose graphs come from one registry -/

/-- What happens in some order, where graphs that something else loads are loaded with a registry. -/
inductive RecordsWith (registry : Registry) (m : Machine) : Machine → (RunId → List Deed) → Prop
  | refl : RecordsWith registry m m fun _ ↦ []
  | next {middle later : Machine} {journals more : RunId → List Deed}
      (h : RecordsWith registry m middle journals) (hnext : Occurs middle later more)
      (hgraphs : (∃ move, later = middle.step move) ∨
        ∀ handle g, later.world.interpreter.graphs.get? handle = some g → g.LoadedWith registry) :
      RecordsWith registry m later fun run ↦ journals run ++ more run

theorem RecordsWith.schedule (h : RecordsWith registry m m' journals) (schedule : List Move) :
    ∃ later, RecordsWith registry m (m'.run schedule) later := by
  induction schedule generalizing m' journals with
  | nil => exact ⟨_, h⟩
  | cons move rest ih => exact ih (h.next (.moved move) (.inl ⟨move, rfl⟩))

/-- Graphs that a move loads are loaded with the registry of the provider. -/
theorem loadedWith_of_occurs (hhoused : m.Housed)
    (h : m.Holds (Interpreter.LoadedWith m.provider.registry)) (hnext : Occurs m m' more)
    (hgraphs : (∃ move, m' = m.step move) ∨
      ∀ handle g, m'.world.interpreter.graphs.get? handle = some g →
        g.LoadedWith m.provider.registry) :
    m'.Holds (Interpreter.LoadedWith m.provider.registry) := by
  have hclosed := Interpreter.closed_loadedWith m.provider.registry
  rcases hgraphs with ⟨move, rfl⟩ | hgraphs
  · exact hhoused.holds_step hclosed h move
  · cases hnext with
    | moved move => exact hhoused.holds_step hclosed h move
    | opened => exact h.of_world rfl
    | started owner c inputs => exact holds_start hclosed h owner inputs
    | ended owner => exact holds_endRun hclosed h owner
    | handled owner handler => exact holds_onComplete h owner handler
    | changed world hruns =>
      refine ⟨hgraphs, fun run active hactive ↦ h.runs run active ?_⟩
      rw [← hactive]
      exact congrArg (·.get? run) hruns.symm

/-- Then every run is of a graph of that registry. Assumes: a machine that nothing was done with, and
graphs that were loaded with its registry. -/
theorem RecordsWith.recordsOf (hblank : m.Blank)
    (hgraphs : ∀ handle g, m.world.interpreter.graphs.get? handle = some g →
      g.LoadedWith m.provider.registry)
    (hrecords : RecordsWith m.provider.registry m m' journals) (run : RunId) :
    RecordsOf m.provider.registry run m m' journals ∧
      m'.Holds (Interpreter.LoadedWith m.provider.registry) := by
  induction hrecords with
  | refl =>
    exact ⟨.refl, hgraphs, fun run active hactive ↦ nomatch (hblank.active run).symm.trans hactive⟩
  | next _ hnext hloaded ih =>
    obtain ⟨hrecords, hholds⟩ := ih
    obtain ⟨history, hleads⟩ := hrecords.records.leads
    have hregistry := congrArg Provider.registry (later_of_leads hblank.sound hleads).provider_eq
    rw [← hregistry] at hholds hloaded
    have hlater := loadedWith_of_occurs (hblank.leads hleads).housed hholds hnext hloaded
    rw [hregistry] at hlater
    exact ⟨hrecords.next hnext fun g hperforms ↦ hlater.of_performs hperforms, hlater⟩

/-! ### The registry that every runtime has -/

/-- What was checked when the graph of a run was loaded holds of the run and its journal. -/
structure Checked (m : Machine) (run : RunId) (journal : List Deed) : Prop where
  vouched : ∀ call ∈ invocations journal, Registry.standard.Vouches call
  heeded : ∀ call ending accepted, (call, ending, accepted) ∈ outcomes journal →
    call.Heeded .standard ending
  /-- No output node fails for want of a name. -/
  named : ∀ call failure accepted, (call, .failed failure, accepted) ∈ outcomes journal →
    call.kind = "set_output" → failure.message ≠ NodeKind.missingName
  /-- No sequence fails for params without branches. -/
  branched : ∀ call failure accepted, (call, .failed failure, accepted) ∈ outcomes journal →
    call.kind = "sequence" → ∀ params, NodeKind.branches params ≠ .error failure.message
  /-- Nothing is published next without a name. -/
  publishing : ∀ move, ∀ written ∈ m.publishing run move, written.1 ≠ ""
  outputs : ∀ c, m.context? run = some c → c.outputs.get? "" = none

/-- Assumes: a machine that nothing was done with, with the registry that every runtime has, and a run
of a graph that was loaded with it. -/
theorem checked_of_recordsOf (hblank : m.Blank) (hregistry : m.provider.registry = .standard)
    (hrecords : RecordsOf .standard run m m' journals) : m'.Checked run (journals run) := by
  have hheeding : m.provider.registry.Heeding := hregistry ▸ Registry.heeding_standard
  rw [← hregistry] at hrecords
  have hvouched (call : NodeCall) (hcall : call ∈ invocations (journals run)) :
      Registry.standard.Vouches call := hregistry ▸ vouches_of_recordsOf hblank hrecords hcall
  have hheeded {call : NodeCall} {ending : Ending} {accepted : Bool}
      (houtcome : (call, ending, accepted) ∈ outcomes (journals run)) :
      call.Heeded .standard ending := hregistry ▸ heeded_of_recordsOf hheeding hblank hrecords houtcome
  constructor
  case vouched => exact hvouched
  case heeded => exact fun call ending accepted ↦ hheeded
  case named =>
    rintro call failure accepted houtcome hkind hmessage
    refine (hheeded houtcome).unrefused NodeKind.setOutput failure ?_ rfl
      (NodeKind.setOutput_refuses_iff.mpr hmessage)
    rw [hkind]
    rfl
  case branched =>
    rintro call failure accepted houtcome hkind params hparams
    refine (hheeded houtcome).unrefused NodeKind.sequence failure ?_ rfl
      (NodeKind.sequence_refuses_iff.mpr ⟨params, hparams⟩)
    rw [hkind]
    rfl
  case publishing =>
    exact fun move written hwritten ↦ named_of_publishing hheeding hblank hrecords hwritten
  case outputs => exact fun c hcontext ↦ outputs_named hheeding hblank hrecords hcontext

/-- A sequence has started its branches, and an output node is about to publish its value under the
name in its params. -/
theorem checked_of_forked :
    let m := forkedStarted.run (.poll 0 :: List.replicate 10 .advance)
    (m.publishing 1 .advance).map (·.1) = ["answer"] ∧
      ∃ journals, RecordsOf .standard 1 forked m journals ∧ m.Checked 1 (journals 1) := by
  intro m
  have hgraphs : ∀ handle g, forked.world.interpreter.graphs.get? handle = some g →
      g.LoadedWith .standard := by
    intro handle g hget
    obtain ⟨-, rfl⟩ := Prod.mk.inj (List.mem_singleton.mp (Table.mem_of_get? hget))
    exact ⟨Graph.forkedDocument, rfl⟩
  have hopened : RecordsWith .standard forked forkedOpened _ :=
    .next .refl (.opened forkedInstance {} true) (.inr hgraphs)
  have hstarted : RecordsWith .standard forked forkedStarted _ :=
    hopened.next (.started 1 _ {} rfl rfl) (.inr hgraphs)
  obtain ⟨journals, hrecords⟩ := hstarted.schedule (.poll 0 :: List.replicate 10 .advance)
  have hrun := (hrecords.recordsOf forked_blank hgraphs 1).1
  exact ⟨rfl, journals, hrun, checked_of_recordsOf forked_blank rfl hrun⟩

end Machine

end Blueprint

import Blueprint.Proofs.Run.Invocations

/-!
Sequences that join their branches. Such a node starts a branch for each of its pins in order, waits
for all of them, and then goes on through `completed`; it fails at the first pin that it cannot
start. So what a journal tells of it has one of a few forms (`NodeCall.JoinStage`), each with how far
the node is, and when it has ended it has failed to start a branch, or it has gone on
(`NodeCall.JoinOver`). That holds in every run (`Machine.staged_of_records`).
-/

set_option autoImplicit false

namespace Blueprint

/-- Starts the branches of some pins, when those of others were started on some scopes, joins all of
them and goes on. -/
def Behaviour.joinAfter (scopes : List Nat) (pins : List String) : Behaviour :=
  .andTriggerAll pins fun more ↦ .join (scopes ++ more) (.thenTrigger "completed")

namespace NodeCall

/-- A call of a sequence that joins its branches, with their pins. -/
structure Joins (registry : Registry) (call : NodeCall) (pins : List String) : Prop where
  kind : registry.get? call.kind = some .sequence
  branches : ∃ found, NodeKind.branches call.params = .ok found ∧ found.pins = pins
  joins : (call.params.get? "join").bind Json.asBool? = some true

/-- By what a journal tells, the branches of some pins were started on some scopes. -/
def started (call : NodeCall) (pins : List String) (scopes : List Nat) : List Deed :=
  List.zipWith (fun pin scope ↦ .triggered call pin (.ok scope)) pins scopes

/-- What is told of a sequence that joins its branches, and how far it is. -/
inductive JoinStage (call : NodeCall) (pins : List String) : List Deed → Option Progress → Prop
  | queued : JoinStage call pins [] none
  | starting {first rest : List String} {scopes : List Nat} (hpins : pins = first ++ rest)
      (hlength : scopes.length = first.length) :
      JoinStage call pins (call.started first scopes) (some (.going (.joinAfter scopes rest)))
  /-- A branch cannot be started. -/
  | refused {first rest : List String} {pin : String} {scopes : List Nat} {error : EngineError}
      {failure : Failure} (hpins : pins = first ++ pin :: rest)
      (hlength : scopes.length = first.length) :
      JoinStage call pins (call.started first scopes ++ [.triggered call pin (.error error)])
        (some (.going (.fail failure)))
  | waiting {scopes : List Nat} {tickets : List Nat} (hlength : scopes.length = pins.length) :
      JoinStage call pins (call.started pins scopes)
        (some (.joining tickets (.thenTrigger "completed")))
  | continued {scopes : List Nat} {outcome : Except EngineError Nat} {last : Behaviour}
      {ending : Ending} (hlength : scopes.length = pins.length)
      (hlast : last.ending? = some ending) :
      JoinStage call pins (call.started pins scopes ++ [.triggered call "completed" outcome])
        (some (.going last))

/-- What is told of a sequence that joins its branches when it has ended. -/
inductive JoinOver (call : NodeCall) (pins : List String) : List Deed → Prop
  | refused {first rest : List String} {pin : String} {scopes : List Nat} {error : EngineError}
      (hpins : pins = first ++ pin :: rest) (hlength : scopes.length = first.length) :
      JoinOver call pins (call.started first scopes ++ [.triggered call pin (.error error)])
  | continued {scopes : List Nat} {outcome : Except EngineError Nat}
      (hlength : scopes.length = pins.length) :
      JoinOver call pins (call.started pins scopes ++ [.triggered call "completed" outcome])

/-- What is told of a sequence that joins its branches, at any time. -/
inductive JoinTold (call : NodeCall) (pins : List String) : List Deed → Prop
  | starting {first rest : List String} {scopes : List Nat} (hpins : pins = first ++ rest)
      (hlength : scopes.length = first.length) : JoinTold call pins (call.started first scopes)
  | finished {told : List Deed} (h : JoinOver call pins told) : JoinTold call pins told

variable {registry : Registry} {call : NodeCall} {pins first rest : List String} {pin : String}
  {scopes : List Nat} {told more : List Deed} {stage : Option Progress}

theorem Joins.behaviour_eq (h : call.Joins registry pins) :
    NodeKind.sequence.behaviour call = .joinAfter [] pins := by
  obtain ⟨found, hfound, rfl⟩ := h.branches
  simp [NodeKind.sequence, hfound, h.joins, Behaviour.joinAfter]

theorem length_started (hlength : scopes.length = first.length) :
    (call.started first scopes).length = first.length := by
  rw [started, List.length_zipWith, hlength, Nat.min_self]

theorem started_append (hlength : scopes.length = first.length) (pin : String) (scope : Nat) :
    call.started (first ++ [pin]) (scopes ++ [scope]) =
      call.started first scopes ++ [.triggered call pin (.ok scope)] :=
  List.zipWith_append hlength.symm

/-- Only branches on these scopes were started. -/
theorem mem_of_started {scope : Nat}
    (h : .triggered call pin (.ok scope) ∈ call.started first scopes) : scope ∈ scopes := by
  obtain ⟨i, hi, heq⟩ := List.getElem_of_mem h
  simp only [started, List.getElem_zipWith, Deed.triggered.injEq, Except.ok.injEq] at heq
  exact heq.2.2 ▸ List.getElem_mem _

theorem getElem_mem_started {i : Nat} (hpin : i < first.length) (hscope : i < scopes.length) :
    .triggered call first[i] (.ok scopes[i]) ∈ call.started first scopes := by
  have hi : i < (call.started first scopes).length := by
    rw [started, List.length_zipWith]
    exact Nat.lt_min.mpr ⟨hpin, hscope⟩
  have heq : (call.started first scopes)[i] = .triggered call first[i] (.ok scopes[i]) :=
    List.getElem_zipWith ..
  exact heq ▸ List.getElem_mem hi

theorem exists_pin_started {scope : Nat} (hlength : scopes.length = first.length)
    (hscope : scope ∈ scopes) :
    ∃ pin, .triggered call pin (.ok scope) ∈ call.started first scopes := by
  obtain ⟨i, hi, rfl⟩ := List.getElem_of_mem hscope
  exact ⟨_, getElem_mem_started (hlength ▸ hi) hi⟩

theorem exists_scope_started (hlength : scopes.length = first.length) (hpin : pin ∈ first) :
    ∃ scope, .triggered call pin (.ok scope) ∈ call.started first scopes := by
  obtain ⟨i, hi, rfl⟩ := List.getElem_of_mem hpin
  exact ⟨_, getElem_mem_started hi (hlength ▸ hi)⟩

namespace JoinStage

/-- A sequence that is to be run. -/
theorem taken (h : call.Joins registry pins) :
    JoinStage call pins [] (some (.going (NodeKind.sequence.behaviour call))) := by
  rw [h.behaviour_eq]
  exact @starting call pins [] pins [] rfl rfl

/-- The node has come to what its activity goes on with. -/
theorem acted {progress later : Progress} {request : Behaviour} {config : RunConfig}
    {bindings : Bindings} (h : JoinStage call pins told (some progress))
    (hresumes : RunView.Resumes progress request)
    (hasks : request.Asks config bindings call more later) :
    JoinStage call pins (told ++ more) (some later) := by
  cases h with
  | @starting first rest scopes hpins hlength =>
    cases hresumes
    cases rest with
    | nil =>
      rw [List.append_nil] at hpins
      subst hpins
      cases hasks with
      | join scopes next tickets =>
        rw [List.append_nil]
        exact .waiting hlength
    | cons pin rest =>
      cases hasks with
      | trigger pin next outcome =>
        cases outcome with
        | error e => exact .refused hpins hlength
        | ok scope =>
          rw [← started_append hlength]
          have hnext : Behaviour.joinAfter (scopes ++ [scope]) rest =
              .andTriggerAll rest fun more ↦
                .join (scopes ++ scope :: more) (.thenTrigger "completed") := by
            simp [Behaviour.joinAfter]
          have hstarted : JoinStage call pins (call.started (first ++ [pin]) (scopes ++ [scope]))
              (some (.going (.joinAfter (scopes ++ [scope]) rest))) :=
            .starting (by rw [hpins, List.append_assoc, List.singleton_append])
              (by rw [List.length_append, List.length_append, hlength]; rfl)
          rw [hnext] at hstarted
          exact hstarted
  | refused hpins hlength =>
    cases hresumes
    cases hasks
  | waiting hlength =>
    cases hresumes
    cases hasks with
    | trigger pin next outcome =>
      cases outcome with
      | ok scope => exact .continued hlength rfl
      | error e => exact .continued hlength rfl
  | continued hlength hlast =>
    cases hresumes
    cases hasks <;> cases hlast

theorem finished {progress : Progress} {request : Behaviour} {ending : Ending}
    (h : JoinStage call pins told (some progress)) (hresumes : RunView.Resumes progress request)
    (hending : request.ending? = some ending) : JoinOver call pins told := by
  cases h with
  | @starting first rest scopes hpins hlength =>
    cases hresumes
    cases rest <;> cases hending
  | refused hpins hlength => exact .refused hpins hlength
  | waiting hlength =>
    cases hresumes
    cases hending
  | continued hlength => exact .continued hlength

/-- The node triggers a pin, all its branches having been started. That is its continuation. -/
theorem waiting_of_trigger {progress : Progress} {next : Except EngineError Nat → Behaviour}
    (h : JoinStage call pins told (some progress))
    (hresumes : RunView.Resumes progress (.trigger pin next)) (hall : told.length = pins.length) :
    pin = "completed" ∧ ∃ scopes tickets, scopes.length = pins.length ∧
      told = call.started pins scopes ∧
      progress = .joining tickets (.thenTrigger "completed") := by
  cases h with
  | @starting first rest scopes hpins hlength =>
    rw [length_started hlength, hpins, List.length_append] at hall
    have hrest : rest = [] := List.length_eq_zero_iff.mp (by omega)
    subst hrest
    cases hresumes
  | refused => cases hresumes
  | waiting hlength =>
    cases hresumes
    exact ⟨rfl, _, _, hlength, rfl, rfl⟩
  | continued hlength hlast =>
    cases hresumes
    cases hlast

/-- The node joins some scopes. They are those of its branches, all of which were started. -/
theorem starting_of_join {progress : Progress} {next : Behaviour} {joined : List Nat}
    (h : JoinStage call pins told (some progress))
    (hresumes : RunView.Resumes progress (.join joined next)) :
    joined.length = pins.length ∧ told = call.started pins joined := by
  cases h with
  | @starting first rest scopes hpins hlength =>
    cases rest with
    | nil =>
      rw [List.append_nil] at hpins
      subst hpins
      cases hresumes
      rw [List.append_nil]
      exact ⟨hlength, rfl⟩
    | cons pin rest => cases hresumes
  | refused => cases hresumes
  | waiting => cases hresumes
  | continued hlength hlast =>
    cases hresumes
    cases hlast

/-- A node that joins scopes has started all its branches, and is to go on. -/
theorem of_joining {tickets : List Nat} {next : Behaviour}
    (h : JoinStage call pins told (some (.joining tickets next))) :
    told.length = pins.length ∧ next = .thenTrigger "completed" := by
  cases h with
  | waiting hlength => exact ⟨length_started hlength, rfl⟩

theorem isTold (h : JoinStage call pins told stage) : JoinTold call pins told := by
  cases h with
  | queued => exact @JoinTold.starting call pins [] pins [] rfl rfl
  | starting hpins hlength => exact .starting hpins hlength
  | refused hpins hlength => exact .finished (.refused hpins hlength)
  | waiting hlength => exact .starting (List.append_nil pins).symm hlength
  | continued hlength => exact .finished (.continued hlength)

end JoinStage

/-- What is told of a node is that it has triggered its pins in order, and at last `completed`. -/
def InOrder (call : NodeCall) (pins : List String) (told : List Deed) : Prop :=
  ∃ outcomes : List (Except EngineError Nat), outcomes.length ≤ pins.length + 1 ∧
    told = List.zipWith (Deed.triggered call) (pins ++ ["completed"]) outcomes

theorem zipWith_started (hlength : scopes.length = first.length) (later : List String)
    (outcomes : List (Except EngineError Nat)) :
    List.zipWith (Deed.triggered call) (first ++ later) (scopes.map .ok ++ outcomes) =
      call.started first scopes ++ List.zipWith (Deed.triggered call) later outcomes := by
  rw [List.zipWith_append (by rw [List.length_map, hlength]), List.zipWith_map_right, started]

namespace JoinTold

theorem inOrder (h : JoinTold call pins told) : call.InOrder pins told := by
  cases h with
  | @starting first rest scopes hpins hlength =>
    refine ⟨scopes.map .ok, ?_, ?_⟩
    · rw [List.length_map, hlength, hpins, List.length_append]
      omega
    · rw [hpins, List.append_assoc, ← List.append_nil (scopes.map _), zipWith_started hlength,
        List.zipWith_nil_right, List.append_nil]
  | finished h =>
    cases h with
    | @refused first rest pin scopes error hpins hlength =>
      refine ⟨scopes.map .ok ++ [.error error], ?_, ?_⟩
      · rw [List.length_append, List.length_map, hlength, hpins, List.length_append,
          List.length_singleton, List.length_cons]
        omega
      · rw [hpins, List.append_assoc, zipWith_started hlength, List.cons_append,
          List.zipWith_cons_cons, List.zipWith_nil_right]
    | @continued scopes outcome hlength =>
      refine ⟨scopes.map .ok ++ [outcome], ?_, ?_⟩
      · rw [List.length_append, List.length_map, hlength, List.length_singleton]
      · rw [zipWith_started hlength]
        rfl

/-- More is told of the node than its branches. It has gone on. -/
theorem continued (h : JoinTold call pins told) (hmore : pins.length < told.length) :
    ∃ scopes outcome, scopes.length = pins.length ∧
      told = call.started pins scopes ++ [.triggered call "completed" outcome] := by
  cases h with
  | starting hpins hlength =>
    rw [length_started hlength, hpins, List.length_append] at hmore
    omega
  | finished h =>
    cases h with
    | refused hpins hlength =>
      rw [List.length_append, length_started hlength, hpins, List.length_append, List.length_cons,
        List.length_singleton] at hmore
      omega
    | continued hlength => exact ⟨_, _, hlength, rfl⟩

end JoinTold

end NodeCall

/-! ### In a run -/

variable {registry : Registry} {journal told : List Deed} {call : NodeCall} {pins : List String}

/-- What a node does by a request is told of its scope. -/
theorem Behaviour.Asks.scope_eq {config : RunConfig} {bindings : Bindings} {request : Behaviour}
    {later : Progress} (h : request.Asks config bindings call told later) :
    ∀ deed ∈ told, deed.scope? = some call.scope := by
  cases h <;> simp [Deed.scope?]

/-- Nothing is told of another scope by what is told of one. -/
theorem ownDeeds_append_of_scope {scope other : Nat} (hne : other ≠ scope)
    (htold : ∀ deed ∈ told, deed.scope? = some scope) :
    ownDeeds other (journal ++ told) = ownDeeds other journal := by
  have hnone : ownDeeds other told = [] := by
    refine List.filter_eq_nil_iff.mpr fun deed hdeed hscope ↦ ?_
    rw [htold deed hdeed, beq_iff_eq, Option.some.injEq] at hscope
    exact hne hscope.symm
  rw [ownDeeds_append, hnone, List.append_nil]

theorem ownDeeds_append_own {scope : Nat} (htold : ∀ deed ∈ told, deed.scope? = some scope) :
    ownDeeds scope (journal ++ told) = ownDeeds scope journal ++ told := by
  have hall : ownDeeds scope told = told :=
    List.filter_eq_self.mpr fun deed hdeed ↦ beq_iff_eq.mpr (htold deed hdeed)
  rw [ownDeeds_append, hall]

/-- Nothing is told of a node. -/
theorem ownDeeds_append_of_none (scope : Nat) (htold : ∀ deed ∈ told, deed.scope? = none) :
    ownDeeds scope (journal ++ told) = ownDeeds scope journal := by
  have hnone : ownDeeds scope told = [] := by
    refine List.filter_eq_nil_iff.mpr fun deed hdeed hscope ↦ ?_
    rw [htold deed hdeed] at hscope
    cases hscope
  rw [ownDeeds_append, hnone, List.append_nil]

/-- Sequences that join their branches are as far as what is told of them. -/
structure Standing.Staged (registry : Registry) (journal : List Deed) (s : Standing) : Prop where
  stages : ∀ work ∈ s.working, ∀ pins, work.1.Joins registry pins →
    work.1.JoinStage pins (ownDeeds work.1.scope journal) work.2
  finished : ∀ outcome ∈ outcomes journal, ∀ pins, outcome.1.Joins registry pins →
    outcome.1.JoinOver pins (ownDeeds outcome.1.scope journal)
  /-- Also of those whose work was lost. -/
  told : ∀ call ∈ invocations journal, ∀ pins, call.Joins registry pins →
    call.JoinTold pins (ownDeeds call.scope journal)

namespace Standing

variable {s later : Standing} {earlier : List (NodeCall × Ending × Bool)}

/-- Assumes: no work but what was there before, and nothing is told of a node. -/
theorem Staged.of_quiet (h : Staged registry journal s)
    (hworking : ∀ work ∈ later.working, work ∈ s.working)
    (htold : ∀ deed ∈ told, deed.scope? = none ∧ deed.ended? = none ∧ deed.invoked? = none) :
    Staged registry (journal ++ told) later := by
  have hown (scope : Nat) : ownDeeds scope (journal ++ told) = ownDeeds scope journal :=
    ownDeeds_append_of_none scope fun deed hdeed ↦ (htold deed hdeed).1
  constructor
  case stages => exact fun work hwork ↦ hown work.1.scope ▸ h.stages work (hworking work hwork)
  case finished =>
    rw [outcomes_append_quiet journal fun deed hdeed ↦ (htold deed hdeed).2.1]
    exact fun outcome houtcome ↦ hown outcome.1.scope ▸ h.finished outcome houtcome
  case told =>
    rw [invocations_append_quiet journal fun deed hdeed ↦ (htold deed hdeed).2.2]
    exact fun call hcall ↦ hown call.scope ▸ h.told call hcall

theorem Staged.invoked (h : Staged registry journal s) (htold : Told registry journal earlier s)
    {call : NodeCall} (bound : List (String × Value)) (hnext : s.next? = some call.scope)
    (hworking : later.working = (call, none) ::ₘ s.working) :
    Staged registry (journal ++ [.invoked call bound]) later := by
  have hown (scope : Nat) :
      ownDeeds scope (journal ++ [.invoked call bound]) = ownDeeds scope journal :=
    ownDeeds_append_of_none scope (by simp [Deed.scope?])
  have hnone : ownDeeds call.scope journal = [] :=
    htold.chronicle.ownDeeds_eq_nil fun other hother ↦
      Nat.ne_of_lt (htold.scopes other hother _ hnext)
  constructor
  case stages =>
    intro work hwork pins hjoins
    rw [hown]
    rcases Multiset.mem_cons.mp (hworking ▸ hwork) with rfl | hwork
    · rw [hnone]
      exact .queued
    · exact h.stages work hwork pins hjoins
  case finished =>
    rw [outcomes_append]
    exact fun outcome houtcome ↦
      hown outcome.1.scope ▸ h.finished outcome (by simpa [outcomes, Deed.ended?] using houtcome)
  case told =>
    intro other hother pins hjoins
    rw [hown]
    rw [invocations_append] at hother
    rcases List.mem_append.mp hother with hold | hnew
    · exact h.told other hold pins hjoins
    · obtain rfl := List.mem_singleton.mp hnew
      rw [hnone]
      exact NodeCall.JoinStage.queued.isTold

theorem Staged.acted (h : Staged registry journal s) (htold : Told registry journal earlier s)
    {rest : Multiset Work} {progress after : Progress} {request : Behaviour}
    (hworking : s.working = (call, some progress) ::ₘ rest)
    (hresumes : RunView.Resumes progress request)
    (hasks : request.Asks s.config s.bindings call told after)
    (hlater : later.working = (call, some after) ::ₘ rest) :
    Staged registry (journal ++ told) later := by
  have hmem : (call, some progress) ∈ s.working := hworking ▸ Multiset.mem_cons_self ..
  have hscope := hasks.scope_eq
  have houtcomes : outcomes (journal ++ told) = outcomes journal :=
    outcomes_append_quiet journal fun deed hdeed ↦ (Deed.quiet_of_scope (hscope deed hdeed)).2.1
  have hinvocations : invocations (journal ++ told) = invocations journal :=
    invocations_append_quiet journal fun deed hdeed ↦ (Deed.quiet_of_scope (hscope deed hdeed)).1
  have hstage (pins : List String) (hjoins : call.Joins registry pins) :=
    (h.stages _ hmem pins hjoins).acted hresumes hasks
  constructor
  case stages =>
    intro work hwork pins hjoins
    rcases Multiset.mem_cons.mp (hlater ▸ hwork) with rfl | hwork
    · rw [ownDeeds_append_own hscope]
      exact hstage pins hjoins
    · have hne : work.1.scope ≠ call.scope := by
        have hdistinct := (Multiset.nodup_add.mp htold.distinct).1
        rw [hworking, Multiset.map_cons] at hdistinct
        intro heq
        refine (Multiset.nodup_cons.mp hdistinct).1 ?_
        exact heq ▸ Multiset.mem_map_of_mem (fun work : Work ↦ work.1.scope) hwork
      rw [ownDeeds_append_of_scope hne hscope]
      exact h.stages work (hworking ▸ Multiset.mem_cons_of_mem hwork) pins hjoins
  case finished =>
    rw [houtcomes]
    intro outcome houtcome pins hjoins
    rw [ownDeeds_append_of_scope ((htold.atWork hmem).2 outcome houtcome) hscope]
    exact h.finished outcome houtcome pins hjoins
  case told =>
    rw [hinvocations]
    intro other hother pins hjoins
    by_cases heq : other.scope = call.scope
    · -- No two invocations are on one scope.
      have hdistinct := htold.chronicle.scopes_ascend.imp Nat.ne_of_lt
      obtain rfl := List.inj_on_of_nodup_map hdistinct hother (htold.begun _ hmem) heq
      rw [ownDeeds_append_own hscope]
      exact (hstage pins hjoins).isTold
    · rw [ownDeeds_append_of_scope heq hscope]
      exact h.told other hother pins hjoins

theorem Staged.ended (h : Staged registry journal s) {stage : Option Progress} {ending : Ending}
    {rest : Multiset Work} (hworking : s.working = (call, stage) ::ₘ rest)
    (hreturns : call.Returns registry stage ending) (hlater : later.working = rest)
    (accepted : Bool) : Staged registry (journal ++ [.ended call ending accepted]) later := by
  have hmem : (call, stage) ∈ s.working := hworking ▸ Multiset.mem_cons_self ..
  have hown (scope : Nat) :
      ownDeeds scope (journal ++ [.ended call ending accepted]) = ownDeeds scope journal :=
    ownDeeds_append_of_none scope (by simp [Deed.scope?])
  constructor
  case stages =>
    intro work hwork
    rw [hown]
    exact h.stages work (hworking ▸ Multiset.mem_cons_of_mem (hlater ▸ hwork))
  case finished =>
    intro outcome houtcome pins hjoins
    rw [hown]
    rw [outcomes_append] at houtcome
    rcases List.mem_append.mp houtcome with hold | hnew
    · exact h.finished outcome hold pins hjoins
    · obtain rfl := List.mem_singleton.mp hnew
      have hstage := h.stages _ hmem pins hjoins
      cases hreturns with
      | ended hresumes hending => exact hstage.finished hresumes hending
      | unknown hkind => cases hkind.symm.trans hjoins.kind
  case told =>
    intro other hother pins hjoins
    rw [hown]
    rw [invocations_append] at hother
    exact h.told other (by simpa [invocations, Deed.invoked?] using hother) pins hjoins

theorem Staged.step (h : Staged registry journal s) (htold : Told registry journal earlier s)
    (hstep : Step registry s told later) : Staged registry (journal ++ told) later := by
  cases hstep with
  | opened | begun | skipped => exact h.of_quiet (fun _ hwork ↦ hwork) nofun
  | lost work rest hworking =>
    exact h.of_quiet (fun other hother ↦ hworking ▸ Multiset.mem_cons_of_mem hother) nofun
  | closed =>
    exact h.of_quiet (fun _ hwork ↦ hwork) (by simp [Deed.scope?, Deed.ended?, Deed.invoked?])
  | invoked call bound hnext => exact h.invoked htold bound hnext rfl
  | taken call kind rest hworking hkind =>
    rw [List.append_nil]
    refine ⟨fun work hwork pins hjoins ↦ ?_, h.finished, h.told⟩
    rcases Multiset.mem_cons.mp hwork with rfl | hwork
    · have hmem : (call, none) ∈ s.working := hworking ▸ Multiset.mem_cons_self ..
      have hown : ownDeeds call.scope journal = [] := htold.stages _ hmem
      obtain rfl := Option.some.inj (hkind.symm.trans hjoins.kind)
      rw [hown]
      exact .taken hjoins
    · exact h.stages work (hworking ▸ Multiset.mem_cons_of_mem hwork) pins hjoins
  | acted call rest hworking hresumes hasks => exact h.acted htold hworking hresumes hasks rfl
  | ended call stage ending rest hworking hreturns => exact h.ended hworking hreturns rfl _

theorem Staged.steps (h : Staged registry journal s) (htold : Told registry journal earlier s)
    (hsteps : Steps registry s told later) : Staged registry (journal ++ told) later := by
  induction hsteps with
  | refl => exact (List.append_nil journal).symm ▸ h
  | next hsteps hstep ih =>
    exact List.append_assoc journal _ _ ▸ ih.step (htold.steps hsteps) hstep

end Standing

namespace Machine

variable {m m' : Machine} {journals : RunId → List Deed}

/-- In every machine that can be reached, sequences that join their branches are as far as what is
told of them. -/
theorem staged_of_records (hblank : m.Blank) (hrecords : Records m m' journals) (run : RunId) :
    Standing.Staged m.provider.registry (journals run) (m'.standing run 0) := by
  have hnone : (m.view run).works = 0 := by
    simp [view, hblank.context run, hblank.active run, hblank.frames, hblank.tasks,
      RunView.works, RunView.queued, RunView.activities]
  have hstart : Standing.Staged m.provider.registry [] (m.standing run 0) := by
    refine ⟨fun work hwork ↦ ?_, fun outcome houtcome ↦ ?_, fun call hcall ↦ ?_⟩
    · rw [standing, RunView.standing, hnone] at hwork
      cases hwork
    · cases houtcome
    · cases hcall
  exact hstart.steps (hblank.told run) (steps_of_records hblank.sound hrecords run)

end Machine

end Blueprint

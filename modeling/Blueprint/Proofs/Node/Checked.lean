import Blueprint.Proofs.Node.Handles
import Blueprint.Proofs.Run.Chronicle

/-!
Params that were checked. When a graph is loaded, each node's kind checks the node's params, and it
reads them anew whenever the node is run. `Behaviour.Heeds` says that the two readings do not part: the
node does not fail for a reason that the check gives, and publishes nothing under an empty name.

The kinds that every runtime has heed their checks (`NodeKind.heeds`). The reasons of a check and
those for which its nodes fail later are told apart by their first characters.
-/

set_option autoImplicit false

namespace Blueprint

namespace Behaviour

/-- Does not fail for a refused reason, and gives every output a name. -/
def Heeds (refused : String → Prop) : Behaviour → Prop
  | .succeed | .panic _ | .stall => True
  | .fail failure => ¬ refused failure.message
  | .publish name _ next => name ≠ "" ∧ next.Heeds refused
  | .write _ _ next | .log _ _ next | .join _ next | .sleep _ next | .yield next =>
    next.Heeds refused
  | .read _ _ next => ∀ answer, (next answer).Heeds refused
  | .trigger _ next => ∀ outcome, (next outcome).Heeds refused
  | .load _ _ next => ∀ outcome, (next outcome).Heeds refused
  | .find _ next => ∀ outcome, (next outcome).Heeds refused
  | .nest _ _ next => ∀ result, (next result).Heeds refused

variable {refused : String → Prop} {config : RunConfig} {bindings : Bindings} {call : NodeCall}
  {request later start : Behaviour} {told : List Deed} {progress : Progress}

/-- One request further. -/
theorem Heeds.next (h : request.Heeds refused) (hasks : request.Asks config bindings call told progress)
    (hresumes : RunView.Resumes progress later) : later.Heeds refused := by
  cases hasks with
  | write | log | join | sleep | yield =>
    cases hresumes
    exact h
  | publish =>
    cases hresumes
    exact h.2
  | read | trigger | loadRefused | loading | found | finding | nestRefused | nesting =>
    cases hresumes
    exact h _
  | stall => cases hresumes

theorem Heeds.path (h : start.Heeds refused) (hpath : call.Path config start told request) :
    request.Heeds refused := by
  induction hpath with
  | refl => exact h
  | next _ hasks hresumes ih => exact ih.next hasks hresumes

end Behaviour

/-! ### First characters -/

/-- A text starts with a character. -/
def Starts (c : Char) (text : String) : Prop := text.toList.head? = some c

theorem Starts.append {c : Char} {text : String} (h : Starts c text) (rest : String) :
    Starts c (text ++ rest) := by
  rw [Starts, String.toList_append, List.head?_append, h, Option.some_or]

theorem Starts.unique {c other : Char} {text : String} (h : Starts c text)
    (hother : Starts other text) : c = other := Option.some.inj (h.symm.trans hother)

/-- What a graph engine refuses is told in lower case. -/
theorem EngineError.starts_message (e : EngineError) :
    ∃ c, Starts c e.message ∧ c.isLower = true := by
  have hword {c : Char} {text : String} (h : Starts c text) (hlower : c.isLower = true)
      (rest : String) : ∃ c, Starts c (text ++ rest) ∧ c.isLower = true :=
    ⟨c, h.append rest, hlower⟩
  unfold EngineError.message
  cases e with
  | load reason => exact hword (show Starts 'g' "graph failed to load: " from rfl) rfl _
  | unknownGraph handle => exact hword (show Starts 'u' "unknown graph handle " from rfl) rfl _
  | unknownRun run => exact hword (show Starts 'n' "no active run for instance " from rfl) rfl _
  | unknownNode node => exact hword (show Starts 'u' "unknown node " from rfl) rfl _
  | library reason => exact hword (show Starts 'f' "failed to open native engine library: " from rfl) rfl _
  | unknownPin node pin =>
    exact hword (((show Starts 'n' "node " from rfl).append node).append _) rfl pin
  | unknownScope run scope =>
    exact hword (((show Starts 's' "scope " from rfl).append _).append _) rfl _
  | foreign call reason =>
    exact hword (((show Starts 'n' "native engine call " from rfl).append call).append _) rfl reason

namespace NodeKind

/-- The kind's check refuses some params for a reason. -/
def Refuses (kind : NodeKind) (reason : String) : Prop :=
  ∃ params, kind.validate params = .error reason

/-- No check refuses params with the words of a graph engine. -/
def Apart (refused : String → Prop) : Prop := ∀ error : EngineError, ¬ refused error.message

variable {refused : String → Prop} {call : NodeCall} {what reason : String}

/-- Assumes: reasons that do not start in lower case. -/
theorem apart_of_starts {c : Char} (hlower : c.isLower = false)
    (h : ∀ reason, refused reason → Starts c reason) : Apart refused := by
  intro error hrefused
  obtain ⟨other, hother, hletter⟩ := error.starts_message
  obtain rfl := (h _ hrefused).unique hother
  cases hlower.symm.trans hletter

/-! ### Pieces of behaviours -/

theorem heeds_andTrigger (hapart : Apart refused) {pin : String} {next : Nat → Behaviour}
    (hnext : ∀ scope, (next scope).Heeds refused) : (Behaviour.andTrigger pin next).Heeds refused := by
  intro outcome
  cases outcome with
  | ok scope => exact hnext scope
  | error error => exact hapart error

theorem heeds_thenTrigger (hapart : Apart refused) (pin : String) :
    (Behaviour.thenTrigger pin).Heeds refused :=
  heeds_andTrigger hapart fun _ ↦ trivial

theorem heeds_andTriggerAll (hapart : Apart refused) {pins : List String}
    {next : List Nat → Behaviour} (hnext : ∀ scopes, (next scopes).Heeds refused) :
    (Behaviour.andTriggerAll pins next).Heeds refused := by
  induction pins generalizing next with
  | nil => exact hnext []
  | cons pin rest ih => exact heeds_andTrigger hapart fun scope ↦ ih fun scopes ↦ hnext _

/-- Assumes: no reason of the check is the one for which the node fails without an id. -/
theorem heeds_resourceId {next : String → Behaviour}
    (hmissing : ¬ refused s!"Node '{call.node}' has no {what} id")
    (hnext : ∀ id, (next id).Heeds refused) : (call.resourceId what next).Heeds refused := by
  intro bound
  dsimp only
  split
  · split_ifs
    · exact hmissing
    · exact hnext _
  · exact hmissing

theorem heeds_writeAll (entries : List (String × Value)) {next : Behaviour}
    (hnext : next.Heeds refused) : (writeAll entries next).Heeds refused := by
  induction entries with
  | nil => exact hnext
  | cons entry rest ih => exact ih

theorem heeds_feed {node : String} {decls : List PinDecl} {inputs : Inputs}
    {next : Inputs → Behaviour} (hnext : ∀ inputs, (next inputs).Heeds refused) :
    (feed node decls inputs next).Heeds refused := by
  induction decls generalizing inputs with
  | nil => exact hnext inputs
  | cons decl decls ih =>
    intro bound
    cases bound with
    | some value => exact ih
    | none => exact ih

/-! ### What checks refuse -/

theorem starts_of_log (h : log.Refuses reason) : Starts 'U' reason := by
  obtain ⟨params, hparams⟩ := h
  simp only [log, validateLevel] at hparams
  split at hparams
  · cases hparams
  · split at hparams
    · cases hparams
    · obtain rfl := Except.error.inj hparams
      exact ((show Starts 'U' "Unknown log level '" from rfl).append _).append _

theorem setOutput_refuses_iff : setOutput.Refuses reason ↔ reason = missingName := by
  constructor
  · rintro ⟨params, hparams⟩
    simp only [setOutput, validateName] at hparams
    split at hparams
    · split_ifs at hparams
      exact (Except.error.inj hparams).symm
    · exact (Except.error.inj hparams).symm
  · rintro rfl
    exact ⟨.null, rfl⟩

theorem sequence_refuses_iff : sequence.Refuses reason ↔
    ∃ params, branches params = .error reason := by
  refine exists_congr fun params ↦ ?_
  simp only [sequence]
  cases branches params <;> simp [Except.map]

theorem eq_of_pinNames {pins : List Json} (h : pins.mapM pinName = .error reason) :
    reason = "Pin names must be strings" := by
  induction pins with
  | nil => cases h
  | cons pin rest ih =>
    rw [List.mapM_cons] at h
    cases hpin : pinName pin with
    | error first =>
      rw [hpin] at h
      obtain rfl := Except.error.inj h
      unfold pinName at hpin
      split at hpin
      · cases hpin
      · exact (Except.error.inj hpin).symm
    | ok name =>
      rw [hpin] at h
      cases hrest : rest.mapM pinName with
      | error later =>
        rw [hrest] at h
        obtain rfl := Except.error.inj h
        exact ih hrest
      | ok names =>
        rw [hrest] at h
        cases h

theorem starts_of_branches {params : Json} (h : branches params = .error reason) :
    Starts 'P' reason ∨ Starts 'S' reason := by
  unfold branches at h
  split at h
  · rename_i pins hpins
    cases hnames : pins.mapM pinName with
    | error first =>
      rw [hnames] at h
      obtain rfl := Except.error.inj h
      rw [eq_of_pinNames hnames]
      exact .inl rfl
    | ok names =>
      rw [hnames] at h
      cases h
  · split at h
    · cases h
    · obtain rfl := Except.error.inj h
      exact .inr rfl

theorem starts_of_loading {name pin : String} {form : AssetForm}
    (h : (loading name what pin form).Refuses reason) : Starts '\'' reason := by
  obtain ⟨params, hparams⟩ := h
  simp only [loading, validateOutput] at hparams
  split at hparams
  · cases hparams
  · split_ifs at hparams
    obtain rfl := Except.error.inj hparams
    rfl
  · obtain rfl := Except.error.inj hparams
    rfl

/-! ### The kinds that every runtime has -/

theorem heeds_log (hstarts : ∀ reason, refused reason → Starts 'U' reason) (call : NodeCall) :
    (log.behaviour call).Heeds refused :=
  fun _ ↦ heeds_thenTrigger (apart_of_starts rfl hstarts) "then"

theorem heeds_setOutput (hstarts : ∀ reason, refused reason → Starts 'M' reason)
    (hvalid : validateName call.params = .ok ()) : (setOutput.behaviour call).Heeds refused := by
  have hapart : Apart refused := apart_of_starts rfl hstarts
  simp only [setOutput, NodeCall.paramString?]
  unfold validateName at hvalid
  split at hvalid
  · rename_i name hname
    split_ifs at hvalid with hempty
    rw [hname]
    intro bound
    dsimp only
    split
    · exact ⟨hempty, heeds_thenTrigger hapart "then"⟩
    · -- A value is missed at run time only, which is told in other words than a missing name.
      intro hrefused
      have hnothing := ((show Starts 'N' "Nothing to publish as '" from rfl).append name).append "'"
      cases (hstarts _ hrefused).unique hnothing
  · cases hvalid

theorem heeds_sequence (hapart : Apart refused) {found : Branches}
    (hfound : branches call.params = .ok found) : (sequence.behaviour call).Heeds refused := by
  simp only [sequence, hfound]
  refine heeds_andTriggerAll hapart fun scopes ↦ ?_
  split
  · exact heeds_thenTrigger hapart "completed"
  · trivial

theorem heeds_loading {name pin : String} {form : AssetForm}
    (hstarts : ∀ reason, refused reason → Starts '\'' reason)
    (hvalid : validateOutput call.params = .ok ()) :
    ((loading name what pin form).behaviour call).Heeds refused := by
  have hapart : Apart refused := apart_of_starts rfl hstarts
  refine heeds_resourceId (fun hrefused ↦ ?_) fun id outcome ↦ ?_
  · have hmissing := ((((show Starts 'N' "Node '" from rfl).append call.node).append "' has no ").append
      "resource").append " id"
    cases (hstarts _ hrefused).unique hmissing
  · cases outcome with
    | error error =>
      intro hrefused
      have hfailed := ((((show Starts 'F' "Failed to load " from rfl).append what).append " '").append
        id).append "'"
      cases (hstarts _ hrefused).unique hfailed
    | ok value =>
      have hgoOn : (Behaviour.write pin value (.thenTrigger "then")).Heeds refused :=
        heeds_thenTrigger hapart "then"
      dsimp only
      split
      · rename_i output houtput
        refine ⟨?_, hgoOn⟩
        rintro rfl
        obtain ⟨json, hjson, hstring⟩ := Option.bind_eq_some_iff.mp houtput
        cases json with
        | string text =>
          obtain rfl := Option.some.inj hstring
          simp [validateOutput, hjson] at hvalid
        | _ => cases hstring
      · exact hgoOn

theorem heeds_executeBlueprint (hnone : ∀ reason, ¬ refused reason) (call : NodeCall) :
    (executeBlueprint.behaviour call).Heeds refused := by
  have hapart : Apart refused := fun _ ↦ hnone _
  refine heeds_resourceId (hnone _) fun id outcome ↦ ?_
  cases outcome with
  | error error => exact hnone _
  | ok loaded =>
    refine heeds_feed fun inputs result ↦ ?_
    dsimp only
    split
    · exact heeds_writeAll _ (heeds_thenTrigger hapart "then")
    · exact hnone _

/-- A node whose kind has accepted its params does not fail for what its kind refuses. -/
theorem heeds {kind : NodeKind} (hkind : kind ∈ builtins) (hvalid : kind.validate call.params = .ok ()) :
    (kind.behaviour call).Heeds kind.Refuses := by
  simp only [builtins, List.mem_cons, List.not_mem_nil, or_false] at hkind
  rcases hkind with rfl | rfl | rfl | rfl | rfl | rfl | rfl
  · exact heeds_log (fun _ ↦ starts_of_log) call
  · refine heeds_setOutput (fun reason hrefused ↦ ?_) hvalid
    rw [setOutput_refuses_iff.mp hrefused]
    rfl
  · cases hfound : branches call.params with
    | error reason => exact absurd hvalid (by simp [sequence, hfound, Except.map])
    | ok found =>
      refine heeds_sequence (fun error hrefused ↦ ?_) hfound
      obtain ⟨params, hparams⟩ := sequence_refuses_iff.mp hrefused
      rcases starts_of_branches hparams with hpins | hcount
      · exact apart_of_starts (c := 'P') rfl (fun _ hstarts ↦ hstarts) error hpins
      · exact apart_of_starts (c := 'S') rfl (fun _ hstarts ↦ hstarts) error hcount
  · exact heeds_loading (fun _ ↦ starts_of_loading) hvalid
  · exact heeds_loading (fun _ ↦ starts_of_loading) hvalid
  · exact heeds_loading (fun _ ↦ starts_of_loading) hvalid
  · refine heeds_executeBlueprint (fun reason hrefused ↦ ?_) call
    obtain ⟨params, hparams⟩ := hrefused
    cases hparams

end NodeKind

namespace Registry

/-- Nodes of the kinds in a registry heed the checks of their params. -/
def Heeding (registry : Registry) : Prop :=
  ∀ name kind, registry.get? name = some kind → ∀ call : NodeCall,
    kind.validate call.params = .ok () → (kind.behaviour call).Heeds kind.Refuses

theorem heeding_standard : standard.Heeding := by
  intro name kind hkind call hvalid
  exact NodeKind.heeds (mem_builtins_of_standard hkind) hvalid

end Registry

end Blueprint

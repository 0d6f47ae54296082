import Blueprint.Node.Builtin
import Blueprint.Proofs.Table
import Mathlib.Data.Set.Basic

/-!
The blueprints that nodes hand on. A blueprint is known by its handle. A behaviour whose handles are
drawn from a set (`Behaviour.DrawnFrom`) writes, publishes and runs only blueprints with such handles,
provided that those it is given are of the set. In an honest registry this is so for every set: no
node makes up a handle. The kinds that every runtime has are honest (`Registry.honest_standard`).
-/

set_option autoImplicit false

namespace Blueprint

variable {held more : Set Nat}

/-- A blueprint has a handle of a set; other values have none. -/
def Value.DrawnFrom (held : Set Nat) (value : Value) : Prop :=
  ∀ g, value.asBlueprint? = some g → g.handle ∈ held

theorem Value.DrawnFrom.mono {value : Value} (h : value.DrawnFrom held) (hmore : held ⊆ more) :
    value.DrawnFrom more := fun g hg ↦ hmore (h g hg)

theorem Value.drawnFrom_ofJson (json : Json) : (ofJson json).DrawnFrom held := by
  intro g hg
  cases json with
  | number n =>
    cases n with
    | whole n =>
      rw [ofJson] at hg
      split_ifs at hg <;> cases hg
    | real x => cases hg
  | _ => cases hg

/-- Handles of the graph and of its inputs are of a set. -/
structure LoadedGraph.DrawnFrom (held : Set Nat) (loaded : LoadedGraph) : Prop where
  graph : loaded.graph.handle ∈ held
  inputs : loaded.inputs.All (Value.DrawnFrom held)

theorem LoadedGraph.DrawnFrom.mono {loaded : LoadedGraph} (h : loaded.DrawnFrom held)
    (hmore : held ⊆ more) : loaded.DrawnFrom more :=
  ⟨hmore h.graph, h.inputs.mono fun _ hvalue ↦ hvalue.mono hmore⟩

namespace Behaviour

/-- Hands on handles of a set only, or such as it is given meanwhile. -/
def DrawnFrom : Set Nat → Behaviour → Prop
  | _, .succeed | _, .fail _ | _, .panic _ | _, .stall => True
  | held, .read _ _ next => ∀ more, held ⊆ more → ∀ bound : Option Value,
    (∀ value ∈ bound, value.DrawnFrom more) → (next bound).DrawnFrom more
  | held, .write _ value next | held, .publish _ value next =>
    value.DrawnFrom held ∧ next.DrawnFrom held
  | held, .log _ _ next | held, .join _ next | held, .sleep _ next | held, .yield next =>
    next.DrawnFrom held
  | held, .trigger _ next => ∀ outcome, (next outcome).DrawnFrom held
  | held, .load _ _ next => ∀ more, held ⊆ more → ∀ outcome : Except ResolveError Value,
    (∀ value, outcome = .ok value → value.DrawnFrom more) → (next outcome).DrawnFrom more
  | held, .find _ next => ∀ more, held ⊆ more → ∀ outcome : Except ResolveError LoadedGraph,
    (∀ loaded, outcome = .ok loaded → loaded.DrawnFrom more) → (next outcome).DrawnFrom more
  | held, .nest graph inputs next =>
    graph.handle ∈ held ∧ inputs.All (Value.DrawnFrom held) ∧
      ∀ more, held ⊆ more → ∀ result : RunResult,
        result.outputs.All (Value.DrawnFrom more) → (next result).DrawnFrom more

/-- A larger set does as well. -/
theorem DrawnFrom.mono {request : Behaviour} (h : request.DrawnFrom held) (hmore : held ⊆ more) :
    request.DrawnFrom more := by
  induction request with
  | succeed | fail | panic | stall => trivial
  | read => exact fun larger hlarger ↦ h larger (hmore.trans hlarger)
  | write _ value next ih => exact ⟨h.1.mono hmore, ih h.2⟩
  | publish _ value next ih => exact ⟨h.1.mono hmore, ih h.2⟩
  | log _ _ _ ih | join _ _ ih | sleep _ _ ih | yield _ ih => exact ih h
  | trigger pin next ih => exact fun outcome ↦ ih outcome (h outcome)
  | load => exact fun larger hlarger ↦ h larger (hmore.trans hlarger)
  | find => exact fun larger hlarger ↦ h larger (hmore.trans hlarger)
  | nest =>
    exact ⟨hmore h.1, h.2.1.mono fun _ hvalue ↦ hvalue.mono hmore,
      fun larger hlarger ↦ h.2.2 larger (hmore.trans hlarger)⟩

theorem drawnFrom_andTrigger {pin : String} {next : Nat → Behaviour}
    (hnext : ∀ scope, (next scope).DrawnFrom held) : (andTrigger pin next).DrawnFrom held := by
  intro outcome
  cases outcome with
  | ok scope => exact hnext scope
  | error error => trivial

theorem drawnFrom_thenTrigger (pin : String) : (thenTrigger pin).DrawnFrom held :=
  drawnFrom_andTrigger fun _ ↦ trivial

theorem drawnFrom_andTriggerAll {pins : List String} {next : List Nat → Behaviour}
    (hnext : ∀ scopes, (next scopes).DrawnFrom held) : (andTriggerAll pins next).DrawnFrom held := by
  induction pins generalizing next with
  | nil => exact hnext []
  | cons pin rest ih => exact drawnFrom_andTrigger fun scope ↦ ih fun scopes ↦ hnext _

end Behaviour

namespace NodeKind

variable {call : NodeCall}

theorem drawnFrom_resourceId {what : String} {next : String → Behaviour}
    (hnext : ∀ id, (next id).DrawnFrom held) : (call.resourceId what next).DrawnFrom held := by
  intro more hmore bound _
  dsimp only
  split
  · split_ifs
    · trivial
    · exact (hnext _).mono hmore
  · trivial

theorem drawnFrom_writeAll {entries : List (String × Value)} {next : Behaviour}
    (hentries : ∀ entry ∈ entries, entry.2.DrawnFrom held) (hnext : next.DrawnFrom held) :
    (writeAll entries next).DrawnFrom held := by
  induction entries with
  | nil => exact hnext
  | cons entry rest ih =>
    exact ⟨hentries entry List.mem_cons_self,
      ih fun other hother ↦ hentries other (List.mem_cons_of_mem _ hother)⟩

theorem drawnFrom_feed {node : String} {decls : List PinDecl} {inputs : Inputs}
    {next : Inputs → Behaviour} (hinputs : inputs.All (Value.DrawnFrom held))
    (hnext : ∀ more, held ⊆ more → ∀ inputs : Inputs,
      inputs.All (Value.DrawnFrom more) → (next inputs).DrawnFrom more) :
    (feed node decls inputs next).DrawnFrom held := by
  -- What is read of a pin may be of more handles, so the set grows along the induction.
  induction decls generalizing held inputs with
  | nil => exact hnext held subset_rfl inputs hinputs
  | cons decl decls ih =>
    intro more hmore bound hbound
    have hkept : inputs.All (Value.DrawnFrom more) := hinputs.mono fun _ hvalue ↦ hvalue.mono hmore
    have hlater : ∀ larger, more ⊆ larger → ∀ inputs : Inputs,
        inputs.All (Value.DrawnFrom larger) → (next inputs).DrawnFrom larger :=
      fun larger hlarger ↦ hnext larger (hmore.trans hlarger)
    cases bound with
    | some value => exact ih (hkept.insert decl.name (hbound value rfl)) hlater
    | none => exact ih hkept hlater

theorem drawnFrom_log (call : NodeCall) : (log.behaviour call).DrawnFrom held :=
  fun _ _ _ _ ↦ Behaviour.drawnFrom_thenTrigger "then"

theorem drawnFrom_setOutput (call : NodeCall) : (setOutput.behaviour call).DrawnFrom held := by
  simp only [setOutput]
  split
  · trivial
  · rename_i name
    intro more hmore bound hbound
    dsimp only
    split
    · rename_i value hvalue
      refine ⟨?_, Behaviour.drawnFrom_thenTrigger "then"⟩
      rcases Option.or_eq_some_iff.mp hvalue with hread | ⟨-, hparam⟩
      · exact hbound value hread
      · obtain ⟨json, -, rfl⟩ := Option.map_eq_some_iff.mp hparam
        exact Value.drawnFrom_ofJson json
    · trivial

theorem drawnFrom_sequence (call : NodeCall) : (sequence.behaviour call).DrawnFrom held := by
  simp only [sequence]
  split
  · trivial
  · refine Behaviour.drawnFrom_andTriggerAll fun scopes ↦ ?_
    split
    · exact Behaviour.drawnFrom_thenTrigger "completed"
    · trivial

theorem drawnFrom_loading (name what pin : String) (form : AssetForm) (call : NodeCall) :
    ((loading name what pin form).behaviour call).DrawnFrom held := by
  refine drawnFrom_resourceId fun id more hmore outcome houtcome ↦ ?_
  cases outcome with
  | error error => trivial
  | ok value =>
    have hvalue : value.DrawnFrom more := houtcome value rfl
    have hgoOn : (Behaviour.write pin value (.thenTrigger "then")).DrawnFrom more :=
      ⟨hvalue, Behaviour.drawnFrom_thenTrigger "then"⟩
    dsimp only
    split
    · exact ⟨hvalue, hgoOn⟩
    · exact hgoOn

theorem drawnFrom_executeBlueprint (call : NodeCall) :
    (executeBlueprint.behaviour call).DrawnFrom held := by
  refine drawnFrom_resourceId fun id more hmore outcome houtcome ↦ ?_
  cases outcome with
  | error error => trivial
  | ok loaded =>
    obtain ⟨hgraph, hinputs⟩ := houtcome loaded rfl
    refine drawnFrom_feed hinputs fun fed hfed inputs hinputs ↦
      ⟨hfed hgraph, hinputs, fun larger hlarger result houtputs ↦ ?_⟩
    dsimp only
    split
    · exact drawnFrom_writeAll houtputs (Behaviour.drawnFrom_thenTrigger "then")
    · trivial

theorem drawnFrom_builtin {kind : NodeKind} (hkind : kind ∈ builtins) (call : NodeCall) :
    (kind.behaviour call).DrawnFrom held := by
  simp only [builtins, List.mem_cons, List.not_mem_nil, or_false] at hkind
  rcases hkind with rfl | rfl | rfl | rfl | rfl | rfl | rfl
  · exact drawnFrom_log call
  · exact drawnFrom_setOutput call
  · exact drawnFrom_sequence call
  · exact drawnFrom_loading _ _ _ _ call
  · exact drawnFrom_loading _ _ _ _ call
  · exact drawnFrom_loading _ _ _ _ call
  · exact drawnFrom_executeBlueprint call

end NodeKind

namespace Registry

theorem get?_foldl_register {kinds : List NodeKind} {registry : Registry} {name : String}
    {kind : NodeKind} (h : (kinds.foldl register registry).get? name = some kind) :
    kind ∈ kinds ∨ registry.get? name = some kind := by
  induction kinds generalizing registry with
  | nil => exact .inr h
  | cons first rest ih =>
    rcases ih h with hrest | hfirst
    · exact .inl (List.mem_cons_of_mem _ hrest)
    · rcases Table.get?_insert_eq_some.mp hfirst with ⟨-, rfl⟩ | ⟨-, hold⟩
      · exact .inl List.mem_cons_self
      · exact .inr hold

theorem mem_builtins_of_standard {name : String} {kind : NodeKind}
    (h : standard.get? name = some kind) : kind ∈ NodeKind.builtins :=
  (get?_foldl_register h).resolve_right fun hempty ↦ nomatch hempty

/-- No node makes up a handle. -/
def Honest (registry : Registry) : Prop :=
  ∀ held name kind, registry.get? name = some kind → ∀ call, (kind.behaviour call).DrawnFrom held

theorem honest_standard : standard.Honest := fun _ _ _ hkind call ↦
  NodeKind.drawnFrom_builtin (mem_builtins_of_standard hkind) call

end Registry

end Blueprint

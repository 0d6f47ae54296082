import Blueprint.Node.Builtin
import Mathlib.Algebra.BigOperators.Group.List.Basic
import Mathlib.Algebra.GroupWithZero.Nat

/-!
Behaviours that a budget pays for. `Behaviour.Within` bounds the requests of a behaviour: each costs
something, a trigger the price of its pin on top, and a wait a little more than the rest. A behaviour
with a budget ends, whatever the answers are; it waits only for scopes that are later than its own,
and where it must not wait it does not.

The node kinds that publish, log, load or start branches have a budget that depends on the prices of
the pins that they fire (`NodeKind.within_of_plain`).
-/

set_option autoImplicit false

namespace Blueprint

namespace Behaviour

/-- The requests of a node on a scope are within a budget, at the prices of its pins. -/
def Within (waits : Bool) (price : String → Nat) (scope : Nat) : Behaviour → Nat → Prop
  | .succeed, _ | .fail _, _ | .panic _, _ => True
  | .read _ _ next, budget => ∃ rest < budget, ∀ answer, (next answer).Within waits price scope rest
  | .write _ _ next, budget | .publish _ _ next, budget | .log _ _ next, budget =>
    ∃ rest < budget, next.Within waits price scope rest
  | .trigger pin next, budget =>
    ∃ rest, rest + price pin < budget ∧
      (∀ later, scope < later → (next (.ok later)).Within waits price scope rest) ∧
      ∀ error, (next (.error error)).Within waits price scope rest
  | .join scopes next, budget =>
    waits = true ∧ (∀ later ∈ scopes, scope < later) ∧
      ∃ rest, rest + 2 < budget ∧ next.Within waits price scope rest
  | .load _ _ next, budget =>
    waits = true ∧ ∃ rest, rest + 2 < budget ∧ ∀ outcome, (next outcome).Within waits price scope rest
  | .find _ _, _ | .nest _ _ _, _ | .sleep _ _, _ | .yield _, _ | .stall, _ => False

variable {waits : Bool} {price : String → Nat} {scope budget more : Nat} {b : Behaviour}

theorem Within.mono (h : b.Within waits price scope budget) (hle : budget ≤ more) :
    b.Within waits price scope more := by
  cases b with
  | succeed | fail | panic => trivial
  | read | write | publish | log =>
    obtain ⟨rest, hrest, hnext⟩ := h
    exact ⟨rest, Nat.lt_of_lt_of_le hrest hle, hnext⟩
  | trigger =>
    obtain ⟨rest, hrest, hnext⟩ := h
    exact ⟨rest, Nat.lt_of_lt_of_le hrest hle, hnext⟩
  | join =>
    obtain ⟨hwaits, hscopes, rest, hrest, hnext⟩ := h
    exact ⟨hwaits, hscopes, rest, Nat.lt_of_lt_of_le hrest hle, hnext⟩
  | load =>
    obtain ⟨hwaits, rest, hrest, hnext⟩ := h
    exact ⟨hwaits, rest, Nat.lt_of_lt_of_le hrest hle, hnext⟩
  | find | nest | sleep | yield | stall => exact h

/-- Assumes: a budget for going on from every later scope. -/
theorem within_andTrigger {pin : String} {next : Nat → Behaviour}
    (hnext : ∀ later, scope < later → (next later).Within waits price scope budget) :
    (andTrigger pin next).Within waits price scope (budget + price pin + 1) :=
  ⟨budget, Nat.lt_succ_self _, hnext, fun _ ↦ trivial⟩

theorem within_thenTrigger (pin : String) :
    (thenTrigger pin).Within waits price scope (price pin + 1) := by
  have htrigger : (thenTrigger pin).Within waits price scope (0 + price pin + 1) :=
    within_andTrigger fun _ _ ↦ trivial
  rwa [Nat.zero_add] at htrigger

/-- What firing pins in turn costs. -/
def priceOf (price : String → Nat) (pins : List String) : Nat := (pins.map fun pin ↦ price pin + 1).sum

/-- Assumes: a budget for going on with any later scopes. -/
theorem within_andTriggerAll {pins : List String} {next : List Nat → Behaviour}
    (hnext : ∀ scopes, (∀ later ∈ scopes, scope < later) →
      (next scopes).Within waits price scope budget) :
    (andTriggerAll pins next).Within waits price scope (budget + priceOf price pins) := by
  induction pins generalizing next with
  | nil => exact hnext [] fun later hlater ↦ nomatch hlater
  | cons pin rest ih =>
    have hfirst : (andTriggerAll (pin :: rest) next).Within waits price scope
        (budget + priceOf price rest + price pin + 1) := by
      refine within_andTrigger fun later hlater ↦ ih fun scopes hscopes ↦ hnext _ ?_
      exact List.forall_mem_cons.mpr ⟨hlater, hscopes⟩
    refine hfirst.mono (Nat.le_of_eq ?_)
    simp only [priceOf, List.map_cons, List.sum_cons]
    omega

end Behaviour

namespace NodeKind

/-- The kinds whose nodes neither nest runs nor wait for time to pass. -/
def plain : List NodeKind := [log, setOutput, sequence, loadTexture, loadMesh, loadJson]

/-- The pins of the branches that a sequence with these params fires. -/
def firedPins (params : Json) : List String :=
  match branches params with
  | .ok found => found.pins
  | .error _ => []

/-- A budget for a node of a plain kind with these params. -/
def budget (params : Json) (price : String → Nat) : Nat :=
  Behaviour.priceOf price (firedPins params) + price "then" + price "completed" + 8

variable {waits : Bool} {price : String → Nat} {kind : NodeKind} {call : NodeCall}

theorem within_log : (log.behaviour call).Within waits price call.scope (budget call.params price) := by
  refine ⟨price "then" + 2, by unfold budget; omega, fun bound ↦ ?_⟩
  exact ⟨price "then" + 1, by omega, Behaviour.within_thenTrigger "then"⟩

theorem within_setOutput :
    (setOutput.behaviour call).Within waits price call.scope (budget call.params price) := by
  simp only [setOutput]
  split
  · trivial
  · refine ⟨price "then" + 2, by unfold budget; omega, fun bound ↦ ?_⟩
    beta_reduce
    split
    · exact ⟨price "then" + 1, by omega, Behaviour.within_thenTrigger "then"⟩
    · trivial

theorem within_sequence (hwaits : waits = true) :
    (sequence.behaviour call).Within waits price call.scope (budget call.params price) := by
  simp only [sequence]
  split
  · trivial
  · rename_i found hfound
    have hpins : firedPins call.params = found.pins := by rw [firedPins, hfound]
    have hall : ∀ joins : Bool, (Behaviour.andTriggerAll found.pins fun scopes ↦
        if joins = true then .join scopes (.thenTrigger "completed") else .succeed).Within waits price
          call.scope (price "completed" + 4 + Behaviour.priceOf price found.pins) := by
      intro joins
      refine Behaviour.within_andTriggerAll fun scopes hscopes ↦ ?_
      split
      · exact ⟨hwaits, hscopes, price "completed" + 1, by omega,
          Behaviour.within_thenTrigger "completed"⟩
      · trivial
    refine (hall _).mono ?_
    rw [budget, hpins]
    omega

/-- Assumes: a budget for going on with any id. -/
theorem within_resourceId {what : String} {next : String → Behaviour} {rest : Nat}
    (hnext : ∀ id, (next id).Within waits price call.scope rest) :
    (call.resourceId what next).Within waits price call.scope (rest + 1) := by
  refine ⟨rest, Nat.lt_succ_self _, fun bound ↦ ?_⟩
  beta_reduce
  split
  · split_ifs
    · trivial
    · exact hnext _
  · trivial

theorem within_loading (hwaits : waits = true) (name what pin : String) (form : AssetForm) :
    ((loading name what pin form).behaviour call).Within waits price call.scope
      (budget call.params price) := by
  have hwrite (value : Value) : (Behaviour.write pin value (.thenTrigger "then")).Within waits price
      call.scope (price "then" + 2) :=
    ⟨price "then" + 1, by omega, Behaviour.within_thenTrigger "then"⟩
  have hload : ((loading name what pin form).behaviour call).Within waits price call.scope
      (price "then" + 6 + 1) := by
    refine within_resourceId fun id ↦ ⟨hwaits, price "then" + 3, by omega, fun outcome ↦ ?_⟩
    cases outcome with
    | error e => trivial
    | ok value =>
      simp only
      split
      · exact ⟨price "then" + 2, by omega, hwrite value⟩
      · exact (hwrite value).mono (by omega)
  exact hload.mono (by unfold budget; omega)

/-- Nodes of the plain kinds are within their budgets. Assumes: where nodes must not wait, the kind is
sync. -/
theorem within_of_plain (hkind : kind ∈ plain) (hwaits : waits = true ∨ kind.mode = .sync) :
    (kind.behaviour call).Within waits price call.scope (budget call.params price) := by
  have hasync (hmode : kind.mode = .async) : waits = true :=
    hwaits.resolve_right fun hsync ↦ nomatch hsync.symm.trans hmode
  simp only [plain, List.mem_cons, List.not_mem_nil, or_false] at hkind
  rcases hkind with rfl | rfl | rfl | rfl | rfl | rfl
  · exact within_log
  · exact within_setOutput
  · exact within_sequence (hasync rfl)
  · exact within_loading (hasync rfl) _ _ _ _
  · exact within_loading (hasync rfl) _ _ _ _
  · exact within_loading (hasync rfl) _ _ _ _

end NodeKind

end Blueprint

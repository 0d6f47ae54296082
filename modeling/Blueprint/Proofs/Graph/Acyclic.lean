import Blueprint.Proofs.Graph.Wiring
import Blueprint.Proofs.Node.Budget
import Mathlib.Logic.Relation

/-!
Graphs whose exec links never lead back. A node of such a graph has a rank, the number of nodes that
can be reached from it, and each link leads to a node of lower rank (`Acyclic.rank_lt`). So budgets
can be handed out from the last nodes up: the budget of a node pays for its own requests and for
those of all nodes that they start (`Acyclic.budget_eq`).
-/

set_option autoImplicit false

namespace Blueprint.Graph

/-- An exec pin of one node leads to another one. -/
def Links (g : Graph) (id next : String) : Prop :=
  ∃ node ∈ g.nodes, node.id = id ∧ ∃ pin, (pin, some next) ∈ node.links

/-- No way along the exec links leads back to where it began. -/
def Acyclic (g : Graph) : Prop := ∀ id, ¬Relation.TransGen g.Links id id

variable {g : Graph} {id pin next : String}

/-- Assumes: a measure that every link lowers. -/
theorem acyclic_of_lowers (measure : String → Nat)
    (h : ∀ node ∈ g.nodes, ∀ link ∈ node.links, ∀ next ∈ link.2, measure next < measure node.id) :
    g.Acyclic := by
  have hlink : ∀ id next, g.Links id next → measure next < measure id := by
    rintro _ next ⟨node, hmem, rfl, pin, hlink⟩
    exact h node hmem _ hlink next rfl
  have hway : ∀ id next, Relation.TransGen g.Links id next → measure next < measure id := by
    intro id next hway
    induction hway with
    | single hlast => exact hlink _ _ hlast
    | tail _ hlast ih => exact Nat.lt_trans (hlink _ _ hlast) ih
  exact fun id hback ↦ Nat.lt_irrefl _ (hway id id hback)

theorem Wired.links_of_target (h : g.Wired) (htarget : g.target? id pin = some (some next)) :
    g.Links id next := by
  obtain ⟨origin, horigin, hlink⟩ := Option.bind_eq_some_iff.mp htarget
  obtain ⟨hmem, hid⟩ := h.mem_of_node? id origin horigin
  exact ⟨origin, hmem, hid, pin, Table.mem_of_get? (t := ⟨origin.links⟩) hlink⟩

open Classical in
/-- How many nodes can be reached from a node. -/
noncomputable def rank (g : Graph) (id : String) : Nat :=
  g.nodes.countP fun node ↦ decide (Relation.TransGen g.Links id node.id)

theorem countP_lt_countP {α : Type} {p q : α → Bool} {items : List α} {item : α}
    (hle : ∀ x ∈ items, p x = true → q x = true) (hmem : item ∈ items) (hp : p item = false)
    (hq : q item = true) : items.countP p < items.countP q := by
  induction items with
  | nil => cases hmem
  | cons first rest ih =>
    have hrest : rest.countP p ≤ rest.countP q :=
      List.countP_mono_left fun x hx ↦ hle x (List.mem_cons_of_mem _ hx)
    rcases List.mem_cons.mp hmem with rfl | hlater
    · rw [List.countP_cons_of_neg (by simp [hp]), List.countP_cons_of_pos hq]
      omega
    · have hlt := ih (fun x hx ↦ hle x (List.mem_cons_of_mem _ hx)) hlater
      have hfirst := hle first List.mem_cons_self
      rw [List.countP_cons, List.countP_cons]
      split_ifs <;> first | omega | simp_all

open Classical in
/-- Links lead to nodes of lower rank. -/
theorem Acyclic.rank_lt (h : g.Acyclic) (hwired : g.Wired)
    (htarget : g.target? id pin = some (some next)) : g.rank next < g.rank id := by
  have hlinks := hwired.links_of_target htarget
  obtain ⟨node, hmem, -, rfl⟩ := hwired.node?_of_target htarget
  refine countP_lt_countP (fun other _ hother ↦ ?_) hmem ?_ ?_
  · exact decide_eq_true (.head hlinks (of_decide_eq_true hother))
  · exact decide_eq_false (h node.id)
  · exact decide_eq_true (.single hlinks)

/-- What a node may spend, the nodes that it starts included. A pin that leads to a node costs a
little more than what that node may spend. -/
noncomputable def budget (g : Graph) (id : String) : Nat :=
  match g.node? id with
  | none => 0
  | some node => NodeKind.budget node.params fun pin ↦
      match g.target? id pin with
      | some (some next) => if g.rank next < g.rank id then g.budget next + 3 else 0
      | _ => 0
termination_by g.rank id

/-- What firing a pin of a node costs. -/
noncomputable def price (g : Graph) (id pin : String) : Nat :=
  match g.target? id pin with
  | some (some next) => g.budget next + 3
  | _ => 0

theorem Acyclic.budget_eq (h : g.Acyclic) (hwired : g.Wired) {node : NodeDocument}
    (hmem : node ∈ g.nodes) : g.budget node.id = NodeKind.budget node.params (g.price node.id) := by
  rw [budget, hwired.node?_of_mem node hmem]
  simp only
  congr 1
  funext pin
  rw [price]
  split
  · rename_i next htarget
    rw [if_pos (h.rank_lt hwired htarget)]
  · rfl

/-! ### Small graphs -/

theorem forked_acyclic : forked.Acyclic :=
  acyclic_of_lowers (fun id ↦ if id = "fork" then 1 else 0) (by decide)

/-- A document of one async node. -/
def loneDocument : GraphDocument where
  nodes := [{ id := "s", kind := "sequence", params := .object [("count", .ofInt 0)] }]

/-- What `loneDocument` is loaded to. -/
def lone : Graph where
  version := none
  entry := some 0
  inputs := []
  outputs := []
  nodes := loneDocument.nodes
  index := .ofList [("s", 0)]

theorem lone_accepted : lone.Accepted := ⟨.standard, loneDocument, rfl⟩

theorem lone_acyclic : lone.Acyclic :=
  acyclic_of_lowers (fun _ ↦ 0) (by decide)

end Blueprint.Graph

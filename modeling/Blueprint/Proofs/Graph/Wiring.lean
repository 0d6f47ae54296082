import Blueprint.Interpreter.Basic
import Blueprint.Node.Builtin
import Blueprint.Proofs.Table

/-!
Accepted graphs are wired soundly. A graph made of a document that passes all checks finds each of
its nodes by id, leads every wired exec pin to a node, and starts with a node unless it has none
(`Graph.Accepted.wired`). The graphs an interpreter loads are accepted (`Interpreter.load_accepted`).
-/

set_option autoImplicit false

namespace Blueprint

namespace Graph

/-- The graph is what some document was loaded to, with some registry of node kinds. -/
def Accepted (g : Graph) : Prop := ∃ registry doc, Graph.ofDocument registry doc = .ok g

/-- Where an exec pin of a node leads: absent for a pin that is not declared, and nowhere for one
that is not wired. -/
def target? (g : Graph) (node pin : String) : Option (Option String) :=
  (g.node? node).bind fun origin ↦ Table.find pin origin.links

/-- Nodes are found by their ids, wired pins lead to nodes, and only a graph without nodes has
nothing to start with. -/
structure Wired (g : Graph) : Prop where
  node?_of_mem : ∀ node ∈ g.nodes, g.node? node.id = some node
  mem_of_node? : ∀ id node, g.node? id = some node → node ∈ g.nodes ∧ node.id = id
  leads : ∀ node ∈ g.nodes, ∀ pin target, Table.find pin node.links = some (some target) →
    ∃ next, g.node? target = some next
  entry_mem : ∀ node, g.entryNode? = some node → node ∈ g.nodes
  entry_none : g.entryNode? = none ↔ g.nodes = []

theorem Wired.node?_of_target {g : Graph} (h : g.Wired) {node pin target : String}
    (htarget : g.target? node pin = some (some target)) :
    ∃ next ∈ g.nodes, g.node? target = some next ∧ next.id = target := by
  obtain ⟨origin, horigin, hlink⟩ := Option.bind_eq_some_iff.mp htarget
  obtain ⟨next, hnext⟩ := h.leads origin (h.mem_of_node? node origin horigin).1 pin target hlink
  obtain ⟨hmem, hid⟩ := h.mem_of_node? target next hnext
  exact ⟨next, hmem, hnext, hid⟩

/-! ### The index -/

theorem get?_of_indexFrom {nodes : List NodeDocument} {position : Nat} {index full : Table String Nat}
    (h : indexFrom position index nodes = .ok full) {id : String} {place : Nat}
    (hplace : index.get? id = some place) : full.get? id = some place := by
  induction nodes generalizing position index with
  | nil =>
    obtain rfl := Except.ok.inj h
    exact hplace
  | cons node rest ih =>
    rw [indexFrom] at h
    split_ifs at h with hseen
    refine ih h ?_
    have hne : node.id ≠ id := fun heq ↦ hseen (by simp [Table.contains, heq, hplace])
    rw [Table.get?_insert, if_neg hne]
    exact hplace

theorem get?_of_getElem_indexFrom {nodes : List NodeDocument} {position : Nat}
    {index full : Table String Nat} (h : indexFrom position index nodes = .ok full) {i : Nat}
    {node : NodeDocument} (hnode : nodes[i]? = some node) :
    full.get? node.id = some (position + i) := by
  induction nodes generalizing position index i with
  | nil => simp at hnode
  | cons first rest ih =>
    rw [indexFrom] at h
    split_ifs at h with hseen
    cases i with
    | zero =>
      rw [List.getElem?_cons_zero, Option.some.injEq] at hnode
      exact get?_of_indexFrom h (by simp [hnode])
    | succ i =>
      rw [List.getElem?_cons_succ] at hnode
      rw [ih h hnode]
      congr 1
      omega

theorem getElem_of_get?_indexFrom {nodes : List NodeDocument} {position : Nat}
    {index full : Table String Nat} (h : indexFrom position index nodes = .ok full) {id : String}
    {place : Nat} (hplace : full.get? id = some place) :
    index.get? id = some place ∨
      ∃ i node, place = position + i ∧ nodes[i]? = some node ∧ node.id = id := by
  induction nodes generalizing position index with
  | nil =>
    obtain rfl := Except.ok.inj h
    exact Or.inl hplace
  | cons first rest ih =>
    rw [indexFrom] at h
    split_ifs at h with hseen
    rcases ih h with hold | ⟨i, node, hi, hnode, hid⟩
    · rw [Table.get?_insert] at hold
      split_ifs at hold with hfirst
      · exact Or.inr ⟨0, first, (Option.some.inj hold).symm, rfl, hfirst⟩
      · exact Or.inl hold
    · exact Or.inr ⟨i + 1, node, by omega, hnode, hid⟩

/-! ### The checks -/

theorem check_of_mem {α : Type} {check : α → Except GraphFault Unit} {items : List α}
    (h : checkAll check items = .ok ()) {item : α} (hmem : item ∈ items) : check item = .ok () := by
  induction items with
  | nil => simp at hmem
  | cons first rest ih =>
    rw [checkAll] at h
    split at h
    · rename_i hfirst
      rcases List.mem_cons.mp hmem with rfl | hrest
      · exact hfirst
      · exact ih h hrest
    · cases h

theorem checkAll_links_of_checkNode {registry : Registry} {index : Table String Nat}
    {declared : List PinDecl} {node : NodeDocument}
    (h : checkNode registry index declared node = .ok ()) :
    checkAll (checkLink index node) node.links = .ok () := by
  unfold checkNode at h
  cases hkind : checkKind registry node with
  | error fault => simp [hkind, bind, Except.bind] at h
  | ok _ =>
    cases hlinks : checkAll (checkLink index node) node.links with
    | error fault => simp [hkind, hlinks, bind, Except.bind] at h
    | ok _ => rfl

theorem contains_of_checkLink {index : Table String Nat} {node : NodeDocument}
    {pin target : String} (h : checkLink index node (pin, some target) = .ok ()) :
    index.contains target = true := by
  by_contra hmissing
  simp [checkLink, hmissing] at h

theorem ofDocument_eq_ok {registry : Registry} {doc : GraphDocument} {g : Graph}
    (h : ofDocument registry doc = .ok g) :
    ∃ index, indexFrom 0 {} doc.nodes = .ok index ∧
      checkAll (checkNode registry index doc.inputs) doc.nodes = .ok () ∧
      checkEntry index doc.entry = .ok () ∧
      g = { version := doc.version, entry := entryOf doc index, inputs := doc.inputs
            outputs := doc.outputs, nodes := doc.nodes, index } := by
  unfold ofDocument check at h
  cases hindex : indexFrom 0 {} doc.nodes with
  | error fault => simp [hindex, bind, Except.bind] at h
  | ok index =>
    cases hnodes : checkAll (checkNode registry index doc.inputs) doc.nodes with
    | error fault => simp [hindex, hnodes, bind, Except.bind] at h
    | ok _ =>
      cases hentry : checkEntry index doc.entry with
      | error fault => simp [hindex, hnodes, hentry, bind, Except.bind] at h
      | ok _ =>
        simp [hindex, hnodes, hentry, bind, Except.bind, pure, Except.pure] at h
        exact ⟨index, rfl, hnodes, hentry, h.symm⟩

/-- A graph has the version of its document. -/
theorem version_of_ofDocument {registry : Registry} {doc : GraphDocument} {g : Graph}
    (h : ofDocument registry doc = .ok g) : g.version = doc.version := by
  obtain ⟨index, -, -, -, rfl⟩ := ofDocument_eq_ok h
  rfl

theorem Accepted.wired {g : Graph} (h : g.Accepted) : g.Wired := by
  obtain ⟨registry, doc, hdoc⟩ := h
  obtain ⟨index, hindex, hnodes, hentry, rfl⟩ := ofDocument_eq_ok hdoc
  have hplace {id : String} {place : Nat} (hget : index.get? id = some place) :
      ∃ node, doc.nodes[place]? = some node ∧ node.id = id := by
    rcases getElem_of_get?_indexFrom hindex hget with hold | ⟨i, node, rfl, hnode, hid⟩
    · simp [Table.get?, Table.find] at hold
    · exact ⟨node, by simpa using hnode, hid⟩
  have hcontains {id : String} (hid : index.contains id = true) :
      ∃ place node, index.get? id = some place ∧ doc.nodes[place]? = some node := by
    obtain ⟨place, hget⟩ := Option.isSome_iff_exists.mp hid
    obtain ⟨node, hnode, -⟩ := hplace hget
    exact ⟨place, node, hget, hnode⟩
  refine ⟨?_, ?_, ?_, ?_, ?_⟩
  · intro node hmem
    obtain ⟨i, hnode⟩ := List.getElem?_of_mem hmem
    have hget := get?_of_getElem_indexFrom hindex hnode
    rw [Nat.zero_add] at hget
    simp [node?, hget, hnode]
  · intro id node hnode
    obtain ⟨place, hget, hat⟩ := Option.bind_eq_some_iff.mp hnode
    obtain ⟨other, hother, hid⟩ := hplace hget
    obtain rfl := Option.some.inj (hother.symm.trans hat)
    exact ⟨List.mem_of_getElem? hat, hid⟩
  · intro node hmem pin target hlink
    have hlinks := checkAll_links_of_checkNode (check_of_mem hnodes hmem)
    have hpair : (pin, some target) ∈ node.links := Table.mem_of_get? (t := ⟨node.links⟩) hlink
    obtain ⟨place, next, hget, hnext⟩ := hcontains (contains_of_checkLink (check_of_mem hlinks hpair))
    exact ⟨next, by simp [node?, hget, hnext]⟩
  · intro node hnode
    obtain ⟨place, -, hat⟩ := Option.bind_eq_some_iff.mp hnode
    exact List.mem_of_getElem? hat
  · cases hdeclared : doc.entry with
    | none =>
      cases hlist : doc.nodes with
      | nil => simp [entryNode?, entryOf, hdeclared, hlist]
      | cons first rest => simp [entryNode?, entryOf, hdeclared, hlist]
    | some id =>
      have hknown : index.contains id = true := by
        by_contra hmissing
        simp [hdeclared, checkEntry, hmissing] at hentry
      obtain ⟨place, node, hget, hnode⟩ := hcontains hknown
      have hne : doc.nodes ≠ [] := List.ne_nil_of_mem (List.mem_of_getElem? hnode)
      simp [entryNode?, entryOf, hdeclared, hget, hnode, hne]

/-! ### A small graph -/

/-- A sequence of three branches: it waits for a log line, for an output, and for a pin that leads
nowhere. -/
def forkedDocument : GraphDocument where
  outputs := [{ name := "answer" }]
  nodes := [
    { id := "fork", kind := "sequence"
      params := .object [("count", .ofInt 3), ("join", .bool true)]
      links := [("then_0", some "say"), ("then_1", some "set"), ("then_2", none),
        ("completed", none)] },
    { id := "say", kind := "log", links := [("then", none)] },
    { id := "set", kind := "set_output"
      params := .object [("name", .string "answer"), ("value", .ofInt 7)]
      links := [("then", none)] }]

/-- What `forkedDocument` is loaded to. -/
def forked : Graph where
  version := none
  entry := some 0
  inputs := []
  outputs := forkedDocument.outputs
  nodes := forkedDocument.nodes
  index := .ofList [("fork", 0), ("say", 1), ("set", 2)]

theorem forked_accepted : forked.Accepted := ⟨.standard, forkedDocument, rfl⟩

end Graph

namespace Interpreter

/-- What loading a text does, in any interpreter. -/
theorem load_cases (registry : Registry) (text : String) :
    (∃ error, ∀ e : Interpreter, e.load registry text = (.error error, e)) ∨
      ∃ doc graph, GraphDocument.ofText text = .ok doc ∧
        Graph.ofDocument registry doc = .ok graph ∧
        ∀ e : Interpreter, e.load registry text =
          (.ok (e.lastHandle + 1),
            { e with
              lastHandle := e.lastHandle + 1
              graphs := e.graphs.insert (e.lastHandle + 1) graph }) := by
  unfold load
  cases hdoc : GraphDocument.ofText text with
  | error fault => exact Or.inl ⟨_, fun e ↦ rfl⟩
  | ok doc =>
    cases hgraph : Graph.ofDocument registry doc with
    | error fault => exact Or.inl ⟨.load fault.message, fun e ↦ by simp only [hgraph]⟩
    | ok graph => exact Or.inr ⟨doc, graph, rfl, hgraph, fun e ↦ by simp only [hgraph]⟩

/-- Every loaded graph is accepted. -/
def GraphsAccepted (e : Interpreter) : Prop :=
  ∀ handle g, e.graphs.get? handle = some g → g.Accepted

theorem load_accepted {e : Interpreter} (h : e.GraphsAccepted) (registry : Registry)
    (text : String) : (e.load registry text).2.GraphsAccepted := by
  unfold load
  split
  · exact h
  · rename_i doc hdoc
    split
    · exact h
    · rename_i graph hgraph
      intro handle g hget
      simp only [Table.get?_insert] at hget
      split_ifs at hget with hnew
      · obtain rfl := Option.some.inj hget
        exact ⟨registry, doc, hgraph⟩
      · exact h handle g hget

theorem runs_load (e : Interpreter) (registry : Registry) (text : String) :
    (e.load registry text).2.runs = e.runs := by
  unfold load
  split
  · rfl
  · split <;> rfl

end Interpreter

end Blueprint

import Mathlib
import Blueprint.Proofs.Graph.Wiring

/-!
Which documents are loaded. `GraphDocument.WellFormed` says of a document what its format asks for,
without an index and without an order: ids differ, kinds and params are known, and whatever is named
exists. The checks find their way to the first fault one after another; together they pass exactly
the well formed documents (`Graph.exists_ofDocument_iff`). What is loaded then is the document as it
stands, with every node under its id and the entry found (`GraphDocument.Loads`).
-/

set_option autoImplicit false

namespace Blueprint

namespace GraphDocument

/-- A node of the document has this id. -/
def Names (doc : GraphDocument) (id : String) : Prop := ∃ node ∈ doc.nodes, node.id = id

/-- What the format asks of a document. -/
structure WellFormed (registry : Registry) (doc : GraphDocument) : Prop where
  ids_nodup : (doc.nodes.map (·.id)).Nodup
  kinds_known : ∀ node ∈ doc.nodes, ∃ kind,
    registry.get? node.kind = some kind ∧ kind.validate node.params = .ok ()
  links_lead : ∀ node ∈ doc.nodes, ∀ pin target, (pin, some target) ∈ node.links → doc.Names target
  origins_exist : ∀ node ∈ doc.nodes, ∀ pin origin output,
    (pin, .link origin output) ∈ node.inputs → doc.Names origin
  inputs_declared : ∀ node ∈ doc.nodes, ∀ pin name,
    (pin, .graphInput name) ∈ node.inputs → ∃ decl ∈ doc.inputs, decl.name = name
  entry_exists : ∀ id, doc.entry = some id → doc.Names id

/-- What a graph has from its document. -/
structure Loads (doc : GraphDocument) (g : Graph) : Prop where
  version_eq : g.version = doc.version
  inputs_eq : g.inputs = doc.inputs
  outputs_eq : g.outputs = doc.outputs
  nodes_eq : g.nodes = doc.nodes
  /-- The index tells places by ids, and nothing else. -/
  get?_index : ∀ id place, g.index.get? id = some place ↔
    ∃ node, doc.nodes[place]? = some node ∧ node.id = id
  node?_of_mem : ∀ node ∈ doc.nodes, g.node? node.id = some node
  entry_named : ∀ id, doc.entry = some id →
    ∃ node ∈ doc.nodes, node.id = id ∧ g.entryNode? = some node
  /-- Without an entry a run starts with the first node, or with none when there are no nodes. -/
  entry_first : doc.entry = none → g.entryNode? = doc.nodes.head?

end GraphDocument

namespace Graph

variable {registry : Registry} {doc : GraphDocument} {index : Table String Nat}
  {node : NodeDocument}

/-! ### Each check -/

theorem checkAll_eq_ok_iff {α : Type} {check : α → Except GraphFault Unit} {items : List α} :
    checkAll check items = .ok () ↔ ∀ item ∈ items, check item = .ok () := by
  constructor
  · exact fun h item hmem ↦ check_of_mem h hmem
  · intro h
    induction items with
    | nil => rfl
    | cons first rest ih =>
      obtain ⟨hfirst, hrest⟩ := List.forall_mem_cons.mp h
      rw [checkAll, hfirst]
      exact ih hrest

/-- Ids are told apart as they are met. -/
theorem exists_indexFrom_iff {nodes : List NodeDocument} {position : Nat} :
    (∃ full, indexFrom position index nodes = .ok full) ↔
      (nodes.map (·.id)).Nodup ∧ ∀ node ∈ nodes, index.contains node.id = false := by
  induction nodes generalizing position index with
  | nil => simp [indexFrom]
  | cons first rest ih =>
    rw [indexFrom, List.map_cons, List.nodup_cons, List.forall_mem_cons]
    by_cases hseen : index.contains first.id = true
    · simp [hseen]
    · rw [if_neg hseen, ih]
      have hnew (node : NodeDocument) :
          (index.insert first.id position).contains node.id = false ↔
            first.id ≠ node.id ∧ index.contains node.id = false := by
        by_cases hid : first.id = node.id <;> simp [Table.contains, hid]
      simp only [hnew, forall_and, Bool.not_eq_true, List.mem_map, not_exists, not_and] at hseen ⊢
      grind

theorem contains_iff {nodes : List NodeDocument} (h : indexFrom 0 {} nodes = .ok index)
    {id : String} : index.contains id = true ↔ ∃ node ∈ nodes, node.id = id := by
  constructor
  · intro hcontains
    obtain ⟨place, hplace⟩ := Option.isSome_iff_exists.mp hcontains
    rcases getElem_of_get?_indexFrom h hplace with hold | ⟨i, node, -, hnode, hid⟩
    · cases hold
    · exact ⟨node, List.mem_of_getElem? hnode, hid⟩
  · rintro ⟨node, hmem, rfl⟩
    obtain ⟨i, hnode⟩ := List.getElem?_of_mem hmem
    exact Option.isSome_iff_exists.mpr ⟨_, get?_of_getElem_indexFrom h hnode⟩

theorem checkKind_eq_ok_iff : checkKind registry node = .ok () ↔
    ∃ kind, registry.get? node.kind = some kind ∧ kind.validate node.params = .ok () := by
  unfold checkKind
  cases registry.get? node.kind with
  | none => simp
  | some kind => cases hparams : kind.validate node.params <;> simp [hparams]

theorem checkLink_eq_ok_iff {link : String × Option String} : checkLink index node link = .ok () ↔
    ∀ target, link.2 = some target → index.contains target = true := by
  unfold checkLink
  split
  · rename_i hnone
    simp [hnone]
  · rename_i target hsome
    by_cases hcontains : index.contains target = true <;> simp [hsome, hcontains]

theorem checkInput_eq_ok_iff {declared : List PinDecl} {input : String × InputSource} :
    checkInput index declared node input = .ok () ↔
      (∀ origin output, input.2 = .link origin output → index.contains origin = true) ∧
        ∀ name, input.2 = .graphInput name → ∃ decl ∈ declared, decl.name = name := by
  unfold checkInput
  split
  · rename_i origin output hlink
    by_cases hcontains : index.contains origin = true <;> simp [hlink, hcontains]
  · rename_i name hinput
    by_cases hdeclared : declared.any (·.name == name) = true
    · simp_all
    · simp_all
  · rename_i value hliteral
    simp [hliteral]

theorem checkNode_eq_ok_iff {declared : List PinDecl} :
    checkNode registry index declared node = .ok () ↔ checkKind registry node = .ok () ∧
      checkAll (checkLink index node) node.links = .ok () ∧
        checkAll (checkInput index declared node) node.inputs = .ok () := by
  unfold checkNode
  cases checkKind registry node with
  | error fault => simp [bind, Except.bind]
  | ok _ =>
    cases checkAll (checkLink index node) node.links with
    | error fault => simp [bind, Except.bind]
    | ok _ => simp [bind, Except.bind]

theorem checkEntry_eq_ok_iff {entry : Option String} : checkEntry index entry = .ok () ↔
    ∀ id, entry = some id → index.contains id = true := by
  unfold checkEntry
  cases entry with
  | none => simp
  | some id => by_cases hcontains : index.contains id = true <;> simp [hcontains]

/-! ### All of them -/

theorem exists_check_iff : (∃ index, check registry doc = .ok index) ↔
    ∃ index, indexFrom 0 {} doc.nodes = .ok index ∧
      checkAll (checkNode registry index doc.inputs) doc.nodes = .ok () ∧
      checkEntry index doc.entry = .ok () := by
  unfold check
  cases indexFrom 0 {} doc.nodes with
  | error fault => simp [bind, Except.bind]
  | ok index =>
    cases hnodes : checkAll (checkNode registry index doc.inputs) doc.nodes with
    | error fault => simp [hnodes, bind, Except.bind]
    | ok _ =>
      cases hentry : checkEntry index doc.entry with
      | error fault => simp [hnodes, hentry, bind, Except.bind]
      | ok _ => simp [hnodes, hentry, bind, Except.bind, pure, Except.pure]

theorem exists_ofDocument_iff_check : (∃ g, ofDocument registry doc = .ok g) ↔
    ∃ index, check registry doc = .ok index := by
  unfold ofDocument
  cases check registry doc with
  | error fault => simp [bind, Except.bind]
  | ok index => simp [bind, Except.bind, pure, Except.pure]

/-- Assumes: the index of the document's nodes. What is in it is what the document names. -/
theorem wellFormed_iff_of_index (hindex : indexFrom 0 {} doc.nodes = .ok index) :
    doc.WellFormed registry ↔ checkAll (checkNode registry index doc.inputs) doc.nodes = .ok () ∧
      checkEntry index doc.entry = .ok () := by
  have hnodup := (exists_indexFrom_iff.mp ⟨index, hindex⟩).1
  simp only [checkAll_eq_ok_iff, checkNode_eq_ok_iff, checkKind_eq_ok_iff, checkLink_eq_ok_iff,
    checkInput_eq_ok_iff, checkEntry_eq_ok_iff, contains_iff hindex]
  constructor
  · intro h
    refine ⟨fun node hmem ↦ ⟨h.kinds_known node hmem, ?_, ?_⟩, h.entry_exists⟩
    · rintro ⟨pin, _⟩ hlink target rfl
      exact h.links_lead node hmem pin target hlink
    · rintro ⟨pin, source⟩ hinput
      refine ⟨?_, ?_⟩
      · rintro origin output rfl
        exact h.origins_exist node hmem pin origin output hinput
      · rintro name rfl
        exact h.inputs_declared node hmem pin name hinput
  · rintro ⟨hnodes, hentry⟩
    refine ⟨hnodup, fun node hmem ↦ (hnodes node hmem).1, ?_, ?_, ?_, hentry⟩
    · exact fun node hmem pin target hlink ↦ (hnodes node hmem).2.1 _ hlink target rfl
    · exact fun node hmem pin origin output hinput ↦
        ((hnodes node hmem).2.2 _ hinput).1 origin output rfl
    · exact fun node hmem pin name hinput ↦ ((hnodes node hmem).2.2 _ hinput).2 name rfl

/-- A document is loaded exactly when it is well formed. -/
theorem exists_ofDocument_iff : (∃ g, ofDocument registry doc = .ok g) ↔ doc.WellFormed registry := by
  rw [exists_ofDocument_iff_check, exists_check_iff]
  constructor
  · rintro ⟨index, hindex, hchecks⟩
    exact (wellFormed_iff_of_index hindex).mpr hchecks
  · intro h
    obtain ⟨index, hindex⟩ : ∃ index, indexFrom 0 {} doc.nodes = .ok index :=
      exists_indexFrom_iff.mpr ⟨h.ids_nodup, fun _ _ ↦ rfl⟩
    exact ⟨index, hindex, (wellFormed_iff_of_index hindex).mp h⟩

/-- A graph is its document, with an index and the place of its entry. -/
theorem loads_of_ofDocument {g : Graph} (h : ofDocument registry doc = .ok g) : doc.Loads g := by
  obtain ⟨index, hindex, -, hentry, rfl⟩ := ofDocument_eq_ok h
  have hget (id : String) (place : Nat) : index.get? id = some place ↔
      ∃ node, doc.nodes[place]? = some node ∧ node.id = id := by
    constructor
    · intro hplace
      rcases getElem_of_get?_indexFrom hindex hplace with hold | ⟨i, node, rfl, hnode, hid⟩
      · cases hold
      · exact ⟨node, by rwa [Nat.zero_add], hid⟩
    · rintro ⟨node, hnode, rfl⟩
      simpa using get?_of_getElem_indexFrom hindex hnode
  refine ⟨rfl, rfl, rfl, rfl, hget, ?_, ?_, ?_⟩
  · intro node hmem
    obtain ⟨place, hnode⟩ := List.getElem?_of_mem hmem
    exact Option.bind_eq_some_iff.mpr ⟨place, (hget _ _).mpr ⟨node, hnode, rfl⟩, hnode⟩
  · intro id hid
    have hknown := checkEntry_eq_ok_iff.mp hentry id hid
    obtain ⟨place, hplace⟩ := Option.isSome_iff_exists.mp hknown
    obtain ⟨node, hnode, hname⟩ := (hget id place).mp hplace
    refine ⟨node, List.mem_of_getElem? hnode, hname, ?_⟩
    simp only [entryNode?, entryOf, hid, hplace, Option.bind_some, hnode]
  · intro hnone
    cases hnodes : doc.nodes with
    | nil => simp [entryNode?, entryOf, hnone, hnodes]
    | cons first rest => simp [entryNode?, entryOf, hnone, hnodes]

end Graph

namespace Interpreter

theorem exists_load_iff {registry : Registry} {text : String} {doc : GraphDocument}
    (hdoc : GraphDocument.ofText text = .ok doc) {e : Interpreter} :
    (∃ handle, (e.load registry text).1 = .ok handle) ↔ doc.WellFormed registry := by
  rw [← Graph.exists_ofDocument_iff]
  cases hgraph : Graph.ofDocument registry doc <;> simp [load, hdoc, hgraph]

/-- Loading accepts exactly the well formed documents. What it stores under the handle it answers is
the graph of the document. -/
theorem loads_iff_wellFormed {text : String} {doc : GraphDocument}
    (hdoc : GraphDocument.ofText text = .ok doc) (registry : Registry) (e : Interpreter) :
    ((∃ handle, (e.load registry text).1 = .ok handle) ↔ doc.WellFormed registry) ∧
      ∀ handle, (e.load registry text).1 = .ok handle →
        ∃ g, (e.load registry text).2.graphs.get? handle = some g ∧ doc.Loads g := by
  refine ⟨exists_load_iff hdoc, fun handle hhandle ↦ ?_⟩
  cases hgraph : Graph.ofDocument registry doc with
  | error fault => simp [load, hdoc, hgraph] at hhandle
  | ok g =>
    refine ⟨g, ?_, Graph.loads_of_ofDocument hgraph⟩
    simp only [load, hdoc, hgraph, Except.ok.injEq] at hhandle ⊢
    rw [hhandle, Table.get?_insert_self]

/-- A document whose run starts with its second node. -/
theorem loads_iff_wellFormed_of_entered :
    let text := "\x7b\"entry\":\"b\",\"nodes\":[\x7b\"id\":\"a\",\"kind\":\"log\"\x7d," ++
      "\x7b\"id\":\"b\",\"kind\":\"log\",\"links\":\x7b\"then\":\"a\"\x7d\x7d]\x7d"
    let doc : GraphDocument := {
      entry := some "b"
      nodes := [
        { id := "a", kind := "log" },
        { id := "b", kind := "log", links := [("then", some "a")] }] }
    GraphDocument.ofText text = .ok doc ∧ doc.WellFormed .standard ∧
      ∃ g, (({} : Interpreter).load .standard text).2.graphs.get? 1 = some g ∧ doc.Loads g := by
  intro text doc
  have hdoc : GraphDocument.ofText text = .ok doc := by cbv
  have haccepted : (({} : Interpreter).load .standard text).1 = .ok 1 := by
    simp only [load, hdoc]
    rfl
  obtain ⟨hiff, hstored⟩ := loads_iff_wellFormed hdoc .standard {}
  exact ⟨hdoc, hiff.mp ⟨1, haccepted⟩, hstored 1 haccepted⟩

end Interpreter

end Blueprint

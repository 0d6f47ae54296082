import Blueprint.Proofs.Graph.WellFormed
import Blueprint.Proofs.Graph.Written
import Blueprint.Proofs.Interpreter.Starting

/-!
Literal inputs. A literal asks nothing of a document, so the document is accepted with it exactly
when it is accepted without it (`GraphDocument.wellFormed_without_iff`). Whenever its node is started
the pin is bound to the value of the literal and to nothing else, whatever the other pins hold and
whatever the run was given, in any order of the inputs.

Which written values are literals is not quite what the format says. A record of one field may be
written as an array, so a text alone in an array counts as a graph input, and a pair of texts alone
in an array as a link (`GraphDocument.takesLiteral_iff`).
-/

set_option autoImplicit false

namespace Blueprint

/-- A node asks for no more than another: it is of the same kind with the same params and links, and
its inputs that are not literals are among the other's. -/
structure NodeDocument.Within (node other : NodeDocument) : Prop where
  kind_eq : node.kind = other.kind
  params_eq : node.params = other.params
  links_eq : node.links = other.links
  mem_inputs : ∀ pin source, (pin, source) ∈ node.inputs → (∀ json, source ≠ .literal json) →
    (pin, source) ∈ other.inputs

namespace GraphDocument

variable {registry : Registry} {doc other : GraphDocument} {place : Nat} {node : NodeDocument}
  {pin : String} {value : Json}

theorem names_iff {id : String} : doc.Names id ↔ id ∈ doc.nodes.map (·.id) :=
  List.mem_map.symm

/-- A document is well formed if each of its nodes asks for no more than one of a well formed
document does, and the rest is the same. -/
theorem WellFormed.of_within (h : other.WellFormed registry)
    (hids : doc.nodes.map (·.id) = other.nodes.map (·.id)) (hinputs : doc.inputs = other.inputs)
    (hentry : doc.entry = other.entry)
    (hnodes : ∀ node ∈ doc.nodes, ∃ larger ∈ other.nodes, node.Within larger) :
    doc.WellFormed registry := by
  have hnames {id : String} (hname : other.Names id) : doc.Names id := by
    rw [names_iff, hids]
    exact names_iff.mp hname
  refine ⟨hids ▸ h.ids_nodup, ?_, ?_, ?_, ?_, fun id hid ↦ hnames (h.entry_exists id (hentry ▸ hid))⟩
  · intro node hmem
    obtain ⟨larger, hlarger, hwithin⟩ := hnodes node hmem
    rw [hwithin.kind_eq, hwithin.params_eq]
    exact h.kinds_known larger hlarger
  · intro node hmem pin target hlink
    obtain ⟨larger, hlarger, hwithin⟩ := hnodes node hmem
    exact hnames (h.links_lead larger hlarger pin target (hwithin.links_eq ▸ hlink))
  · intro node hmem pin origin output hinput
    obtain ⟨larger, hlarger, hwithin⟩ := hnodes node hmem
    exact hnames (h.origins_exist larger hlarger pin origin output
      (hwithin.mem_inputs _ _ hinput fun _ ↦ InputSource.noConfusion))
  · intro node hmem pin name hinput
    obtain ⟨larger, hlarger, hwithin⟩ := hnodes node hmem
    rw [hinputs]
    exact h.inputs_declared larger hlarger pin name
      (hwithin.mem_inputs _ _ hinput fun _ ↦ InputSource.noConfusion)

/-- The document without an input of the node at a place. -/
def without (doc : GraphDocument) (place : Nat) (pin : String) : GraphDocument :=
  { doc with
    nodes := doc.nodes.modify place fun node ↦ { node with inputs := Table.drop pin node.inputs } }

theorem getElem?_without (doc : GraphDocument) (place : Nat) (pin : String) (i : Nat) :
    (doc.without place pin).nodes[i]? = doc.nodes[i]?.map fun node ↦
      if place = i then { node with inputs := Table.drop pin node.inputs } else node :=
  List.getElem?_modify ..

theorem ids_without (doc : GraphDocument) (place : Nat) (pin : String) :
    (doc.without place pin).nodes.map (·.id) = doc.nodes.map (·.id) := by
  refine List.ext_getElem? fun i ↦ ?_
  rw [List.getElem?_map, List.getElem?_map, getElem?_without, Option.map_map]
  congr 1
  funext node
  by_cases hplace : place = i <;> simp [hplace]

theorem mem_drop_iff {entries : List (String × InputSource)} {name : String} {source : InputSource} :
    (name, source) ∈ Table.drop pin entries ↔ (name, source) ∈ entries ∧ name ≠ pin := by
  simp [Table.drop]

/-- Assumes: inputs by distinct pins, one of which is a literal. Nothing is asked for by it. -/
theorem wellFormed_without_iff (hnode : doc.nodes[place]? = some node)
    (hpins : (node.inputs.map (·.1)).Nodup)
    (hliteral : Table.find pin node.inputs = some (.literal value)) :
    (doc.without place pin).WellFormed registry ↔ doc.WellFormed registry := by
  have hids := doc.ids_without place pin
  constructor
  · refine fun h ↦ h.of_within hids.symm rfl rfl fun larger hmem ↦ ?_
    obtain ⟨i, hi⟩ := List.getElem?_of_mem hmem
    refine ⟨_, List.mem_of_getElem? (by rw [getElem?_without, hi]; rfl), ?_⟩
    dsimp only
    by_cases hplace : place = i
    · subst hplace
      obtain rfl := Option.some.inj (hi.symm.trans hnode)
      rw [if_pos rfl]
      refine ⟨rfl, rfl, rfl, fun name source hinput hother ↦ mem_drop_iff.mpr ⟨hinput, ?_⟩⟩
      rintro rfl
      have hfound := Table.Distinct.get?_of_mem (t := ⟨larger.inputs⟩) hpins hinput
      exact hother value (Option.some.inj (hfound.symm.trans hliteral))
    · rw [if_neg hplace]
      exact ⟨rfl, rfl, rfl, fun name source hinput _ ↦ hinput⟩
  · refine fun h ↦ h.of_within hids rfl rfl fun smaller hmem ↦ ?_
    obtain ⟨i, hi⟩ := List.getElem?_of_mem hmem
    rw [getElem?_without] at hi
    obtain ⟨larger, hlarger, rfl⟩ := Option.map_eq_some_iff.mp hi
    refine ⟨larger, List.mem_of_getElem? hlarger, ?_⟩
    split_ifs
    · exact ⟨rfl, rfl, rfl, fun name source hinput _ ↦ (mem_drop_iff.mp hinput).1⟩
    · exact ⟨rfl, rfl, rfl, fun name source hinput _ ↦ hinput⟩

/-! ### What it is to be a literal -/

/-- An input of a node is bound to one value: some callbacks bind it, to that value only, and the
pin holds it afterwards. -/
structure BindsOnly (node pin : String) (value : Value) (view : Bindings) (told : List Callback) :
    Prop where
  bind_iff : ∀ other, .bind node pin other ∈ told ↔ other = value
  held : (view.held told).get? (node, pin) = some value

/-- An input of the node at a place of a document is a literal of a value. -/
structure TakesLiteral (text : String) (doc : GraphDocument) (place : Nat) (node : NodeDocument)
    (pin : String) (value : Json) : Prop where
  taken : Table.find pin node.inputs = some (.literal value)
  /-- Loading succeeds exactly when it would without the input. -/
  harmless : ∀ (registry : Registry) (e : Interpreter),
    (∃ handle, (e.load registry text).1 = .ok handle) ↔
      (doc.without place pin).WellFormed registry
  /-- Whatever the run was given, whatever pins hold, and in any order of the inputs. -/
  started : ∀ inputs view scope order, order.Perm node.inputs →
    BindsOnly node.id pin (.ofJson value) view
      (Interpreter.startNode inputs view { node with inputs := order } scope)
  /-- Whatever has happened before, whenever a call on a run of the document invokes the node. -/
  invoked : ∀ moments call run active invoked,
    call.run? = some run →
      .invoke invoked ∈ (({} : Session).after moments).callbacks call → invoked.node = node.id →
      ((({} : Session).after moments).step call).2.interpreter.runs.get? run = some active →
      doc.Loads active.graph →
      BindsOnly node.id pin (.ofJson value) ((({} : Session).after moments).host run).bindings
        ((({} : Session).after moments).callbacks call)

theorem bindsOnly_startNode {order : List (String × InputSource)}
    (hpins : (order.map (·.1)).Nodup) (hliteral : (pin, .literal value) ∈ order)
    (node : NodeDocument) (inputs : Inputs) (view : Bindings) (scope : Nat) :
    BindsOnly node.id pin (.ofJson value) view
      (Interpreter.startNode inputs view { node with inputs := order } scope) where
  bind_iff other := Interpreter.mem_startNode_bind.trans (Interpreter.bind_literal_iff hpins hliteral)
  held := by
    rw [Interpreter.held_startNode]
    exact Interpreter.get?_held_of_literal hpins hliteral

/-- Assumes: a written value that is neither a link nor a graph input. It is a literal unless it is
a pair or a text alone in an array. -/
theorem takesLiteral_iff {text : String} (hdoc : ofText text = .ok doc)
    (hnode : doc.nodes[place]? = some node) {source : Source}
    (hwritten : (SourceText.ofString text).root.writtenInput place pin = some source)
    (hvalue : source.inputJson = .ok value) (hlink : ¬ value.IsLink)
    (hinput : ¬ value.IsGraphInput) :
    TakesLiteral text doc place node pin value ↔ ¬ value.IsLonePair ∧ ¬ value.IsLoneText := by
  have htakes := takes_of_ofText hdoc hnode
  have hfind : Table.find pin node.inputs = some (.ofSource source value) := by
    obtain ⟨found, hfound, hfind⟩ := htakes.written pin source hwritten
    obtain rfl := Except.ok.inj (hfound.symm.trans hvalue)
    exact hfind
  rw [← InputSource.ofSource_eq_literal_iff hvalue hlink hinput]
  refine ⟨fun h ↦ Option.some.inj (hfind.symm.trans h.taken), fun hliteral ↦ ?_⟩
  rw [hliteral] at hfind
  have hmem : (pin, .literal value) ∈ node.inputs :=
    Table.mem_of_get? (t := ⟨node.inputs⟩) hfind
  refine ⟨hfind, fun registry e ↦ ?_, fun inputs view scope order horder ↦ ?_, ?_⟩
  · rw [wellFormed_without_iff hnode htakes.pins_nodup hfind]
    exact Interpreter.exists_load_iff hdoc
  · exact bindsOnly_startNode (((horder.map _).nodup_iff).mpr htakes.pins_nodup)
      (horder.mem_iff.mpr hmem) node inputs view scope
  · intro moments call run active invoked hrun hinvoke hid hactive hloads
    obtain ⟨other, found, started, hstarts, hname⟩ :=
      Session.starts_of_invoke (Session.kept_after moments) hinvoke
    obtain rfl := Option.some.inj (hrun.symm.trans hstarts.run_eq)
    obtain rfl := Option.some.inj (hactive.symm.trans hstarts.active_eq)
    -- Ids differ in a loaded document, so the node that is started is this one.
    have hsame : started = node := by
      have hstarted := hloads.node?_of_mem started (hloads.nodes_eq ▸ hstarts.mem_nodes)
      have hown := hloads.node?_of_mem node (List.mem_of_getElem? hnode)
      rw [← hname, hid, hown] at hstarted
      exact (Option.some.inj hstarted).symm
    subst hsame
    rw [hstarts.callbacks_eq]
    have hbinds := bindsOnly_startNode htakes.pins_nodup hmem started active.inputs
      ((({} : Session).after moments).host run).bindings invoked.scope
    refine ⟨fun value ↦ by simpa using hbinds.bind_iff value, ?_⟩
    rw [Bindings.held_cons]
    exact hbinds.held

/-- Two texts in an array are a literal. -/
theorem takesLiteral_of_two_texts :
    let text := "\x7b\"nodes\":[\x7b\"id\":\"a\",\"kind\":\"log\"," ++
      "\"inputs\":\x7b\"message\":[\"skin\",\"cape\"]\x7d\x7d]\x7d"
    let value := Json.array [.string "skin", .string "cape"]
    let node : NodeDocument := { id := "a", kind := "log", inputs := [("message", .literal value)] }
    ofText text = .ok { nodes := [node] } ∧
      TakesLiteral text { nodes := [node] } 0 node "message" value := by
  intro text value node
  have hdoc : ofText text = .ok { nodes := [node] } := by cbv
  have hwritten : (SourceText.ofString text).root.writtenInput 0 "message" =
      some (.array [.string (some "skin"), .string (some "cape")] true) := by cbv
  refine ⟨hdoc, (takesLiteral_iff hdoc rfl hwritten rfl ?_ ?_).mpr ⟨?_, ?_⟩⟩
  · simp [Json.IsLink]
  · simp [Json.IsGraphInput]
  · simp [Json.IsLonePair]
  · simp [Json.IsLoneText]

/-- A text alone in an array is neither a link nor a graph input as they are documented, and no
literal either: it stops its document from being loaded. -/
theorem not_takesLiteral_of_lone_text :
    let text := "\x7b\"nodes\":[\x7b\"id\":\"a\",\"kind\":\"log\"," ++
      "\"inputs\":\x7b\"message\":[\"skin\"]\x7d\x7d]\x7d"
    let value := Json.array [.string "skin"]
    let node : NodeDocument :=
      { id := "a", kind := "log", inputs := [("message", .graphInput "skin")] }
    ofText text = .ok { nodes := [node] } ∧
      (SourceText.ofString text).root.writtenInput 0 "message" =
        some (.array [.string (some "skin")] true) ∧
      (Source.array [.string (some "skin")] true).inputJson = .ok value ∧
      ¬ value.IsLink ∧ ¬ value.IsGraphInput ∧
      (({} : Interpreter).load .standard text).1 =
        .error (.load "input 'message' of node 'a' reads undeclared graph input 'skin'") ∧
      ¬ TakesLiteral text { nodes := [node] } 0 node "message" value := by
  intro text value node
  have hdoc : ofText text = .ok { nodes := [node] } := by cbv
  refine ⟨hdoc, by cbv, rfl, ?_, ?_, ?_, fun h ↦ ?_⟩
  · simp [Json.IsLink, value]
  · simp [Json.IsGraphInput, value]
  · simp only [Interpreter.load, hdoc]
    rfl
  · exact InputSource.noConfusion (Option.some.inj h.taken)

end GraphDocument

end Blueprint

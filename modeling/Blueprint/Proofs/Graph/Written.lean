import Blueprint.Graph.Document
import Blueprint.Proofs.Json.Records
import Blueprint.Proofs.Json.Values

/-!
The data inputs of a node as they are written. `Source.writtenInput` finds in the tree of a document
what stands there as an input of the node at a place. A document has, under each pin, the source
that this is taken for, and no pin twice (`GraphDocument.takes_of_ofText`). What is neither a link nor a
graph input is taken for a literal, but for two forms: a text alone in an array is taken for a graph
input, and a pair of texts alone in an array for a link (`InputSource.ofSource_eq_literal_iff`).

Four brackets are open around what is written as an input, of the document, the nodes, the node and
its inputs.
-/

set_option autoImplicit false

namespace Blueprint

namespace Source

/-- What is written as an input of the node at a place. -/
def writtenInput (place : Nat) (pin : String) (root : Source) : Option Source :=
  (root.fieldAt "nodes" 4).bind fun nodes ↦
    (nodes.itemAt place).bind fun node ↦
      (node.fieldAt "inputs" 3).bind (memberAt pin)

/-- The value of what is written as an input. -/
def inputJson (source : Source) : Reading Json := source.toJson (depthLimit - 4)

end Source

namespace NodeDocument

theorem decides_inputs :
    Source.Decides fields "inputs" 3 inputs (Source.readTable InputSource.read) := by
  refine ⟨rfl, by decide, ?_, ?_⟩
  · intro field hfield hname depth source before node hstore
    simp only [fields, List.mem_cons, List.not_mem_nil, or_false] at hfield
    rcases hfield with rfl | rfl | rfl | rfl | rfl
    case inr.inr.inr.inl =>
      obtain ⟨found, hread, hnode⟩ := Reading.bind_eq_ok_iff.mp hstore
      rw [hread, ← Except.ok.inj hnode]
    all_goals exact absurd hname (by decide)
  · intro field hfield hname depth source before node hstore
    simp only [fields, List.mem_cons, List.not_mem_nil, or_false] at hfield
    rcases hfield with rfl | rfl | rfl | rfl | rfl
    case inr.inr.inr.inl => exact absurd rfl hname
    all_goals
      obtain ⟨_, -, hnode⟩ := Reading.bind_eq_ok_iff.mp hstore
      rw [← Except.ok.inj hnode]

end NodeDocument

namespace GraphDocument

theorem decides_nodes :
    Source.Decides fields "nodes" 4 nodes (Source.readList NodeDocument.read) := by
  refine ⟨rfl, by decide, ?_, ?_⟩
  · intro field hfield hname depth source before doc hstore
    simp only [fields, List.mem_cons, List.not_mem_nil, or_false] at hfield
    rcases hfield with rfl | rfl | rfl | rfl | rfl
    case inr.inr.inr.inr =>
      obtain ⟨found, hread, hdoc⟩ := Reading.bind_eq_ok_iff.mp hstore
      rw [hread, ← Except.ok.inj hdoc]
    all_goals exact absurd hname (by decide)
  · intro field hfield hname depth source before doc hstore
    simp only [fields, List.mem_cons, List.not_mem_nil, or_false] at hfield
    rcases hfield with rfl | rfl | rfl | rfl | rfl
    case inr.inr.inr.inr => exact absurd rfl hname
    all_goals
      obtain ⟨_, -, hdoc⟩ := Reading.bind_eq_ok_iff.mp hstore
      rw [← Except.ok.inj hdoc]

/-- What a node of a document takes as its inputs, from what is written there. -/
structure Takes (root : Source) (place : Nat) (node : NodeDocument) : Prop where
  pins_nodup : (node.inputs.map (·.1)).Nodup
  written : ∀ pin source, root.writtenInput place pin = some source →
    ∃ value, source.inputJson = .ok value ∧
      Table.find pin node.inputs = some (.ofSource source value)
  unwritten : ∀ pin, root.writtenInput place pin = none → Table.find pin node.inputs = none

theorem takes_of_ofText {text : String} {doc : GraphDocument} (h : ofText text = .ok doc)
    {place : Nat} {node : NodeDocument} (hnode : doc.nodes[place]? = some node) :
    Takes (SourceText.ofString text).root place node := by
  have hroot : (SourceText.ofString text).root.readRecord "GraphDocument" fields {}
      Source.depthLimit = .ok doc := SourceText.read_of_decode h
  generalize (SourceText.ofString text).root = root at hroot
  obtain ⟨-, hempty⟩ | ⟨nodes, hnodes, hlist⟩ := decides_nodes.of_record hroot
  · rw [hempty] at hnode
    simp at hnode
  obtain ⟨item, hitem, hread⟩ := Source.itemAt_of_readList hlist hnode
  obtain ⟨hnone, hempty⟩ | ⟨inputs, hinputs, htable⟩ :=
    NodeDocument.decides_inputs.of_record hread
  · have hwritten (pin : String) : root.writtenInput place pin = none := by
      simp [Source.writtenInput, hnodes, hitem, hnone]
    have hinputs : node.inputs = [] := hempty
    refine ⟨by simp [hinputs], fun pin source h ↦ by simp [hwritten] at h, fun pin _ ↦ ?_⟩
    rw [hinputs]
    rfl
  · obtain ⟨hpins, hfind⟩ := Source.readTable_eq_ok htable
    have hwritten (pin : String) : root.writtenInput place pin = inputs.memberAt pin := by
      simp [Source.writtenInput, hnodes, hitem, hinputs]
    refine ⟨hpins, ?_, ?_⟩
    · intro pin source hsource
      rw [hwritten] at hsource
      obtain ⟨member, taken, hmember, hvalue, htaken⟩ | ⟨hnone, -⟩ := hfind pin
      · obtain rfl := Option.some.inj (hmember.symm.trans hsource)
        obtain ⟨value, hjson, htakes⟩ := Reading.bind_eq_ok_iff.mp hvalue
        exact ⟨value, hjson, htaken.trans (congrArg some (Except.ok.inj htakes).symm)⟩
      · cases hnone.symm.trans hsource
    · intro pin hsource
      rw [hwritten] at hsource
      obtain ⟨member, taken, hmember, -⟩ | ⟨-, hfound⟩ := hfind pin
      · cases hmember.symm.trans hsource
      · exact hfound

end GraphDocument

/-! ### The forms of a source -/

namespace Json

/-- A link: an object that has a pair of texts under `link` and nothing else. -/
def IsLink (value : Json) : Prop :=
  ∃ node pin, value = .object [("link", .array [.string node, .string pin])]

/-- An input of the graph: an object that has a text under `graph_input` and nothing else. -/
def IsGraphInput (value : Json) : Prop := ∃ name, value = .object [("graph_input", .string name)]

/-- A pair of texts alone in an array. -/
def IsLonePair (value : Json) : Prop := ∃ node pin, value = .array [.array [.string node, .string pin]]

/-- A text alone in an array. -/
def IsLoneText (value : Json) : Prop := ∃ name, value = .array [.string name]

end Json

namespace Source

variable {depth : Nat} {source : Source} {value : Json}

theorem eq_string_of_toJson {text : String} (h : source.toJson depth = .ok (.string text)) :
    source = .string (some text) := by
  cases source with
  | array items closed =>
    obtain ⟨_, _, -, -, -, heq⟩ := toJson_array_eq_ok.mp h
    cases heq
  | object members closed =>
    obtain ⟨_, _, -, -, -, heq⟩ := toJson_object_eq_ok.mp h
    cases heq
  | null | bool b | broken => cases h
  | number n => cases n <;> cases h
  | string s => cases s <;> cases h; rfl

theorem eq_array_of_toJson {values : List Json} (h : source.toJson depth = .ok (.array values)) :
    ∃ items inner, source = .array items true ∧ itemsToJson inner items = .ok values := by
  cases source with
  | array items closed =>
    obtain ⟨inner, found, -, hfound, rfl, heq⟩ := toJson_array_eq_ok.mp h
    exact ⟨items, inner, rfl, Json.array.inj heq ▸ hfound⟩
  | object members closed =>
    obtain ⟨_, _, -, -, -, heq⟩ := toJson_object_eq_ok.mp h
    cases heq
  | null | bool b | broken => cases h
  | number n => cases n <;> cases h
  | string s => cases s <;> cases h

theorem itemsToJson_cons {items : List Source} {values : List Json}
    (h : itemsToJson depth items = .ok (value :: values)) : ∃ item rest, items = item :: rest ∧
      item.toJson depth = .ok value ∧ itemsToJson depth rest = .ok values := by
  cases items with
  | nil => cases h
  | cons item rest =>
    obtain ⟨found, more, hfound, hmore, heq⟩ := itemsToJson_eq_ok.mp h
    cases heq
    exact ⟨item, rest, rfl, hfound, hmore⟩

theorem itemsToJson_nil {items : List Source} (h : itemsToJson depth items = .ok []) :
    items = [] := by
  cases items with
  | nil => rfl
  | cons item rest =>
    obtain ⟨_, _, -, -, heq⟩ := itemsToJson_eq_ok.mp h
    cases heq

/-- An array of one value is written as an array of one item. -/
theorem eq_lone_of_toJson (h : source.toJson depth = .ok (.array [value])) :
    ∃ item inner, source = .array [item] true ∧ item.toJson inner = .ok value := by
  obtain ⟨items, inner, rfl, hitems⟩ := eq_array_of_toJson h
  obtain ⟨item, rest, rfl, hitem, hrest⟩ := itemsToJson_cons hitems
  obtain rfl := itemsToJson_nil hrest
  exact ⟨item, inner, rfl, hitem⟩

end Source

namespace InputSource

variable {depth : Nat} {source : Source} {value : Json}

theorem text?_eq_some_iff (hvalue : source.toJson depth = .ok value) {text : String} :
    text? source = some text ↔ value = .string text := by
  constructor
  · intro h
    unfold text? at h
    split at h
    · rw [← Option.some.inj h]
      exact (Except.ok.inj hvalue).symm
    · cases h
  · rintro rfl
    rw [Source.eq_string_of_toJson hvalue]
    rfl

theorem pair?_eq_some_iff (hvalue : source.toJson depth = .ok value) {first second : String} :
    pair? source = some (first, second) ↔ value = .array [.string first, .string second] := by
  constructor
  · intro h
    unfold pair? at h
    split at h
    · cases h
      obtain ⟨inner, values, -, hitems, -, rfl⟩ := Source.toJson_array_eq_ok.mp hvalue
      exact congrArg Json.array (Except.ok.inj hitems).symm
    · cases h
  · rintro rfl
    obtain ⟨items, inner, rfl, hitems⟩ := Source.eq_array_of_toJson hvalue
    obtain ⟨one, rest, rfl, hone, hrest⟩ := Source.itemsToJson_cons hitems
    obtain ⟨two, rest, rfl, htwo, hrest⟩ := Source.itemsToJson_cons hrest
    rw [Source.eq_string_of_toJson hone, Source.eq_string_of_toJson htwo,
      Source.itemsToJson_nil hrest]
    rfl

/-- What a record of one field holds is the value of an object's only member, by that field's name,
or of an array's only item. -/
theorem only?_cases (hvalue : source.toJson depth = .ok value) {name : String} {found : Source}
    (h : only? name source = some found) : ∃ inner json, found.toJson inner = .ok json ∧
      (value = .object [(name, json)] ∨ value = .array [json]) := by
  unfold only? at h
  split at h
  · split at h
    · rename_i hkey
      obtain rfl := Option.some.inj h
      obtain ⟨inner, members, -, hmembers, -, rfl⟩ := Source.toJson_object_eq_ok.mp hvalue
      obtain ⟨_, json, more, hname, hjson, hmore, rfl⟩ := Source.membersToJson_eq_ok.mp hmembers
      obtain rfl := Except.ok.inj hmore
      obtain rfl := Option.some.inj hname
      exact ⟨inner, json, hjson, Or.inl (hkey ▸ rfl)⟩
    · cases h
  · obtain rfl := Option.some.inj h
    obtain ⟨inner, values, -, hitems, -, rfl⟩ := Source.toJson_array_eq_ok.mp hvalue
    obtain ⟨json, more, hjson, hmore, rfl⟩ := Source.itemsToJson_eq_ok.mp hitems
    obtain rfl := Except.ok.inj hmore
    exact ⟨inner, json, hjson, Or.inr rfl⟩
  · cases h

/-- What is taken for a link is a link or a pair alone. -/
theorem isLink_or_isLonePair (hvalue : source.toJson depth = .ok value) {pair : String × String}
    (h : (only? "link" source).bind pair? = some pair) : value.IsLink ∨ value.IsLonePair := by
  obtain ⟨found, hfound, hpair⟩ := Option.bind_eq_some_iff.mp h
  obtain ⟨inner, json, hjson, hforms⟩ := only?_cases hvalue hfound
  obtain rfl := (pair?_eq_some_iff hjson).mp hpair
  exact hforms.imp (fun heq ↦ ⟨_, _, heq⟩) fun heq ↦ ⟨_, _, heq⟩

/-- What is taken for a graph input is a graph input or a text alone. -/
theorem isGraphInput_or_isLoneText (hvalue : source.toJson depth = .ok value) {text : String}
    (h : (only? "graph_input" source).bind text? = some text) :
    value.IsGraphInput ∨ value.IsLoneText := by
  obtain ⟨found, hfound, htext⟩ := Option.bind_eq_some_iff.mp h
  obtain ⟨inner, json, hjson, hforms⟩ := only?_cases hvalue hfound
  obtain rfl := (text?_eq_some_iff hjson).mp htext
  exact hforms.imp (fun heq ↦ ⟨_, heq⟩) fun heq ↦ ⟨_, heq⟩

theorem ofSource_of_lonePair (hvalue : source.toJson depth = .ok value) (h : value.IsLonePair) :
    ∃ node pin, ofSource source value = .link node pin := by
  obtain ⟨node, pin, rfl⟩ := h
  obtain ⟨item, inner, rfl, hitem⟩ := Source.eq_lone_of_toJson hvalue
  have hpair : pair? item = some (node, pin) := (pair?_eq_some_iff hitem).mpr rfl
  exact ⟨node, pin, by simp [ofSource, only?, hpair]⟩

theorem ofSource_of_loneText (hvalue : source.toJson depth = .ok value) (h : value.IsLoneText) :
    ∃ name, ofSource source value = .graphInput name := by
  obtain ⟨name, rfl⟩ := h
  obtain ⟨item, inner, rfl, hitem⟩ := Source.eq_lone_of_toJson hvalue
  obtain rfl := Source.eq_string_of_toJson hitem
  exact ⟨name, by simp [ofSource, only?, pair?, text?]⟩

/-- Assumes: neither a link nor a graph input. It is a literal unless it is a pair or a text alone. -/
theorem ofSource_eq_literal_iff (hvalue : source.toJson depth = .ok value) (hlink : ¬ value.IsLink)
    (hinput : ¬ value.IsGraphInput) :
    ofSource source value = .literal value ↔ ¬ value.IsLonePair ∧ ¬ value.IsLoneText := by
  constructor
  · refine fun h ↦ ⟨fun hpair ↦ ?_, fun htext ↦ ?_⟩
    · obtain ⟨node, pin, hsource⟩ := ofSource_of_lonePair hvalue hpair
      cases h.symm.trans hsource
    · obtain ⟨name, hsource⟩ := ofSource_of_loneText hvalue htext
      cases h.symm.trans hsource
  · rintro ⟨hpair, htext⟩
    unfold ofSource
    split
    · rename_i hfound
      exact absurd (isLink_or_isLonePair hvalue hfound) (not_or.mpr ⟨hlink, hpair⟩)
    · split
      · rename_i hfound
        exact absurd (isGraphInput_or_isLoneText hvalue hfound) (not_or.mpr ⟨hinput, htext⟩)
      · rfl

end InputSource

end Blueprint

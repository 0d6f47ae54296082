import Blueprint.Proofs.Graph.WellFormed
import Blueprint.Proofs.Graph.Written
import Blueprint.Proofs.Interpreter.Starting

/-!
The order of a node's inputs. The inputs of a node are a table without an order of its own. Binding
one writes a pin of the node itself, which another input may read by a link; then it matters which of
the two is visited first. Without such a link every input finds the value it would have found at the
start (`Interpreter.bindInputs_eq_of_not_readsOwnInputs`), and the order does not matter. With one it
does, for some run (`Graph.orderFree_iff`).
-/

set_option autoImplicit false

namespace Blueprint

/-- An input of the node is linked to another of its inputs, and that one takes its value from
elsewhere. -/
def NodeDocument.ReadsOwnInputs (node : NodeDocument) : Prop :=
  ∃ reader pin source, (reader, .link node.id pin) ∈ node.inputs ∧ reader ≠ pin ∧
    (pin, source) ∈ node.inputs ∧ source ≠ .link node.id pin

/-- Some callbacks bind a node's pins the same as others do, and leave the pins of the host the
same. -/
structure BindAlike (node : String) (view : Bindings) (told other : List Callback) : Prop where
  bind_iff : ∀ pin value, .bind node pin value ∈ told ↔ .bind node pin value ∈ other
  held : ∀ pin, (view.held told).get? pin = (view.held other).get? pin

/-- Whatever the run was given and the host's pins hold, any two orders of the inputs lead to the
same invocation. -/
def NodeDocument.OrderFree (node : NodeDocument) : Prop :=
  ∀ inputs view scope first second, first.Perm node.inputs → second.Perm node.inputs →
    BindAlike node.id view
      (Interpreter.startNode inputs view { node with inputs := first } scope)
      (Interpreter.startNode inputs view { node with inputs := second } scope)

namespace Interpreter

variable {node : NodeDocument} {inputs : Inputs} {view now : Bindings}
  {order : List (String × InputSource)}

/-- The binding of an input whose source has a value. -/
def bindingOf (node : String) (inputs : Inputs) (view : Bindings) (input : String × InputSource) :
    Option Callback :=
  (inputValue inputs view input.2).map (.bind node input.1)

/-- What a source has is changed by a binding only if it is linked to the pin that is bound. -/
theorem inputValue_insert {bound : String} {value : Value} {source : InputSource}
    (h : source = .link node.id bound → now.get? (node.id, bound) = some value) :
    inputValue inputs (now.insert (node.id, bound) value) source = inputValue inputs now source := by
  cases source with
  | literal json => rfl
  | graphInput name => rfl
  | link origin pin =>
    by_cases hpin : (node.id, bound) = (origin, pin)
    · cases hpin
      exact (Table.get?_insert_self now _ value).trans (h rfl).symm
    · exact Table.get?_insert_of_ne now hpin value

/-- Assumes: some of the inputs of a node that does not read its own inputs, each of which has the
value now that it had at first. Each is bound to that value. -/
theorem bindInputs_eq_of_not_readsOwnInputs (hnode : ¬ node.ReadsOwnInputs)
    (hmem : ∀ input ∈ order, input ∈ node.inputs) (hpins : (order.map (·.1)).Nodup)
    (hsame : ∀ input ∈ order, inputValue inputs now input.2 = inputValue inputs view input.2) :
    bindInputs node.id inputs now order = order.filterMap (bindingOf node.id inputs view) := by
  induction order generalizing now with
  | nil => rfl
  | cons input rest ih =>
    obtain ⟨pin, source⟩ := input
    rw [List.map_cons, List.nodup_cons] at hpins
    obtain ⟨hinput, hrest⟩ := List.forall_mem_cons.mp hmem
    obtain ⟨hvalue, hlater⟩ := List.forall_mem_cons.mp hsame
    rw [bindInputs, List.filterMap_cons, bindingOf, ← hvalue]
    cases hfound : inputValue inputs now source with
    | none => exact ih hrest hpins.2 hlater
    | some value =>
      refine congrArg (Callback.bind node.id pin value :: ·) (ih hrest hpins.2 ?_)
      rintro ⟨reader, origin⟩ hreader
      rw [← hlater _ hreader]
      refine inputValue_insert fun horigin ↦ ?_
      -- The reader is linked to this input, which then only can be linked to itself.
      subst horigin
      have hself : source = .link node.id pin := by
        by_contra hother
        refine hnode ⟨reader, pin, source, hrest _ hreader, ?_, hinput, hother⟩
        rintro rfl
        exact hpins.1 (List.mem_map.mpr ⟨_, hreader, rfl⟩)
      rw [hself] at hfound
      exact hfound

/-- Distinct pins are bound once each. -/
theorem eq_of_bind {node : String} (hpins : (order.map (·.1)).Nodup) {pin : String}
    {value other : Value} (hvalue : .bind node pin value ∈ bindInputs node inputs view order)
    (hother : .bind node pin other ∈ bindInputs node inputs view order) : value = other := by
  induction order generalizing view with
  | nil => simp [bindInputs] at hvalue
  | cons input rest ih =>
    obtain ⟨bound, source⟩ := input
    rw [List.map_cons, List.nodup_cons] at hpins
    rw [bindInputs] at hvalue hother
    cases hfound : inputValue inputs view source with
    | none =>
      rw [hfound] at hvalue hother
      exact ih hpins.2 hvalue hother
    | some first =>
      rw [hfound] at hvalue hother
      by_cases hpin : pin = bound
      · subst hpin
        have hlater (value : Value) : .bind node pin value ∉
            bindInputs node inputs (view.insert (node, pin) first) rest :=
          not_bind_of_not_mem hpins.1 value
        simp only [List.mem_cons, Callback.bind.injEq, true_and, hlater, or_false] at hvalue hother
        rw [hvalue, hother]
      · simp only [List.mem_cons, Callback.bind.injEq, hpin, false_and, and_false, false_or]
          at hvalue hother
        exact ih hpins.2 hvalue hother

end Interpreter

namespace NodeDocument

variable {node : NodeDocument} {view : Bindings} {told other : List Callback}

/-- Assumes: callbacks that bind the same, no pin to two values. -/
theorem bindAlike_of_iff (node : String)
    (h : ∀ owner pin value, .bind owner pin value ∈ told ↔ .bind owner pin value ∈ other)
    (honce : ∀ owner pin value second, .bind owner pin value ∈ told →
      .bind owner pin second ∈ told → second = value) : BindAlike node view told other where
  bind_iff := h node
  held := by
    rintro ⟨owner, pin⟩
    by_cases hbound : ∃ value, .bind owner pin value ∈ told
    · obtain ⟨value, hvalue⟩ := hbound
      have honly (second : Value) (hsecond : .bind owner pin second ∈ told) : second = value :=
        honce owner pin value second hvalue hsecond
      rw [Bindings.get?_held_of_bound hvalue honly,
        Bindings.get?_held_of_bound ((h owner pin value).mp hvalue) fun second hsecond ↦
          honly second ((h owner pin second).mpr hsecond)]
    · have hnone (value : Value) : .bind owner pin value ∉ told := fun hvalue ↦
        hbound ⟨value, hvalue⟩
      rw [Bindings.get?_held_of_not_bound hnone,
        Bindings.get?_held_of_not_bound fun value hvalue ↦
          hnone value ((h owner pin value).mpr hvalue)]

theorem orderFree_of_not_readsOwnInputs (hpins : (node.inputs.map (·.1)).Nodup)
    (h : ¬ node.ReadsOwnInputs) : node.OrderFree := by
  intro inputs view scope first second hfirst hsecond
  have hexact {order : List (String × InputSource)} (horder : order.Perm node.inputs) :
      Interpreter.bindInputs node.id inputs view order =
        order.filterMap (Interpreter.bindingOf node.id inputs view) :=
    Interpreter.bindInputs_eq_of_not_readsOwnInputs h (fun _ ↦ horder.mem_iff.mp)
      ((horder.map _).nodup_iff.mpr hpins) fun _ _ ↦ rfl
  have hbinds {order : List (String × InputSource)} {owner pin : String} {value : Value} :
      .bind owner pin value ∈ Interpreter.startNode inputs view { node with inputs := order } scope ↔
        .bind owner pin value ∈ Interpreter.bindInputs node.id inputs view order :=
    Interpreter.mem_startNode_bind
  refine bindAlike_of_iff node.id (fun owner pin value ↦ ?_) ?_
  · rw [hbinds, hbinds, hexact hfirst, hexact hsecond]
    exact ((hfirst.trans hsecond.symm).filterMap _).mem_iff
  · intro owner pin value other hvalue hother
    rw [hbinds] at hvalue hother
    obtain ⟨_, _, _, -, hbind⟩ := Interpreter.mem_bindInputs hvalue
    cases hbind
    exact Interpreter.eq_of_bind ((hfirst.map _).nodup_iff.mpr hpins) hother hvalue

/-- What is not linked to a pin may have a value while the pin holds none. -/
theorem exists_value_apart {source : InputSource} {id pin : String} (h : source ≠ .link id pin) :
    ∃ inputs view value, Interpreter.inputValue inputs view source = some value ∧
      view.get? (id, pin) = none := by
  cases source with
  | literal json => exact ⟨{}, {}, .ofJson json, rfl, rfl⟩
  | graphInput name => exact ⟨Table.insert {} name .null, {}, .null, Table.get?_insert_self _ _ _, rfl⟩
  | link origin output =>
    refine ⟨{}, Table.insert {} (origin, output) .null, .null, Table.get?_insert_self _ _ _, ?_⟩
    rw [Table.get?_insert_of_ne]
    · rfl
    · rintro heq
      cases heq
      exact h rfl

theorem not_orderFree_of_readsOwnInputs (hpins : (node.inputs.map (·.1)).Nodup)
    (h : node.ReadsOwnInputs) : ¬ node.OrderFree := by
  obtain ⟨reader, pin, source, hreader, hne, hpin, hsource⟩ := h
  obtain ⟨inputs, view, value, hvalue, hnone⟩ := exists_value_apart hsource
  obtain ⟨rest, hperm⟩ : ∃ rest, node.inputs.Perm
      ((pin, source) :: (reader, .link node.id pin) :: rest) := by
    obtain ⟨before, after, hsplit⟩ := List.append_of_mem hpin
    have hother : (reader, .link node.id pin) ∈ before ++ after := by
      rw [hsplit, List.mem_append, List.mem_cons, Prod.mk.injEq] at hreader
      simpa [hne] using hreader
    obtain ⟨first, second, hrest⟩ := List.append_of_mem hother
    have hothers : (before ++ after).Perm ((reader, .link node.id pin) :: (first ++ second)) := by
      rw [hrest]
      exact List.perm_middle
    refine ⟨first ++ second, ?_⟩
    rw [hsplit]
    exact List.perm_middle.trans (hothers.cons _)
  have hdistinct := (hperm.map _).nodup_iff.mp hpins
  simp only [List.map_cons, List.nodup_cons, List.mem_cons, not_or] at hdistinct
  intro hfree
  have halike := hfree inputs view rootScope _ _ hperm.symm
    ((List.Perm.swap _ _ rest).trans hperm.symm)
  have hread : Interpreter.inputValue inputs (view.insert (node.id, pin) value)
      (.link node.id pin) = some value := Table.get?_insert_self _ _ _
  -- Visited after the pin it reads, the reader is bound; visited before, it is passed over.
  have hbound := (halike.bind_iff reader value).mp (Interpreter.mem_startNode_bind.mpr
    (by simp [Interpreter.bindInputs, hvalue, hread]))
  have hpassed : Interpreter.inputValue inputs view (.link node.id pin) = none := hnone
  rw [Interpreter.mem_startNode_bind, Interpreter.bindInputs, hpassed] at hbound
  exact Interpreter.not_bind_of_not_mem (by simp [hne, hdistinct.2.1]) value hbound

end NodeDocument

namespace Graph

/-- Starting a node of a loaded graph does not depend on the order of its inputs, exactly when it
does not read its own inputs. -/
theorem orderFree_iff {e : Interpreter} {registry : Registry} {text : String} {handle : Nat}
    (hload : (e.load registry text).1 = .ok handle) {g : Graph}
    (hgraph : (e.load registry text).2.graphs.get? handle = some g) {node : NodeDocument}
    (hnode : node ∈ g.nodes) : node.OrderFree ↔ ¬ node.ReadsOwnInputs := by
  have hpins : (node.inputs.map (·.1)).Nodup := by
    obtain ⟨error, herror⟩ | ⟨doc, graph, hdoc, hgraph', hloaded⟩ :=
      Interpreter.load_cases registry text
    · rw [herror e] at hload
      cases hload
    · rw [hloaded e] at hload hgraph
      obtain rfl := Except.ok.inj hload
      obtain rfl := Option.some.inj ((Table.get?_insert_self _ _ _).symm.trans hgraph)
      rw [(loads_of_ofDocument hgraph').nodes_eq] at hnode
      obtain ⟨place, hplace⟩ := List.getElem?_of_mem hnode
      exact (GraphDocument.takes_of_ofText hdoc hplace).pins_nodup
  refine ⟨fun hfree hreads ↦ ?_, NodeDocument.orderFree_of_not_readsOwnInputs hpins⟩
  exact NodeDocument.not_orderFree_of_readsOwnInputs hpins hreads hfree

/-- The second input is linked to a pin of the node itself that is no input. -/
theorem orderFree_iff_of_output_read :
    let text := "\x7b\"nodes\":[\x7b\"id\":\"a\",\"kind\":\"log\"," ++
      "\"inputs\":\x7b\"p\":1,\"q\":\x7b\"link\":[\"a\",\"r\"]\x7d\x7d\x7d]\x7d"
    let node : NodeDocument := {
      id := "a", kind := "log", inputs := [("p", .literal (.ofInt 1)), ("q", .link "a" "r")] }
    ∃ g, (({} : Interpreter).load .standard text).2.graphs.get? 1 = some g ∧ node ∈ g.nodes ∧
      node.OrderFree := by
  intro text node
  have hdoc : GraphDocument.ofText text = .ok { nodes := [node] } := by cbv
  have hload : ({} : Interpreter).load .standard text =
      (.ok 1, { lastHandle := 1, graphs := Table.insert {} 1 {
        version := none, entry := some 0, inputs := [], outputs := [], nodes := [node]
        index := .ofList [("a", 0)] } }) := by
    simp only [Interpreter.load, hdoc]
    rfl
  have hgraph : (({} : Interpreter).load .standard text).2.graphs.get? 1 = some {
      version := none, entry := some 0, inputs := [], outputs := [], nodes := [node]
      index := .ofList [("a", 0)] } := by
    rw [hload]
    rfl
  have hnode : node ∈ [node] := List.mem_singleton.mpr rfl
  refine ⟨_, hgraph, hnode, (orderFree_iff (by rw [hload]) hgraph hnode).mpr ?_⟩
  simp [NodeDocument.ReadsOwnInputs, node]

/-- A node that hands one of its inputs on to another is not started alike in every order: visited
last, the second input is bound as well. -/
theorem not_orderFree_of_chained :
    let text := "\x7b\"nodes\":[\x7b\"id\":\"a\",\"kind\":\"log\"," ++
      "\"inputs\":\x7b\"p\":1,\"q\":\x7b\"link\":[\"a\",\"p\"]\x7d\x7d\x7d]\x7d"
    let p : String × InputSource := ("p", .literal (.ofInt 1))
    let q : String × InputSource := ("q", .link "a" "p")
    let node : NodeDocument := { id := "a", kind := "log", inputs := [p, q] }
    GraphDocument.ofText text = .ok { nodes := [node] } ∧
      (({} : Interpreter).load .standard text).1 = .ok 1 ∧
      .bind "a" "q" (.ofJson (.ofInt 1)) ∈
        Interpreter.startNode {} {} { node with inputs := [p, q] } rootScope ∧
      .bind "a" "q" (.ofJson (.ofInt 1)) ∉
        Interpreter.startNode {} {} { node with inputs := [q, p] } rootScope ∧
      ¬ node.OrderFree := by
  intro text p q node
  have hdoc : GraphDocument.ofText text = .ok { nodes := [node] } := by cbv
  have hfirst : .bind "a" "q" (.ofJson (.ofInt 1)) ∈
      Interpreter.startNode {} {} { node with inputs := [p, q] } rootScope :=
    List.mem_cons_of_mem _ List.mem_cons_self
  have hsecond : .bind "a" "q" (.ofJson (.ofInt 1)) ∉
      Interpreter.startNode {} {} { node with inputs := [q, p] } rootScope := by
    have hcallbacks : Interpreter.startNode {} {} { node with inputs := [q, p] } rootScope =
      [.bind "a" "p" (.ofJson (.ofInt 1)),
        .invoke { scope := 0, node := "a", kind := "log", params := .null }] := rfl
    simp [hcallbacks]
  refine ⟨hdoc, ?_, hfirst, hsecond, fun h ↦ hsecond ?_⟩
  · simp only [Interpreter.load, hdoc]
    rfl
  · exact ((h {} {} rootScope [p, q] [q, p] (List.Perm.refl _) (List.Perm.swap p q [])).bind_iff
      "q" _).mp hfirst

end Graph

end Blueprint

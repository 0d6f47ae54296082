import Blueprint.Proofs.Run.Chronicle

/-!
What the node `execute_blueprint` hands to the graph that it runs. When it asks for the run, it has
found the graph and read its own input pins, one for each input that the graph declares; what it has
read goes over the inputs that the graph came with (`NodeKind.executeBlueprint_inputs`).
-/

set_option autoImplicit false

namespace Blueprint

variable {config : RunConfig} {call : NodeCall} {start last : Behaviour} {told : List Deed}

namespace NodeCall.Path

/-- A path goes nowhere, or it begins with one request. -/
theorem head (h : call.Path config start told last) :
    (told = [] ∧ last = start) ∨
      ∃ first more middle bindings progress, start.Asks config bindings call first progress ∧
        RunView.Resumes progress middle ∧ call.Path config middle more last ∧
        told = first ++ more := by
  induction h with
  | refl => exact .inl ⟨rfl, rfl⟩
  | next hpath hasks hresumes ih =>
    rcases ih with ⟨rfl, rfl⟩ | ⟨first, more, middle, bindings, progress, hfirst, hgoes, hrest, rfl⟩
    · exact .inr ⟨_, [], _, _, _, hasks, hresumes, .refl, (List.append_nil _).symm⟩
    · exact .inr ⟨first, _, middle, bindings, progress, hfirst, hgoes, hrest.next hasks hresumes,
        List.append_assoc ..⟩

/-- A node that has ended does nothing more. -/
theorem eq_of_ending (h : call.Path config start told last) {ending : Ending}
    (hending : start.ending? = some ending) : last = start := by
  rcases h.head with ⟨-, hlast⟩ | ⟨first, more, middle, bindings, progress, hasks, -⟩
  · exact hlast
  · cases hasks <;> cases hending

/-- A node that looks at a pin goes on with the answer, if it does not stay there. -/
theorem read {node pin : String} {next : Option Value → Behaviour}
    (h : call.Path config (.read node pin next) told last) :
    last = .read node pin next ∨ ∃ answer more, call.Path config (next answer) more last ∧
      told = .read call node pin answer :: more := by
  rcases h.head with
    ⟨-, hlast⟩ | ⟨first, more, middle, bindings, progress, hasks, hgoes, hrest, rfl⟩
  · exact .inl hlast
  · cases hasks
    cases hgoes
    exact .inr ⟨_, more, hrest, rfl⟩

/-- A node that looks up a graph goes on with one that was loaded ahead, or that comes without
inputs, or with an error. -/
theorem find {id : String} {next : Except ResolveError LoadedGraph → Behaviour}
    (h : call.Path config (.find id next) told last) :
    last = .find id next ∨ ∃ outcome, config.Finds id outcome ∧
      call.Path config (next outcome) told last := by
  rcases h.head with
    ⟨-, hlast⟩ | ⟨first, more, middle, bindings, progress, hasks, hgoes, hrest, rfl⟩
  · exact .inl hlast
  · cases hasks with
    | found _ _ outcome hfinds =>
      cases hgoes
      exact .inr ⟨outcome, hfinds, hrest⟩
    | finding _ _ due loader fetch hloaded =>
      cases hgoes with
      | fetchingGraph _ _ _ _ outcome hinputs =>
        exact .inr ⟨outcome, fun loaded hok ↦ .inr ⟨hloaded, hinputs loaded hok⟩, hrest⟩

end NodeCall.Path

namespace NodeKind

variable {graph : GraphInstance} {inputs : Inputs} {next : RunResult → Behaviour}

theorem not_nest_thenTrigger {pin : String} :
    ¬ call.Path config (.thenTrigger pin) told (.nest graph inputs next) := by
  intro h
  rcases h.head with ⟨-, hlast⟩ | ⟨first, more, middle, bindings, progress, hasks, hgoes, hrest, -⟩
  · cases hlast
  · cases hasks with
    | trigger _ _ outcome =>
      cases hgoes
      cases outcome with
      | ok scope => cases hrest.eq_of_ending rfl
      | error error => cases hrest.eq_of_ending rfl

theorem not_nest_writeAll {pin : String} (entries : List (String × Value)) :
    ¬ call.Path config (writeAll entries (.thenTrigger pin)) told (.nest graph inputs next) := by
  induction entries generalizing told with
  | nil => exact not_nest_thenTrigger
  | cons entry rest ih =>
    intro h
    rcases h.head with
      ⟨-, hlast⟩ | ⟨first, more, middle, bindings, progress, hasks, hgoes, hrest, -⟩
    · cases hlast
    · cases hasks
      cases hgoes
      exact ih hrest

/-- After the run no graph is run. -/
theorem not_nest_after {pin : String} (result : RunResult) (failure : Failure) :
    ¬ call.Path config
      (if result.success then writeAll result.outputs.entries (.thenTrigger pin) else .fail failure)
      told (.nest graph inputs next) := by
  intro h
  split_ifs at h with hsuccess
  · exact not_nest_writeAll _ h
  · cases h.eq_of_ending rfl

/-- Assumes: no graph is run after the one that is run. -/
theorem eq_of_path_nest {other : GraphInstance} {given : Inputs} {rest : RunResult → Behaviour}
    (hquiet : ∀ result told, ¬ call.Path config (rest result) told (.nest graph inputs next))
    (h : call.Path config (.nest other given rest) told (.nest graph inputs next)) :
    graph = other ∧ inputs = given := by
  rcases h.head with ⟨-, hlast⟩ | ⟨first, more, middle, bindings, progress, hasks, hgoes, hrest, -⟩
  · cases hlast
    exact ⟨rfl, rfl⟩
  · cases hasks with
    | nestRefused _ _ _ result =>
      cases hgoes
      exact absurd hrest (hquiet result more)
    | nesting _ _ _ child =>
      cases hgoes with
      | nesting _ _ result => exact absurd hrest (hquiet result more)

/-- What is fed to a graph: of each input that is declared, what was read from the pin of its name,
or else what was there; and what was there of the others. -/
structure Fed (call : NodeCall) (decls : List PinDecl) (told : List Deed) (given inputs : Inputs) :
    Prop where
  declared : ∀ decl ∈ decls, ∃ answer, .read call call.node decl.name answer ∈ told ∧
    inputs.get? decl.name = answer.or (given.get? decl.name)
  others : ∀ name, (∀ decl ∈ decls, decl.name ≠ name) → inputs.get? name = given.get? name

theorem Fed.mono {decls : List PinDecl} {more : List Deed} {given : Inputs}
    (h : Fed call decls told given inputs) (hmore : told ⊆ more) :
    Fed call decls more given inputs :=
  ⟨fun decl hdecl ↦ (h.declared decl hdecl).imp fun _ hread ↦ ⟨hmore hread.1, hread.2⟩, h.others⟩

/-- Assumes: what is done with the inputs that are fed is to run a graph. -/
theorem fed_of_path {other : GraphInstance} {decls : List PinDecl} {given : Inputs}
    {goOn : Inputs → Behaviour}
    (hend : ∀ given told, call.Path config (goOn given) told (.nest graph inputs next) →
      graph = other ∧ inputs = given)
    (h : call.Path config (feed call.node decls given goOn) told (.nest graph inputs next)) :
    graph = other ∧ Fed call decls told given inputs := by
  induction decls generalizing given told with
  | nil =>
    obtain ⟨hgraph, rfl⟩ := hend given told h
    exact ⟨hgraph, fun _ hdecl ↦ (nomatch hdecl), fun _ _ ↦ rfl⟩
  | cons decl decls ih =>
    rcases h.read with hlast | ⟨answer, more, hrest, rfl⟩
    · cases hlast
    · obtain ⟨fed, hfed, hrest⟩ : ∃ fed : Inputs,
          (∀ name, fed.get? name =
            if decl.name = name then answer.or (given.get? name) else given.get? name) ∧
          call.Path config (feed call.node decls fed goOn) more (.nest graph inputs next) := by
        cases answer with
        | some value => exact ⟨_, fun name ↦ Table.get?_insert _ _ _ _, hrest⟩
        | none => exact ⟨given, fun name ↦ by rw [Option.none_or, ite_self], hrest⟩
      obtain ⟨hgraph, hlater⟩ := ih hrest
      refine ⟨hgraph, ?_⟩
      constructor
      case declared =>
        intro other hother
        by_cases hagain : ∃ same ∈ decls, same.name = other.name
        · -- A later input of the name counts, if it is bound.
          obtain ⟨same, hsame, hname⟩ := hagain
          obtain ⟨again, hread, hinputs⟩ := hlater.declared same hsame
          rw [hname] at hread hinputs
          rw [hfed] at hinputs
          by_cases hdecl : decl.name = other.name
          · cases again with
            | some value => exact ⟨some value, List.mem_cons_of_mem _ hread, hinputs⟩
            | none =>
              rw [if_pos hdecl, Option.none_or] at hinputs
              exact ⟨answer, hdecl ▸ List.mem_cons_self, hinputs⟩
          · rw [if_neg hdecl] at hinputs
            exact ⟨again, List.mem_cons_of_mem _ hread, hinputs⟩
        · obtain rfl | hother := List.mem_cons.mp hother
          · have hinputs :=
              hlater.others other.name fun same hsame hname ↦ hagain ⟨same, hsame, hname⟩
            rw [hfed, if_pos rfl] at hinputs
            exact ⟨answer, List.mem_cons_self, hinputs⟩
          · exact absurd ⟨other, hother, rfl⟩ hagain
      case others =>
        intro name hname
        rw [hlater.others name fun other hother ↦ hname other (List.mem_cons_of_mem _ hother), hfed,
          if_neg (hname decl List.mem_cons_self)]

/-- The graph that an `execute_blueprint` node asks to run was found by an id, and is fed from the
node's own pins. -/
theorem executeBlueprint_inputs
    (h : call.Path config (executeBlueprint.behaviour call) told (.nest graph inputs next)) :
    ∃ id loaded, config.Finds id (.ok loaded) ∧ loaded.graph = graph ∧
      Fed call graph.inputs told loaded.inputs inputs := by
  rcases h.read with hlast | ⟨bound, found, hpath, rfl⟩
  · cases hlast
  · simp only at hpath
    generalize ((bound.bind Value.asString?).or (call.paramString? "id")) = id? at hpath
    cases id? with
    | none => cases hpath.eq_of_ending rfl
    | some id =>
      simp only at hpath
      split_ifs at hpath with hempty
      · cases hpath.eq_of_ending rfl
      · rcases hpath.find with hlast | ⟨outcome, hfinds, hpath⟩
        · cases hlast
        · cases outcome with
          | error error => cases hpath.eq_of_ending rfl
          | ok loaded =>
            obtain ⟨rfl, hfed⟩ := fed_of_path (fun given told hnest ↦
              eq_of_path_nest (fun result _ ↦ not_nest_after result _) hnest) hpath
            exact ⟨id, loaded, hfinds, rfl, hfed.mono (List.subset_cons_self _ _)⟩

end NodeKind

end Blueprint

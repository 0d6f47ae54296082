import Blueprint.Proofs.Node.Feeding

/-!
Nodes that deliver. From its first write on, such a node only writes pins of its own until it starts a
branch, and with that it ends (`Behaviour.Delivers`). Nothing is waited for in between, and there is
no other request by which it could be. So a node that has written something and has not started a
branch yet is about to do one or the other (`NodeCall.Delivery.delivering`).

The nodes that load an asset and those that run another graph are such (`NodeKind.delivers`).
-/

set_option autoImplicit false

namespace Blueprint

namespace Behaviour

/-- Only writes, until it starts a branch and ends. -/
def Delivering : Behaviour → Prop
  | .write _ _ next => next.Delivering
  | .trigger _ next => ∀ outcome, (next outcome).ending?.isSome = true
  | _ => False

/-- Once it writes, it only writes until it starts a branch, and it ends then. -/
def Delivers : Behaviour → Prop
  | .succeed | .fail _ | .panic _ | .stall => True
  | .read _ _ next => ∀ answer, (next answer).Delivers
  | .write _ _ next => next.Delivering
  | .publish _ _ next | .log _ _ next | .join _ next | .sleep _ next | .yield next => next.Delivers
  | .trigger _ next => ∀ outcome, (next outcome).ending?.isSome = true
  | .load _ _ next => ∀ outcome, (next outcome).Delivers
  | .find _ next => ∀ outcome, (next outcome).Delivers
  | .nest _ _ next => ∀ result, (next result).Delivers

variable {b : Behaviour}

theorem Delivering.delivers (h : b.Delivering) : b.Delivers := by
  cases b with
  | write | trigger => exact h
  | _ => cases h

theorem delivering_thenTrigger (pin : String) : (thenTrigger pin).Delivering := by
  intro outcome
  cases outcome with
  | ok scope => rfl
  | error error => rfl

end Behaviour

/-- Starts a branch, or fails to. -/
def Deed.isTriggered : Deed → Bool
  | triggered _ _ _ => true
  | _ => false

/-- By what it has done, a node has written something and has not started a branch. -/
structure Undelivered (told : List Deed) : Prop where
  written : told.flatMap Deed.puts ≠ []
  untriggered : ∀ deed ∈ told, deed.isTriggered = false

namespace NodeCall

variable {config : RunConfig} {call : NodeCall} {start request : Behaviour} {told : List Deed}

/-- How far a node is that delivers, by what it has done before a request. -/
inductive Delivery (told : List Deed) (request : Behaviour) : Prop
  | ahead (hwritten : told.flatMap Deed.puts = [])
      (huntriggered : ∀ deed ∈ told, deed.isTriggered = false) (h : request.Delivers)
  | underWay (huntriggered : ∀ deed ∈ told, deed.isTriggered = false) (h : request.Delivering)
  | delivered (htriggered : ∃ deed ∈ told, deed.isTriggered = true)
      (hending : request.ending?.isSome = true)

namespace Delivery

variable {more : List Deed} {bindings : Bindings} {progress : Progress} {later : Behaviour}

theorem untriggered_append (htold : ∀ deed ∈ told, deed.isTriggered = false)
    (hmore : ∀ deed ∈ more, deed.isTriggered = false) :
    ∀ deed ∈ told ++ more, deed.isTriggered = false := fun deed hdeed ↦
  (List.mem_append.mp hdeed).elim (htold deed) (hmore deed)

/-- A node that does not write and does not start a branch goes on as before. -/
theorem ahead_append (htold : told.flatMap Deed.puts = [])
    (huntriggered : ∀ deed ∈ told, deed.isTriggered = false) (hmore : more.flatMap Deed.puts = [])
    (hquiet : ∀ deed ∈ more, deed.isTriggered = false) (h : later.Delivers) :
    Delivery (told ++ more) later :=
  .ahead (by rw [List.flatMap_append, htold, hmore]; rfl) (untriggered_append huntriggered hquiet) h

theorem delivered_append (call : NodeCall) (pin : String) (outcome : Except EngineError Nat)
    (hending : later.ending?.isSome = true) :
    Delivery (told ++ [.triggered call pin outcome]) later :=
  .delivered ⟨_, List.mem_append_right _ List.mem_cons_self, rfl⟩ hending

/-- One request further. -/
theorem next (h : Delivery told request) (hasks : request.Asks config bindings call more progress)
    (hresumes : RunView.Resumes progress later) : Delivery (told ++ more) later := by
  cases h with
  | ahead hwritten huntriggered hdelivers =>
    cases hasks with
    | write pin value next =>
      cases hresumes
      exact .underWay (untriggered_append huntriggered (by simp [Deed.isTriggered])) hdelivers
    | trigger pin next outcome =>
      cases hresumes
      exact delivered_append call pin outcome (hdelivers outcome)
    | publish | log | join | sleep | yield =>
      cases hresumes
      exact ahead_append hwritten huntriggered rfl (by simp) hdelivers
    | read =>
      cases hresumes
      exact ahead_append hwritten huntriggered rfl (by simp [Deed.isTriggered]) (hdelivers _)
    | nestRefused | nesting =>
      cases hresumes
      exact ahead_append hwritten huntriggered rfl (by simp [Deed.isTriggered]) (hdelivers _)
    | loadRefused | loading | found | finding =>
      cases hresumes
      exact ahead_append hwritten huntriggered rfl (by simp) (hdelivers _)
    | stall => cases hresumes
  | underWay huntriggered hdelivering =>
    cases hasks with
    | write pin value next =>
      cases hresumes
      exact .underWay (untriggered_append huntriggered (by simp [Deed.isTriggered])) hdelivering
    | trigger pin next outcome =>
      cases hresumes
      exact delivered_append call pin outcome (hdelivering outcome)
    | _ => cases hdelivering
  | delivered htriggered hending => cases hasks <;> cases hending

/-- A node that has something to deliver writes more, or starts a branch. -/
theorem delivering (h : Delivery told request) (htold : Undelivered told) : request.Delivering := by
  cases h with
  | ahead hwritten => exact absurd hwritten htold.written
  | underWay huntriggered hdelivering => exact hdelivering
  | delivered htriggered =>
    obtain ⟨deed, hdeed, hstarts⟩ := htriggered
    cases (htold.untriggered deed hdeed).symm.trans hstarts

/-- A node that has written something, and has not ended, has something to deliver. -/
theorem undelivered (h : Delivery told request) (hwritten : told.flatMap Deed.puts ≠ [])
    (hending : request.ending? = none) : Undelivered told := by
  cases h with
  | ahead hnone => exact absurd hnone hwritten
  | underWay huntriggered => exact ⟨hwritten, huntriggered⟩
  | delivered htriggered hended => simp [hending] at hended

end Delivery

theorem Path.delivery (h : call.Path config start told request) (hstart : start.Delivers) :
    Delivery told request := by
  induction h with
  | refl => exact .ahead rfl (by simp) hstart
  | next hpath hasks hresumes ih => exact ih.next hasks hresumes

end NodeCall

namespace NodeKind

/-- The kinds whose nodes write to pins of their own what they are after. -/
def delivering : List NodeKind := [loadTexture, loadMesh, loadJson, executeBlueprint]

variable {call : NodeCall} {what : String}

theorem delivers_resourceId {next : String → Behaviour} (hnext : ∀ id, (next id).Delivers) :
    (call.resourceId what next).Delivers := by
  intro bound
  dsimp only
  split
  · split_ifs
    · trivial
    · exact hnext _
  · trivial

theorem delivering_writeAll (entries : List (String × Value)) (pin : String) :
    (writeAll entries (.thenTrigger pin)).Delivering := by
  induction entries with
  | nil => exact Behaviour.delivering_thenTrigger pin
  | cons entry rest ih => exact ih

theorem delivers_feed {node : String} {decls : List PinDecl} {inputs : Inputs}
    {next : Inputs → Behaviour} (hnext : ∀ inputs, (next inputs).Delivers) :
    (feed node decls inputs next).Delivers := by
  induction decls generalizing inputs with
  | nil => exact hnext inputs
  | cons decl decls ih =>
    intro bound
    cases bound with
    | some value => exact ih
    | none => exact ih

theorem delivers_loading (name what pin : String) (form : AssetForm) (call : NodeCall) :
    ((loading name what pin form).behaviour call).Delivers := by
  refine delivers_resourceId fun id outcome ↦ ?_
  cases outcome with
  | error error => trivial
  | ok value =>
    have hwrite : (Behaviour.write pin value (.thenTrigger "then")).Delivers :=
      Behaviour.delivering_thenTrigger "then"
    dsimp only
    split
    · exact hwrite
    · exact hwrite

theorem delivers_executeBlueprint (call : NodeCall) :
    (executeBlueprint.behaviour call).Delivers := by
  refine delivers_resourceId fun id outcome ↦ ?_
  cases outcome with
  | error error => trivial
  | ok loaded =>
    refine delivers_feed fun inputs result ↦ ?_
    dsimp only
    split_ifs
    · exact (delivering_writeAll _ "then").delivers
    · trivial

theorem delivers {kind : NodeKind} (hkind : kind ∈ delivering) (call : NodeCall) :
    (kind.behaviour call).Delivers := by
  simp only [delivering, List.mem_cons, List.not_mem_nil, or_false] at hkind
  rcases hkind with rfl | rfl | rfl | rfl
  · exact delivers_loading _ _ _ _ call
  · exact delivers_loading _ _ _ _ call
  · exact delivers_loading _ _ _ _ call
  · exact delivers_executeBlueprint call

end NodeKind

end Blueprint

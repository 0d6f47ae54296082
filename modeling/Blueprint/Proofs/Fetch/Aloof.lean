import Blueprint.Cache.Disk
import Blueprint.Proofs.Graph.Wiring
import Blueprint.Provider.Basic

/-!
Fetching stays away from the runs. A cache that is a store of bytes and nothing else leaves the
interpreter alone (`Cache.Aloof`), as all caches here do. With such a cache a fetch changes the
interpreter only where a blueprint is decoded, and there only by a graph that is loaded: the runs
stay as they are, and the loaded graphs stay accepted.
-/

set_option autoImplicit false

namespace Blueprint

namespace Cache

/-- Reading and writing entries does not touch the interpreter. -/
structure Aloof (c : Cache) : Prop where
  get : ∀ hash world, (c.get hash world).2.interpreter = world.interpreter
  put : ∀ hash content world, (c.put hash content world).2.interpreter = world.interpreter

theorem aloof_memory : memory.Aloof := ⟨fun _ _ ↦ rfl, fun _ _ _ ↦ rfl⟩

theorem interpreter_ask {α : Type} {world : World} {answer : α × World}
    (hanswer : answer.2.interpreter = world.interpreter) :
    (ask world answer).2.interpreter = world.interpreter := by
  unfold ask
  split_ifs
  · exact hanswer
  · rfl

theorem aloof_shared (start : String) : (shared start).Aloof :=
  ⟨fun _ _ ↦ interpreter_ask rfl, fun _ _ _ ↦ interpreter_ask rfl⟩

theorem Aloof.faulty {c : Cache} (h : c.Aloof) (faults : Nat → Fault) : (faulty faults c).Aloof := by
  constructor
  · intro hash world
    unfold Cache.faulty
    dsimp only
    split_ifs
    · rfl
    · exact h.get hash (count world)
  · intro hash content world
    unfold Cache.faulty
    dsimp only
    split_ifs
    · exact h.put hash content (count world)
    · rfl
    · exact h.put hash content (count world)

theorem interpreter_locked {α : Type} (hash : String) (world : World)
    {work : World → CacheReply α × World}
    (hwork : ∀ world, (work world).2.interpreter = world.interpreter) :
    (locked hash world work).2.interpreter = world.interpreter := by
  unfold locked
  split_ifs
  · exact hwork _
  · rfl

theorem aloof_disk (root : Path) : (disk root).Aloof :=
  ⟨fun hash world ↦ interpreter_locked hash world fun _ ↦ rfl,
    fun hash _ world ↦ interpreter_locked hash world fun _ ↦ rfl⟩

end Cache

namespace Loader

/-- The cache, if there is one, leaves the interpreter alone. -/
def Aloof (l : Loader) : Prop := ∀ cache, l.cache = some cache → cache.Aloof

variable {l : Loader}

theorem Aloof.keeping (h : l.Aloof) {d : Descriptor} {cache : Cache} {hash : String}
    (hkeeping : l.keeping d = some (cache, hash)) : cache.Aloof := by
  unfold Loader.keeping at hkeeping
  split at hkeeping
  · rename_i found _ hcache _
    cases hkeeping
    exact h _ hcache
  · cases hkeeping

theorem Aloof.interpreter_look (h : l.Aloof) (d : Descriptor) (world : World) :
    (l.look d world).2.interpreter = world.interpreter := by
  unfold look
  cases hkeeping : l.keeping d with
  | none => rfl
  | some kept =>
    obtain ⟨cache, hash⟩ := kept
    have hget := (h.keeping hkeeping).get hash world
    dsimp only
    split
    · rename_i found later hreply
      rw [← hget, hreply]
    · rename_i fault later hreply
      rw [← hget, hreply]

theorem Aloof.interpreter_start (h : l.Aloof) (d : Descriptor) (world : World) :
    (l.start d world).2.interpreter = world.interpreter := by
  have hlook := h.interpreter_look d world
  unfold start
  split
  · rename_i bytes later hfound
    rw [← hlook, hfound]
  · rename_i later hmissing
    rw [← hlook, hmissing]
    rfl

theorem Aloof.interpreter_keep (h : l.Aloof) (d : Descriptor) (bytes : Bytes) (world : World) :
    (l.keep d bytes world).interpreter = world.interpreter := by
  unfold keep
  cases hkeeping : l.keeping d with
  | none => rfl
  | some kept =>
    obtain ⟨cache, hash⟩ := kept
    exact (h.keeping hkeeping).put hash bytes world

theorem Aloof.interpreter_land (h : l.Aloof) (f : Fetch) (world : World) :
    (l.land f world).2.interpreter = world.interpreter := by
  unfold land
  by_cases hlate : l.isLate f.delivery.after = true
  · rw [if_pos hlate]
  · rw [if_neg hlate]
    cases f.delivery.outcome with
    | error e => rfl
    | ok bytes =>
      by_cases hhit : f.hit = true
      · simp only [hhit, ↓reduceIte]
      · simp only [hhit, Bool.false_eq_true, ↓reduceIte]
        exact h.interpreter_keep f.descriptor bytes world

/-- Landing a fetch and decoding what came does to the interpreter what the decoder does. -/
theorem Aloof.finish {α : Type} (h : l.Aloof) {decoder : Decoder α} {P : Interpreter → Prop}
    (f : Fetch) (world : World) (hworld : P world.interpreter)
    (hdecoder : ∀ bytes later, P later.interpreter →
      P (decoder f.descriptor bytes later).2.interpreter) :
    P (l.finish decoder f world).2.interpreter := by
  have hland := h.interpreter_land f world
  unfold Loader.finish
  split
  · rename_i bytes later hlanded
    refine hdecoder bytes later ?_
    have hlater : later.interpreter = world.interpreter := by rw [← hland, hlanded]
    rw [hlater]
    exact hworld
  · rename_i error later hlanded
    have hlater : later.interpreter = world.interpreter := by rw [← hland, hlanded]
    rw [hlater]
    exact hworld

/-- What a fetch may do to the interpreter. -/
def Loads (e later : Interpreter) : Prop :=
  later.runs = e.runs ∧ (e.GraphsAccepted → later.GraphsAccepted)

theorem interpreter_assetDecoder (form : AssetForm) (d : Descriptor) (bytes : Bytes)
    (world : World) :
    (Provider.assetDecoder form d bytes world).2.interpreter = world.interpreter := by
  cases form with
  | texture | mesh =>
    unfold Provider.assetDecoder Provider.assetDecoder.valued Decoder.shared
    dsimp only
    split <;> rfl
  | json => rfl

theorem loads_loadDocument (registry : Registry) (d : Descriptor) (text : String) (world : World) :
    Loads world.interpreter (Decoder.loadDocument registry d text world).2.interpreter := by
  have hload : (Decoder.loadDocument registry d text world).2.interpreter =
      (world.interpreter.load registry text).2 := by
    unfold Decoder.loadDocument
    dsimp only
    split <;> rfl
  rw [hload]
  exact ⟨Interpreter.runs_load _ _ _, fun haccepted ↦ Interpreter.load_accepted haccepted _ _⟩

theorem loads_blueprint (registry : Registry) (supported : VersionRange) (d : Descriptor)
    (bytes : Bytes) (world : World) :
    Loads world.interpreter (Decoder.blueprint registry supported d bytes world).2.interpreter := by
  unfold Decoder.blueprint
  split
  · exact ⟨rfl, fun haccepted ↦ haccepted⟩
  · split
    · exact ⟨rfl, fun haccepted ↦ haccepted⟩
    · exact loads_loadDocument registry d _ world

theorem Aloof.finish_asset (h : l.Aloof) (form : AssetForm) (f : Fetch) (world : World) :
    Loads world.interpreter (l.finish (Provider.assetDecoder form) f world).2.interpreter :=
  h.finish f world ⟨rfl, fun haccepted ↦ haccepted⟩ fun bytes later hlater ↦ by
    rw [interpreter_assetDecoder]
    exact hlater

theorem Aloof.finish_graph (h : l.Aloof) (p : Provider) (f : Fetch) (world : World) :
    Loads world.interpreter (l.finish p.blueprints f world).2.interpreter :=
  h.finish f world ⟨rfl, fun haccepted ↦ haccepted⟩ fun bytes later hlater ↦ by
    have hloads := loads_blueprint p.registry p.supported f.descriptor bytes later
    exact ⟨hloads.1.trans hlater.1, fun haccepted ↦ hloads.2 (hlater.2 haccepted)⟩

end Loader

end Blueprint

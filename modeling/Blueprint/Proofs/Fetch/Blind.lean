import Blueprint.Proofs.Fetch.Aloof
import Blueprint.Proofs.Interpreter.Pared
import Blueprint.Provider.Configured

/-!
Fetching does not look at the runs. Some work on the world is blind (`World.Blind`) when it comes to
the same whatever the interpreter is, and leaves the interpreter as it is. All caches and downloaders
here are blind, so every provider that a configuration describes is (`Provider.blind_ofConfig`). With
a blind provider a fetch is blind up to the point where a blueprint is decoded. There a graph is
loaded, so that the interpreter changes; but no run is looked at (`World.Pares`).
-/

set_option autoImplicit false

namespace Blueprint

namespace World

/-- The world with another interpreter in it. -/
def withInterpreter (world : World) (e : Interpreter) : World := { world with interpreter := e }

/-- The world, one run of which has only the inputs that its graph reads. -/
def pared (world : World) (run : RunId) : World :=
  world.withInterpreter (world.interpreter.pared run)

/-- Some work neither looks at the interpreter nor touches it. -/
def Blind {α : Type} (work : World → α × World) : Prop :=
  ∀ world e, work (world.withInterpreter e) = ((work world).1, (work world).2.withInterpreter e)

/-- Some work does not look at inputs of a run that its graph does not read. -/
def Pares {α : Type} (run : RunId) (work : World → α × World) : Prop :=
  ∀ world, work (world.pared run) = ((work world).1, (work world).2.pared run)

theorem Blind.interpreter_eq {α : Type} {work : World → α × World} (h : Blind work)
    (world : World) : (work world).2.interpreter = world.interpreter :=
  congrArg (fun answer ↦ answer.2.interpreter) (h world world.interpreter)

theorem Blind.pares {α : Type} {work : World → α × World} (h : Blind work) (run : RunId) :
    Pares run work := by
  intro world
  rw [pared, h, pared, h.interpreter_eq]

end World

open World

namespace Cache

/-- Reading and writing entries does not look at the interpreter. -/
structure Blind (c : Cache) : Prop where
  get : ∀ hash, World.Blind (c.get hash)
  put : ∀ hash content, World.Blind (c.put hash content)

theorem blind_memory : memory.Blind := ⟨fun _ _ _ ↦ rfl, fun _ _ _ _ ↦ rfl⟩

theorem blind_ask {α : Type} {answer : World → α × World} (h : World.Blind answer) :
    World.Blind fun world ↦ ask world (answer world) := by
  intro world e
  unfold ask
  dsimp only
  rw [h world e, show (world.withInterpreter e).sharedReachable = world.sharedReachable from rfl]
  split_ifs <;> rfl

theorem blind_shared (start : String) : (shared start).Blind :=
  ⟨fun _ ↦ blind_ask fun _ _ ↦ rfl, fun _ _ ↦ blind_ask fun _ _ ↦ rfl⟩

theorem count_withInterpreter (world : World) (e : Interpreter) :
    count (world.withInterpreter e) = (count world).withInterpreter e := rfl

theorem Blind.faulty {c : Cache} (h : c.Blind) (faults : Nat → Fault) :
    (faulty faults c).Blind where
  get hash world e := by
    unfold Cache.faulty
    dsimp only
    rw [count_withInterpreter, show (world.withInterpreter e).cacheOperations =
      world.cacheOperations from rfl, h.get hash (count world) e]
    split_ifs <;> rfl
  put hash content world e := by
    unfold Cache.faulty
    dsimp only
    rw [count_withInterpreter, show (world.withInterpreter e).cacheOperations =
      world.cacheOperations from rfl, h.put hash content (count world) e]
    split_ifs <;> rfl

theorem blind_locked {α : Type} (hash : String) {work : World → CacheReply α × World}
    (h : World.Blind work) : World.Blind fun world ↦ locked hash world work := by
  intro world e
  unfold locked
  split_ifs
  · exact congrArg (fun answer : CacheReply α × World ↦
        (answer.1, { answer.2 with locks := answer.2.locks.leave (world.locks.enter hash).1 }))
      (h { world with
        locks := (world.locks.enter hash).2.acquire (world.locks.enter hash).1 } e)
  · rfl

theorem blind_disk (root : Path) : (disk root).Blind where
  get hash := by
    simp only [disk]
    exact blind_locked hash fun _ _ ↦ rfl
  put hash content := by
    simp only [disk]
    exact blind_locked hash fun _ _ ↦ rfl

end Cache

namespace Downloader

/-- What is delivered does not depend on the interpreter. -/
def Blind (downloader : Downloader) : Prop :=
  ∀ world e d, downloader.download (world.withInterpreter e) d = downloader.download world d

theorem blind_file (root : Option Path) : (file root).Blind := fun _ _ _ ↦ rfl

theorem blind_web (net : Web) : (web net).Blind := fun _ _ _ ↦ rfl

theorem blind_general (root : Option Path) (net : Web) : (general root net).Blind := by
  intro world e d
  unfold general
  dsimp only
  split_ifs <;> rfl

theorem blind_published (name : String) (scheme : Option String) (delay : Nat) :
    (published name scheme delay).Blind := fun _ _ _ ↦ rfl

end Downloader

namespace Loader

/-- The cache, if there is one, is blind. -/
def CacheBlind (l : Loader) : Prop := ∀ cache, l.cache = some cache → cache.Blind

variable {l : Loader}

theorem CacheBlind.keeping (h : l.CacheBlind) {d : Descriptor} {cache : Cache} {hash : String}
    (hkeeping : l.keeping d = some (cache, hash)) : cache.Blind := by
  unfold Loader.keeping at hkeeping
  split at hkeeping
  · rename_i found _ hcache _
    cases hkeeping
    exact h _ hcache
  · cases hkeeping

theorem CacheBlind.look (h : l.CacheBlind) (d : Descriptor) : World.Blind (l.look d) := by
  intro world e
  unfold Loader.look
  cases hkeeping : l.keeping d with
  | none => rfl
  | some kept =>
    obtain ⟨cache, hash⟩ := kept
    dsimp only
    rw [(h.keeping hkeeping).get hash world e]
    obtain ⟨found | fault, later⟩ := cache.get hash world <;> rfl

theorem blind_start (h : l.CacheBlind) (hdownloader : l.downloader.Blind) (d : Descriptor) :
    World.Blind (l.start d) := by
  intro world e
  unfold start
  rw [h.look d world e]
  obtain ⟨found | bytes, later⟩ := l.look d world
  · change (⟨{ descriptor := d, delivery := l.downloader.download (later.withInterpreter e) d }, _⟩ :
      Fetch × World) = _
    rw [hdownloader later e d]
    rfl
  · rfl

theorem CacheBlind.keep (h : l.CacheBlind) (d : Descriptor) (bytes : Bytes) (world : World)
    (e : Interpreter) :
    l.keep d bytes (world.withInterpreter e) = (l.keep d bytes world).withInterpreter e := by
  unfold Loader.keep
  cases hkeeping : l.keeping d with
  | none => rfl
  | some kept =>
    obtain ⟨cache, hash⟩ := kept
    exact congrArg Prod.snd ((h.keeping hkeeping).put hash bytes world e)

theorem CacheBlind.land (h : l.CacheBlind) (f : Fetch) : World.Blind (l.land f) := by
  intro world e
  unfold Loader.land
  split_ifs
  · rfl
  · cases f.delivery.outcome with
    | error error => rfl
    | ok bytes => rfl
  · cases f.delivery.outcome with
    | error error => rfl
    | ok bytes =>
      dsimp only
      rw [h.keep]

/-- Landing a fetch looks no further than decoding does. -/
theorem CacheBlind.finish {α : Type} (h : l.CacheBlind) (run : RunId) {decoder : Decoder α}
    (f : Fetch) (hdecoder : ∀ bytes, Pares run (decoder f.descriptor bytes)) :
    Pares run (l.finish decoder f) := by
  intro world
  unfold Loader.finish
  rw [(h.land f).pares run world]
  obtain ⟨error | bytes, later⟩ := l.land f world
  · rfl
  · exact hdecoder bytes later

end Loader

namespace Decoder

variable {run : RunId}

theorem pares_loadDocument (registry : Registry) (d : Descriptor) (text : String) :
    Pares run (loadDocument registry d text) := by
  intro world
  unfold loadDocument
  rw [show (world.pared run).interpreter = world.interpreter.pared run from rfl,
    Interpreter.load_pared]
  obtain ⟨error | handle, interpreter⟩ := world.interpreter.load registry text <;> rfl

theorem pares_blueprint (registry : Registry) (supported : VersionRange) (d : Descriptor)
    (bytes : Bytes) : Pares run (blueprint registry supported d bytes) := by
  intro world
  unfold blueprint
  cases Text.ofUtf8 bytes with
  | error fault => rfl
  | ok text =>
    dsimp only
    cases checkVersion supported d text with
    | error e => rfl
    | ok _ => exact pares_loadDocument registry d text world

theorem blind_shared {α : Type} (decode : Descriptor → Bytes → Except ResolveError α)
    (d : Descriptor) (bytes : Bytes) : World.Blind (shared decode d bytes) := by
  intro world e
  unfold shared
  cases decode d bytes <;> rfl

end Decoder

namespace Provider

theorem blind_valued {α : Type} {decoder : Decoder α} (value : α → Value) {d : Descriptor}
    {bytes : Bytes} (h : World.Blind (decoder d bytes)) :
    World.Blind (assetDecoder.valued decoder value d bytes) := by
  intro world e
  unfold assetDecoder.valued
  rw [h world e]

theorem blind_assetDecoder (form : AssetForm) (d : Descriptor) (bytes : Bytes) :
    World.Blind (assetDecoder form d bytes) := by
  cases form with
  | texture => exact blind_valued _ (Decoder.blind_shared _ d bytes)
  | mesh => exact blind_valued _ (Decoder.blind_shared _ d bytes)
  | json =>
    have hpure : World.Blind (Decoder.pure Decoder.anyJson d bytes) := fun _ _ ↦ rfl
    exact blind_valued _ hpure

/-- The cache and the downloaders do not look at the interpreter. -/
structure Blind (p : Provider) : Prop where
  cache : ∀ cache, p.cache = some cache → cache.Blind
  downloaders : ∀ downloader ∈ p.downloaders, downloader.Blind
  fallback : p.fallback.Blind

variable {p : Provider}

theorem Blind.select (h : p.Blind) (d : Descriptor) : (p.select d).Blind := by
  unfold Provider.select
  cases hfind : p.downloaders.find? fun downloader ↦ downloader.accepts d with
  | none => exact h.fallback
  | some downloader => exact h.downloaders downloader (List.mem_of_find?_eq_some hfind)

/-- With a blind provider a fetch is begun without a look at the interpreter. -/
theorem Blind.start (h : p.Blind) (d : Descriptor) : World.Blind ((p.loaderFor d).start d) :=
  Loader.blind_start (l := p.loaderFor d) h.cache (h.select d) d

theorem Blind.registerFiles (h : p.Blind) {files : Files} {paths : List Path} {later : Provider}
    (hfiles : p.registerFiles files paths = .ok later) : later.Blind := by
  induction paths generalizing p with
  | nil =>
    obtain rfl := Except.ok.inj hfiles
    exact h
  | cons path rest ih =>
    rw [Provider.registerFiles] at hfiles
    cases hcatalog : Catalog.ofFile files path with
    | error e =>
      rw [hcatalog] at hfiles
      cases hfiles
    | ok catalog =>
      rw [hcatalog] at hfiles
      exact ih (p := (p.registerCatalog catalog).2) ⟨h.cache, h.downloaders, h.fallback⟩ hfiles

/-- The cache that settings describe is blind. -/
theorem blind_open {settings : CacheSettings} {around : Surroundings} {opened : Option Cache}
    (hopen : settings.open_ around = .ok opened) (cache : Cache) (hcache : opened = some cache) :
    cache.Blind := by
  unfold CacheSettings.open_ at hopen
  cases hkind : settings.kind with
  | none =>
    rw [hkind, hcache] at hopen
    cases hopen
  | memory =>
    rw [hkind, hcache] at hopen
    cases hopen
    exact Cache.blind_memory
  | disk =>
    rw [hkind, hcache] at hopen
    cases hopen
    exact Cache.blind_disk _
  | redis =>
    rw [hkind, hcache] at hopen
    dsimp only at hopen
    split_ifs at hopen
    cases hopen
    exact Cache.blind_shared _

/-- Every provider that a configuration describes is blind. -/
theorem blind_ofConfig {config : Config} {registry : Registry} {around : Surroundings}
    {files : Files} (h : ofConfig config registry around files = .ok p) : p.Blind := by
  unfold ofConfig at h
  simp only [bind, Except.bind] at h
  split at h
  · cases h
  · cases hopen : config.cache.open_ around with
    | error e =>
      rw [hopen] at h
      cases h
    | ok opened =>
      rw [hopen] at h
      refine Blind.registerFiles ?_ h
      exact ⟨blind_open hopen, fun _ hmem ↦ (nomatch hmem), Downloader.blind_general _ _⟩

end Provider

end Blueprint

import Blueprint.Proofs.Table
import Blueprint.Provider.Basic

/-!
What is downloaded, and how often, by a provider that keeps bytes in memory. A call fetches the
bytes of a resource (`Loader.fetch`): from the table, or else from a downloader, and then only what
came in time is put into the table. What is made of the bytes afterwards does not matter.

So bytes under a hash are downloaded at most once over any history of calls (`Provider.History`),
whichever resources the calls name, and whatever their decoders do (`downloaded_once_of_calls`).
-/

set_option autoImplicit false

namespace Blueprint

namespace Decoder

/-- What is cached, and who was asked, is left as it is. -/
def Abstains {α : Type} (decoder : Decoder α) : Prop :=
  ∀ d bytes world, (decoder d bytes world).2.cached = world.cached ∧
    (decoder d bytes world).2.asked = world.asked

variable {α : Type}

theorem abstains_pure (decode : Descriptor → Bytes → Except ResolveError α) :
    (pure decode).Abstains := fun _ _ _ ↦ ⟨rfl, rfl⟩

theorem abstains_shared (decode : Descriptor → Bytes → Except ResolveError α) :
    (shared decode).Abstains := by
  intro d bytes world
  unfold shared
  split <;> exact ⟨rfl, rfl⟩

theorem abstains_blueprint (registry : Registry) (supported : VersionRange) :
    (blueprint registry supported).Abstains := by
  intro d bytes world
  unfold blueprint
  split
  · exact ⟨rfl, rfl⟩
  · split
    · exact ⟨rfl, rfl⟩
    · unfold loadDocument
      dsimp only
      split <;> exact ⟨rfl, rfl⟩

/-- A decoder that takes some time, and is given up when the deadline of the loader passes meanwhile;
the fetch before it has taken some time as well. -/
def within (l : Loader) (spent : Nat) (takes : Bytes → Nat) (decoder : Decoder α) : Decoder α :=
  fun d bytes world ↦
    if l.isLate (spent + takes bytes) then
      (.error (.deadlineExceeded d.id.text (l.deadline.getD 0)), world)
    else decoder d bytes world

theorem Abstains.within {decoder : Decoder α} (h : decoder.Abstains) (l : Loader) (spent : Nat)
    (takes : Bytes → Nat) : (decoder.within l spent takes).Abstains := by
  intro d bytes world
  unfold Decoder.within
  split_ifs
  · exact ⟨rfl, rfl⟩
  · exact h d bytes world

end Decoder

namespace Loader

/-- Has the bytes of a resource in hand. -/
def fetch (l : Loader) (d : Descriptor) (world : World) : Except ResolveError Bytes × World :=
  let (f, world) := l.start d world
  l.land f world

/-- What a downloader delivers before the deadline. -/
def delivered (l : Loader) (d : Descriptor) (world : World) : Except ResolveError Bytes :=
  let delivery := l.downloader.download world d
  if l.isLate delivery.after then .error (.deadlineExceeded d.id.text (l.deadline.getD 0))
  else delivery.outcome

/-- The world after the downloader was asked. -/
def asking (l : Loader) (d : Descriptor) (world : World) : World :=
  { world with asked := world.asked ++ [(l.downloader.name, d.uri)] }

variable {l : Loader} {d : Descriptor} {hash : String} {bytes : Bytes}

theorem descriptor_start (l : Loader) (d : Descriptor) (world : World) :
    (l.start d world).1.descriptor = d := by
  unfold start
  split <;> rfl

theorem resolve_eq {α : Type} (l : Loader) (decoder : Decoder α) (d : Descriptor) (world : World) :
    l.resolve decoder d world =
      match l.fetch d world with
      | (.ok bytes, world) => decoder d bytes world
      | (.error e, world) => (.error e, world) := by
  unfold resolve finish fetch
  dsimp only
  rcases l.land (l.start d world).1 (l.start d world).2 with ⟨_ | bytes, later⟩
  · rfl
  · exact congrArg (decoder · bytes later) (descriptor_start l d world)

theorem preload_eq (l : Loader) (d : Descriptor) (world : World) :
    l.preload d world = ((l.fetch d world).1.map fun _ ↦ (), (l.fetch d world).2) := rfl

theorem keeping_of_unhashed (hhash : d.hash = none) : l.keeping d = none := by
  unfold keeping
  rw [hhash]
  split
  · rename_i hsome
    cases hsome
  · rfl

theorem keeping_of_hashed (hcache : l.cache = some .memory) (hhash : d.hash = some hash) :
    l.keeping d = some (.memory, hash) := by
  rw [keeping, hcache, hhash]

/-- Assumes: nothing was found in the cache. What is delivered is kept, where there is a place. -/
theorem fetch_of_look {world later : World} (hlook : l.look d world = (none, later)) :
    l.fetch d world = (l.delivered d later,
      match l.delivered d later with
      | .ok bytes => l.keep d bytes (l.asking d later)
      | .error _ => l.asking d later) := by
  have hstart : l.start d world =
      ({ descriptor := d, delivery := l.downloader.download later d }, l.asking d later) := by
    unfold start
    rw [hlook]
    rfl
  unfold fetch land delivered
  rw [hstart]
  dsimp only
  by_cases hlate : l.isLate (l.downloader.download later d).after = true
  · rw [if_pos hlate, if_pos hlate]
  · rw [if_neg hlate, if_neg hlate]
    cases (l.downloader.download later d).outcome <;> rfl

/-- Assumes: bytes were found in the cache. They are there at once. -/
theorem fetch_of_found {world later : World} (hlook : l.look d world = (some bytes, later)) :
    l.fetch d world = (.ok bytes, later) := by
  have hlate : l.isLate 0 = false := by
    unfold isLate
    cases l.deadline <;> rfl
  unfold fetch start
  rw [hlook]
  simp only [land, hlate, Bool.false_eq_true, ↓reduceIte]

/-- Without a hash the downloader is asked, and nothing is kept. -/
theorem fetch_of_unhashed (hhash : d.hash = none) (world : World) :
    l.fetch d world = (l.delivered d world, l.asking d world) := by
  have hkeeping : l.keeping d = none := keeping_of_unhashed hhash
  have hlook : l.look d world = (none, world) := by rw [look, hkeeping]
  rw [fetch_of_look hlook]
  cases l.delivered d world with
  | error e => rfl
  | ok bytes => simp only [keep, hkeeping]

theorem fetch_of_hit (hcache : l.cache = some .memory) (hhash : d.hash = some hash)
    {world : World} (hget : world.cached.get? hash = some bytes) :
    l.fetch d world = (.ok bytes, world) := by
  have hlook : l.look d world = (some bytes, world) := by
    rw [look, keeping_of_hashed hcache hhash]
    simp only [Cache.memory, hget]
  exact fetch_of_found hlook

theorem fetch_of_miss (hcache : l.cache = some .memory) (hhash : d.hash = some hash)
    {world : World} (hget : world.cached.get? hash = none) :
    l.fetch d world = (l.delivered d world,
      match l.delivered d world with
      | .ok bytes => { l.asking d world with cached := world.cached.insert hash bytes }
      | .error _ => l.asking d world) := by
  have hlook : l.look d world = (none, world) := by
    rw [look, keeping_of_hashed hcache hhash]
    simp only [Cache.memory, hget]
  rw [fetch_of_look hlook]
  cases l.delivered d world with
  | error e => rfl
  | ok bytes =>
    simp only [keep, keeping_of_hashed hcache hhash]
    rfl

/-- Who is asked, is asked once. -/
theorem asked_asking_ne (l : Loader) (d : Descriptor) (world : World) :
    (l.asking d world).asked ≠ world.asked := by
  intro hsame
  have hlength := congrArg List.length hsame
  simp [asking] at hlength

end Loader

namespace Provider

/-- A call that is made of a provider: of the world, the decoder of a resource leaves alone what is
cached and who was asked. -/
inductive Call where
  | resolve {α : Type} (decoder : Decoder α) (habstains : decoder.Abstains) (id : String)
  | preload (id : String)

namespace Call

def id : Call → String
  | .resolve _ _ id | .preload id => id

/-- The world after a call. -/
def after (p : Provider) (world : World) : Call → World
  | .resolve decoder _ id => (p.resolve decoder id world).2
  | .preload id => (p.preload id world).2

/-- What a call comes to that works on some bytes. -/
def WorksOn (p : Provider) (world : World) (d : Descriptor) (bytes : Bytes) : Call → Prop
  | .resolve decoder _ id => p.resolve decoder id world = decoder d bytes world
  | .preload id => p.preload id world = (.ok (), world)

end Call

/-- A call that was made, of a provider as it was then. -/
structure Made where
  provider : Provider
  world : World
  call : Call

namespace Made

def loader (c : Made) (d : Descriptor) : Loader := c.provider.loaderFor d

/-- What the call has in hand before it decodes, and the world then. -/
def fetched (c : Made) (d : Descriptor) : Except ResolveError Bytes × World :=
  (c.provider.loaderFor d).fetch d c.world

/-- The world after the call. -/
def after (c : Made) : World := c.call.after c.provider c.world

/-- The call has downloaded bytes for a resource with a hash. -/
def Downloaded (c : Made) (hash : String) (bytes : Bytes) : Prop :=
  ∃ d, c.provider.lookup c.call.id = .ok d ∧ d.hash = some hash ∧
    (c.fetched d).1 = .ok bytes ∧ (c.fetched d).2.asked ≠ c.world.asked

end Made

/-- Calls that are made of a provider one after another, with what was done to it and around it in
between. -/
inductive History (p : Provider) (world : World) : List Made → Provider → World → Prop
  | start : History p world [] p world
  | called {made : List Made} {p' : Provider} {world' : World} (h : History p world made p' world')
      (call : Call) : History p world (made ++ [⟨p', world', call⟩]) p' (call.after p' world')
  | registeredCatalog {made : List Made} {p' : Provider} {world' : World}
      (h : History p world made p' world') (catalog : Catalog) :
      History p world made (p'.registerCatalog catalog).2 world'
  | registeredDownloader {made : List Made} {p' : Provider} {world' : World}
      (h : History p world made p' world') (downloader : Downloader) :
      History p world made (p'.registerDownloader downloader) world'
  /-- Something else changes, such as the resources themselves. -/
  | changed {made : List Made} {p' : Provider} {world' : World} (h : History p world made p' world')
      (later : World) (hcached : later.cached = world'.cached) (hasked : later.asked = world'.asked) :
      History p world made p' later

variable {p p' : Provider} {w w' : World} {made before rest : List Made} {c : Made} {d : Descriptor}
  {hash : String} {bytes : Bytes}

namespace Made

/-- Without a resource of that id nothing happens. -/
theorem after_of_unknown {e : ResolveError} (hlookup : c.provider.lookup c.call.id = .error e) :
    c.after = c.world := by
  obtain ⟨p, w, call⟩ := c
  cases call with
  | resolve decoder habstains id =>
    change (p.resolve decoder id w).2 = w
    rw [resolve, show p.lookup id = .error e from hlookup]
  | preload id =>
    change (p.preload id w).2 = w
    rw [preload, show p.lookup id = .error e from hlookup]

/-- A call caches and asks what its fetch does. -/
theorem after_of_lookup (hlookup : c.provider.lookup c.call.id = .ok d) :
    c.after.cached = (c.fetched d).2.cached ∧ c.after.asked = (c.fetched d).2.asked := by
  obtain ⟨p, w, call⟩ := c
  cases call with
  | resolve decoder habstains id =>
    change (p.resolve decoder id w).2.cached = ((p.loaderFor d).fetch d w).2.cached ∧
      (p.resolve decoder id w).2.asked = ((p.loaderFor d).fetch d w).2.asked
    rw [resolve, show p.lookup id = .ok d from hlookup]
    dsimp only
    rw [Loader.resolve_eq]
    rcases (p.loaderFor d).fetch d w with ⟨_ | bytes, later⟩
    · exact ⟨rfl, rfl⟩
    · exact habstains d bytes later
  | preload id =>
    change (p.preload id w).2.cached = ((p.loaderFor d).fetch d w).2.cached ∧
      (p.preload id w).2.asked = ((p.loaderFor d).fetch d w).2.asked
    rw [preload, show p.lookup id = .ok d from hlookup]
    exact ⟨rfl, rfl⟩

theorem worksOn_of_fetched (hlookup : c.provider.lookup c.call.id = .ok d)
    (hfetched : c.fetched d = (.ok bytes, c.world)) :
    c.call.WorksOn c.provider c.world d bytes := by
  obtain ⟨p, w, call⟩ := c
  have hfetch : (p.loaderFor d).fetch d w = (.ok bytes, w) := hfetched
  cases call with
  | resolve decoder habstains id =>
    change p.resolve decoder id w = decoder d bytes w
    rw [resolve, show p.lookup id = .ok d from hlookup]
    dsimp only
    rw [Loader.resolve_eq, hfetch]
  | preload id =>
    change p.preload id w = (.ok (), w)
    rw [preload, show p.lookup id = .ok d from hlookup]
    dsimp only
    rw [Loader.preload_eq, hfetch]
    rfl

theorem downloaded_iff (hlookup : c.provider.lookup c.call.id = .ok d) :
    c.Downloaded hash bytes ↔
      d.hash = some hash ∧ (c.fetched d).1 = .ok bytes ∧ (c.fetched d).2.asked ≠ c.world.asked := by
  constructor
  · rintro ⟨other, hother, hdownloaded⟩
    obtain rfl := Except.ok.inj (hlookup.symm.trans hother)
    exact hdownloaded
  · exact fun hdownloaded ↦ ⟨d, hlookup, hdownloaded⟩

/-- A call leaves what is cached as it is, or it downloads bytes and they are cached under a hash
that was not there before. -/
theorem cached_after (hcache : c.provider.cache = some .memory) :
    (c.after.cached = c.world.cached ∧ ∀ hash bytes, ¬ c.Downloaded hash bytes) ∨
      ∃ hash bytes, c.world.cached.get? hash = none ∧
        c.after.cached = c.world.cached.insert hash bytes ∧
        ∀ other content, c.Downloaded other content ↔ other = hash ∧ content = bytes := by
  cases hlookup : c.provider.lookup c.call.id with
  | error e =>
    refine .inl ⟨by rw [after_of_unknown hlookup], fun hash bytes ⟨d, hfound, _⟩ ↦ ?_⟩
    cases hlookup.symm.trans hfound
  | ok d =>
    have hloader : (c.provider.loaderFor d).cache = some .memory := hcache
    rw [(after_of_lookup hlookup).1]
    simp only [downloaded_iff hlookup]
    cases hhash : d.hash with
    | none =>
      refine .inl ⟨?_, fun hash bytes hdownloaded ↦ by cases hdownloaded.1⟩
      rw [fetched, Loader.fetch_of_unhashed hhash]
      rfl
    | some hash =>
      cases hget : c.world.cached.get? hash with
      | some bytes =>
        rw [fetched, Loader.fetch_of_hit hloader hhash hget]
        exact .inl ⟨rfl, fun _ _ hdownloaded ↦ hdownloaded.2.2 rfl⟩
      | none =>
        rw [fetched, Loader.fetch_of_miss hloader hhash hget]
        cases hdelivered : (c.provider.loaderFor d).delivered d c.world with
        | error e =>
          exact .inl ⟨rfl, fun _ _ hdownloaded ↦ by cases hdownloaded.2.1⟩
        | ok bytes =>
          refine .inr ⟨hash, bytes, hget, rfl, fun other content ↦ ?_⟩
          have hasked := Loader.asked_asking_ne (c.provider.loaderFor d) d c.world
          constructor
          · rintro ⟨hother, hcontent, -⟩
            exact ⟨(Option.some.inj hother).symm, (Except.ok.inj hcontent).symm⟩
          · rintro ⟨rfl, rfl⟩
            exact ⟨rfl, rfl, hasked⟩

end Made

/-- What is cached is what was downloaded. -/
structure Ledger (made : List Made) (p : Provider) (world : World) : Prop where
  cache_eq : p.cache = some .memory
  cached_iff : ∀ hash bytes, world.cached.get? hash = some bytes ↔ ∃ c ∈ made, c.Downloaded hash bytes

theorem Ledger.called (h : Ledger made p w) (call : Call) :
    Ledger (made ++ [⟨p, w, call⟩]) p (call.after p w) := by
  refine ⟨h.cache_eq, fun hash bytes ↦ ?_⟩
  have hlast (P : Made → Prop) :
      (∃ c ∈ made ++ [⟨p, w, call⟩], P c) ↔ (∃ c ∈ made, P c) ∨ P ⟨p, w, call⟩ := by
    simp only [List.mem_append, List.mem_singleton, or_and_right, exists_or, exists_eq_left]
  rw [hlast, ← h.cached_iff]
  obtain ⟨hcached, hnone⟩ | ⟨other, content, hget, hcached, hdownloaded⟩ :=
    Made.cached_after (c := ⟨p, w, call⟩) h.cache_eq
  · rw [show call.after p w = Made.after ⟨p, w, call⟩ from rfl, hcached, or_iff_left (hnone _ _)]
  · rw [show call.after p w = Made.after ⟨p, w, call⟩ from rfl, hcached, hdownloaded,
      Table.get?_insert]
    by_cases hother : other = hash
    · subst hother
      rw [if_pos rfl, hget, Option.some.injEq]
      simp [eq_comm]
    · rw [if_neg hother, or_iff_left fun hnew ↦ hother hnew.1.symm]

theorem History.ledger (h : History p w made p' w') (hcache : p.cache = some .memory)
    (hempty : w.cached = {}) : Ledger made p' w' := by
  induction h with
  | start =>
    refine ⟨hcache, fun hash bytes ↦ ⟨fun hget ↦ ?_, fun ⟨_, hmem, _⟩ ↦ nomatch hmem⟩⟩
    rw [hempty] at hget
    cases hget
  | called _ call ih => exact ih.called call
  | registeredCatalog _ catalog ih => exact ⟨ih.cache_eq, ih.cached_iff⟩
  | registeredDownloader _ downloader ih => exact ⟨ih.cache_eq, ih.cached_iff⟩
  | changed _ later hcached _ ih => exact ⟨ih.cache_eq, hcached ▸ ih.cached_iff⟩

/-- A history up to one of its calls. -/
theorem History.upTo (h : History p w made p' w') (hmade : made = before ++ c :: rest) :
    History p w before c.provider c.world := by
  induction h generalizing rest with
  | start => exact absurd hmade.symm (by simp)
  | @called made p' w' h call ih =>
    rcases List.eq_nil_or_concat rest with rfl | ⟨middle, last, rfl⟩
    · obtain ⟨rfl, hlast⟩ := List.append_inj' hmade rfl
      obtain rfl := List.singleton_inj.mp hlast
      exact h
    · rw [List.concat_eq_append, ← List.cons_append, ← List.append_assoc] at hmade
      exact ih (List.append_inj' hmade rfl).1
  | registeredCatalog _ _ ih => exact ih hmade
  | registeredDownloader _ _ ih => exact ih hmade
  | changed _ _ _ _ ih => exact ih hmade

/-- Over any history of calls on a provider whose cache in memory was empty at its start: once bytes
have been downloaded for a hash, every later call for a resource with that hash works on these bytes,
and asks nobody; as long as they have not been, such a call asks once, and caches what is delivered
in time; without a hash a call asks once, and takes no notice of the cache; and what is cached stays
as it is. -/
theorem downloaded_once_of_calls (hcache : p.cache = some .memory) (hempty : w.cached = {})
    (hhistory : History p w (before ++ c :: rest) p' w') :
    (∀ d, c.provider.lookup c.call.id = .ok d →
      (∀ hash bytes, d.hash = some hash → (∃ earlier ∈ before, earlier.Downloaded hash bytes) →
        c.fetched d = (.ok bytes, c.world) ∧ c.call.WorksOn c.provider c.world d bytes ∧
          c.after.asked = c.world.asked ∧ c.after.cached = c.world.cached) ∧
      (∀ hash, d.hash = some hash → (∀ earlier ∈ before, ∀ bytes, ¬ earlier.Downloaded hash bytes) →
        (c.fetched d).1 = (c.provider.loaderFor d).delivered d c.world ∧
          c.after.asked = c.world.asked ++ [((c.provider.select d).name, d.uri)] ∧
          c.after.cached = match (c.fetched d).1 with
            | .ok bytes => c.world.cached.insert hash bytes
            | .error _ => c.world.cached) ∧
      (d.hash = none →
        (c.fetched d).1 = (c.provider.loaderFor d).delivered d c.world ∧
          c.after.asked = c.world.asked ++ [((c.provider.select d).name, d.uri)] ∧
          c.after.cached = c.world.cached)) ∧
    (∀ e, c.provider.lookup c.call.id = .error e → c.after = c.world) ∧
    ∀ hash bytes, c.world.cached.get? hash = some bytes → w'.cached.get? hash = some bytes := by
  have hbefore := (hhistory.upTo rfl).ledger hcache hempty
  have hloader (d : Descriptor) : (c.provider.loaderFor d).cache = some .memory := hbefore.cache_eq
  refine ⟨fun d hlookup ↦ ?_, fun e ↦ Made.after_of_unknown, fun hash bytes hcached ↦ ?_⟩
  · obtain ⟨hcached, hasked⟩ := Made.after_of_lookup hlookup
    rw [hcached, hasked]
    refine ⟨fun hash bytes hhash hearlier ↦ ?_, fun hash hhash hnone ↦ ?_, fun hhash ↦ ?_⟩
    · have hfetched : c.fetched d = (.ok bytes, c.world) :=
        Loader.fetch_of_hit (hloader d) hhash ((hbefore.cached_iff hash bytes).mpr hearlier)
      exact ⟨hfetched, Made.worksOn_of_fetched hlookup hfetched, by rw [hfetched], by rw [hfetched]⟩
    · have hget : c.world.cached.get? hash = none := by
        refine Option.eq_none_iff_forall_ne_some.mpr fun bytes hget ↦ ?_
        obtain ⟨earlier, hmem, hdownloaded⟩ := (hbefore.cached_iff hash bytes).mp hget
        exact hnone earlier hmem bytes hdownloaded
      rw [Made.fetched, Loader.fetch_of_miss (hloader d) hhash hget]
      cases (c.provider.loaderFor d).delivered d c.world <;> exact ⟨rfl, rfl, rfl⟩
    · rw [Made.fetched, Loader.fetch_of_unhashed hhash]
      exact ⟨rfl, rfl, rfl⟩
  · obtain ⟨earlier, hmem, hdownloaded⟩ := (hbefore.cached_iff hash bytes).mp hcached
    exact ((hhistory.ledger hcache hempty).cached_iff hash bytes).mpr
      ⟨earlier, List.mem_append_left _ hmem, hdownloaded⟩

/-! ### Two resources with one hash -/

/-- A picture and a plain resource that are kept under one hash. -/
def twinPicture : Descriptor where
  id := ⟨"picture", by decide⟩
  uri := "mem:picture"
  hash := some "twin"
  kind := .texture

def twinBytes : Descriptor where
  id := ⟨"bytes", by decide⟩
  uri := "mem:bytes"
  hash := some "twin"
  kind := .other "bytes"

def twins : Provider where
  catalog :=
    { version := ⟨1, 0, 0⟩
      entries := [twinPicture, twinBytes]
      index := .ofList [("picture", 0), ("bytes", 1)] }
  fallback := .published "mem" none 3
  cache := some .memory
  deadline := some 10

/-- A world in which both can be downloaded. -/
def twinWorld : World where
  published := .ofList [("mem:picture", [1]), ("mem:bytes", [2])]

/-- The picture takes too long to be decoded. -/
def slowCall : Call :=
  .resolve ((Decoder.shared Decoder.texture).within (twins.loaderFor twinPicture) 3 fun _ ↦ 7)
    ((Decoder.abstains_shared _).within _ _ _) "picture"

def rawCall : Call := .resolve .raw (Decoder.abstains_pure _) "bytes"

/-- The bytes that were downloaded for the picture are those of the other resource as well. -/
theorem downloaded_once_of_twins :
    let between := slowCall.after twins twinWorld
    twins.resolve ((Decoder.shared Decoder.texture).within (twins.loaderFor twinPicture) 3 fun _ ↦ 7)
        "picture" twinWorld = (.error (.deadlineExceeded "picture" 10), between) ∧
      between.asked = [("mem", "mem:picture")] ∧
      rawCall.WorksOn twins between twinBytes [1] ∧
      (rawCall.after twins between).asked = between.asked := by
  intro between
  have hhistory : History twins twinWorld
      ([⟨twins, twinWorld, slowCall⟩] ++ [⟨twins, between, rawCall⟩]) twins
      (rawCall.after twins between) :=
    .called (.called .start slowCall) rawCall
  have hdownloaded : Made.Downloaded ⟨twins, twinWorld, slowCall⟩ "twin" [1] :=
    ⟨twinPicture, rfl, rfl, rfl, by decide⟩
  obtain ⟨-, hworks, hasked, -⟩ := ((downloaded_once_of_calls rfl rfl hhistory).1 twinBytes rfl).1
    "twin" [1] rfl ⟨_, List.mem_singleton_self _, hdownloaded⟩
  exact ⟨rfl, rfl, hworks, hasked⟩

end Provider

end Blueprint

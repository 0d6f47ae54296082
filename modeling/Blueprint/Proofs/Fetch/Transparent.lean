import Blueprint.Proofs.Fetch.Once
import Mathlib.Data.List.Permutation

/-!
A cache does not show. It may be one that fails to read and to write, that loses entries, and that
stores bytes although the write failed: as long as it finds nothing under a hash but bytes that were
put there (`Cache.Honest`), and resources with one hash have the same bytes to download, every call
has the same bytes in hand, and comes to the same, as without a cache
(`Loader.answers_eq_of_honest`).

Decoders work on a part of the world that no cache touches, the `Workshop`, so that what they make
of equal bytes is equal as long as the workshops were.
-/

set_option autoImplicit false

namespace Blueprint

/-- What decoders work with: the graphs that are loaded, and what is counted. -/
structure Workshop where
  interpreter : Interpreter
  loads : Nat
  references : Nat

namespace World

def workshop (world : World) : Workshop := ⟨world.interpreter, world.loads, world.references⟩

/-- The world with another workshop in it. -/
def withWorkshop (world : World) (shop : Workshop) : World :=
  { world with
    interpreter := shop.interpreter
    loads := shop.loads
    references := shop.references }

@[simp] theorem workshop_withWorkshop (world : World) (shop : Workshop) :
    (world.withWorkshop shop).workshop = shop := rfl

end World

namespace Decoder

variable {α : Type}

/-- The decoder sees nothing of the world but the workshop, and changes nothing else. -/
def Confined (decoder : Decoder α) : Prop :=
  ∀ d bytes, ∃ work : Workshop → Except ResolveError α × Workshop, ∀ world,
    decoder d bytes world = ((work world.workshop).1, world.withWorkshop (work world.workshop).2)

theorem confined_pure (decode : Descriptor → Bytes → Except ResolveError α) :
    (pure decode).Confined :=
  fun d bytes ↦ ⟨fun shop ↦ (decode d bytes, shop), fun _ ↦ rfl⟩

theorem confined_shared (decode : Descriptor → Bytes → Except ResolveError α) :
    (shared decode).Confined := by
  intro d bytes
  cases hdecode : decode d bytes with
  | ok content =>
    refine ⟨fun shop ↦ (.ok ⟨shop.references, content⟩,
      { shop with references := shop.references + 1 }), fun world ↦ ?_⟩
    simp only [shared, hdecode]
    rfl
  | error e =>
    refine ⟨fun shop ↦ (.error e, shop), fun world ↦ ?_⟩
    simp only [shared, hdecode]
    rfl

theorem confined_valued {β : Type} {decoder : Decoder β} (h : decoder.Confined)
    (value : β → Value) : Confined (Provider.assetDecoder.valued decoder value) := by
  intro d bytes
  obtain ⟨work, hwork⟩ := h d bytes
  refine ⟨fun shop ↦ ((work shop).1.map value, (work shop).2), fun world ↦ ?_⟩
  simp only [Provider.assetDecoder.valued, hwork]

theorem confined_assetDecoder (form : AssetForm) : (Provider.assetDecoder form).Confined := by
  cases form with
  | texture => exact confined_valued (confined_shared _) _
  | mesh => exact confined_valued (confined_shared _) _
  | json => exact confined_valued (confined_pure _) _

theorem confined_blueprint (registry : Registry) (supported : VersionRange) :
    (blueprint registry supported).Confined := by
  intro d bytes
  cases htext : Text.ofUtf8 bytes with
  | error fault =>
    refine ⟨fun shop ↦ (.error (.decode d.id.text "blueprint" fault.message), shop), fun world ↦ ?_⟩
    simp only [blueprint, htext]
    rfl
  | ok text =>
    cases hversion : checkVersion supported d text with
    | error e =>
      refine ⟨fun shop ↦ (.error e, shop), fun world ↦ ?_⟩
      simp only [blueprint, htext, hversion]
      rfl
    | ok version =>
      -- Loading a document is work on the interpreter of the workshop, in any world around it.
      let place (shop : Workshop) : World :=
        { interpreter := shop.interpreter, loads := shop.loads, references := shop.references }
      refine ⟨fun shop ↦ ((loadDocument registry d text (place shop)).1,
        (loadDocument registry d text (place shop)).2.workshop), fun world ↦ ?_⟩
      simp only [blueprint, htext, hversion, loadDocument, World.workshop, place]
      cases (world.interpreter.load registry text).1 <;> rfl

namespace Confined

variable {decoder : Decoder α} (h : decoder.Confined) (d : Descriptor) (bytes : Bytes)

include h

theorem after_eq (world : World) :
    (decoder d bytes world).2 = world.withWorkshop (decoder d bytes world).2.workshop := by
  obtain ⟨work, hwork⟩ := h d bytes
  rw [hwork, World.workshop_withWorkshop]

/-- With equal workshops the same is made of the same bytes. -/
theorem same {world other : World} (hshop : world.workshop = other.workshop) :
    (decoder d bytes world).1 = (decoder d bytes other).1 ∧
      (decoder d bytes world).2.workshop = (decoder d bytes other).2.workshop := by
  obtain ⟨work, hwork⟩ := h d bytes
  rw [hwork, hwork, hshop]
  exact ⟨rfl, rfl⟩

end Confined

end Decoder

namespace Cache

/-- What is owed by a cache whose entries in a world are what `holds` says. It finds only what it
holds, and comes to hold only what is put. Nothing is said of when it fails, of whether a write that
fails has stored the bytes, or of how long an entry stays. -/
structure Honest (cache : Cache) (holds : World → String → Bytes → Prop) : Prop where
  holds_of_found : ∀ world hash bytes,
    (cache.get hash world).1 = .ok (some bytes) → holds world hash bytes
  holds_of_get : ∀ world hash other bytes,
    holds (cache.get hash world).2 other bytes → holds world other bytes
  holds_of_put : ∀ world hash content other bytes,
    holds (cache.put hash content world).2 other bytes →
      (other = hash ∧ bytes = content) ∨ holds world other bytes
  /-- Downloads are no entries. -/
  holds_of_asked : ∀ world asked hash bytes,
    holds { world with asked } hash bytes → holds world hash bytes
  /-- What decoders do makes no entries. -/
  holds_of_workshop : ∀ world shop hash bytes,
    holds (world.withWorkshop shop) hash bytes → holds world hash bytes
  workshop_get : ∀ world hash, (cache.get hash world).2.workshop = world.workshop
  workshop_put : ∀ world hash content, (cache.put hash content world).2.workshop = world.workshop

theorem honest_memory :
    memory.Honest fun world hash bytes ↦ world.cached.get? hash = some bytes where
  holds_of_found world hash bytes hfound := Except.ok.inj hfound
  holds_of_get _ _ _ _ hholds := hholds
  holds_of_put world hash content other bytes hholds := by
    have hget : (world.cached.insert hash content).get? other = some bytes := hholds
    rw [Table.get?_insert] at hget
    split_ifs at hget with hother
    · exact Or.inl ⟨hother.symm, (Option.some.inj hget).symm⟩
    · exact Or.inr hget
  holds_of_asked _ _ _ _ hholds := hholds
  holds_of_workshop _ _ _ _ hholds := hholds
  workshop_get _ _ := rfl
  workshop_put _ _ _ := rfl

theorem get_shared (start hash : String) (world : World) :
    (shared start).get hash world =
      (if world.sharedReachable then .ok (world.shared.get? s!"{start}:{hash}")
        else .error .unreachable, world) := by
  change ask world _ = _
  unfold ask
  split_ifs <;> rfl

theorem put_shared (start hash : String) (content : Bytes) (world : World) :
    (shared start).put hash content world =
      if world.sharedReachable then
        (.ok (), { world with shared := world.shared.insert s!"{start}:{hash}" content })
      else (.error .unreachable, world) := by
  change ask world _ = _
  unfold ask
  split_ifs <;> rfl

/-- The shared store holds an entry whether or not it can be reached. -/
theorem honest_shared (start : String) : (shared start).Honest fun world hash bytes ↦
    world.shared.get? s!"{start}:{hash}" = some bytes where
  holds_of_found world hash bytes hfound := by
    rw [get_shared] at hfound
    dsimp only at hfound
    split_ifs at hfound
    exact Except.ok.inj hfound
  holds_of_get world hash other bytes hholds := by
    rwa [get_shared] at hholds
  holds_of_put world hash content other bytes hholds := by
    rw [put_shared] at hholds
    split_ifs at hholds
    · rw [Table.get?_insert] at hholds
      split_ifs at hholds with hkey
      · have hsame : toString other = toString hash := by simpa using hkey.symm
        exact Or.inl ⟨hsame, (Option.some.inj hholds).symm⟩
      · exact Or.inr hholds
    · exact Or.inr hholds
  holds_of_asked _ _ _ _ hholds := hholds
  holds_of_workshop _ _ _ _ hholds := hholds
  workshop_get world hash := by rw [get_shared]
  workshop_put world hash content := by
    rw [put_shared]
    split_ifs <;> rfl

/-- Whatever befalls its operations, an honest cache stays honest: a read that fails finds nothing,
and a write that fails stores the bytes or does not. -/
theorem Honest.faulty {cache : Cache} {holds : World → String → Bytes → Prop}
    (h : cache.Honest holds)
    (hcount : ∀ world hash bytes, holds (count world) hash bytes → holds world hash bytes)
    (faults : Nat → Fault) : (faulty faults cache).Honest holds where
  holds_of_found world hash bytes hfound := by
    unfold Cache.faulty at hfound
    dsimp only at hfound
    split_ifs at hfound
    exact hcount world hash bytes (h.holds_of_found _ _ _ hfound)
  holds_of_get world hash other bytes hholds := by
    unfold Cache.faulty at hholds
    dsimp only at hholds
    split_ifs at hholds
    · exact hcount world other bytes hholds
    · exact hcount world other bytes (h.holds_of_get _ _ _ _ hholds)
  holds_of_put world hash content other bytes hholds := by
    have hstored (hput : holds (cache.put hash content (count world)).2 other bytes) :
        (other = hash ∧ bytes = content) ∨ holds world other bytes :=
      (h.holds_of_put _ _ _ _ _ hput).imp_right (hcount world other bytes)
    unfold Cache.faulty at hholds
    dsimp only at hholds
    split_ifs at hholds
    · exact hstored hholds
    · exact Or.inr (hcount world other bytes hholds)
    · exact hstored hholds
  holds_of_asked := h.holds_of_asked
  holds_of_workshop := h.holds_of_workshop
  workshop_get world hash := by
    unfold Cache.faulty
    dsimp only
    split_ifs
    · rfl
    · exact h.workshop_get (count world) hash
  workshop_put world hash content := by
    unfold Cache.faulty
    dsimp only
    split_ifs
    · exact h.workshop_put (count world) hash content
    · rfl
    · exact h.workshop_put (count world) hash content

end Cache

namespace Loader

/-- A call: to resolve a resource with a decoder, or to preload it, by a downloader. -/
inductive Request where
  | resolve {α : Type} (downloader : Downloader) (d : Descriptor) (decoder : Decoder α)
    (hconfined : decoder.Confined)
  | preload (downloader : Downloader) (d : Descriptor)

/-- What a call comes to. -/
inductive Answer where
  /-- The bytes that the decoder was given, or why it was given none, and the outcome. -/
  | resolved {α : Type} (given : Except ResolveError Bytes) (outcome : Except ResolveError α)
  | preloaded (outcome : Except ResolveError Unit)

namespace Request

def downloader : Request → Downloader
  | .resolve downloader .. | .preload downloader _ => downloader

def descriptor : Request → Descriptor
  | .resolve _ d .. | .preload _ d => d

/-- The loader that serves a call, without a deadline. -/
def loader (cache : Option Cache) (r : Request) : Loader := { downloader := r.downloader, cache }

def serve (cache : Option Cache) (world : World) (r : Request) : Answer × World :=
  match r with
  | .resolve _ d decoder _ =>
    let (outcome, later) := (r.loader cache).resolve decoder d world
    (.resolved ((r.loader cache).fetch d world).1 outcome, later)
  | .preload _ d =>
    let (outcome, later) := (r.loader cache).preload d world
    (.preloaded outcome, later)

end Request

/-- What calls come to, one after another. -/
def answers (cache : Option Cache) : World → List Request → List Answer
  | _, [] => []
  | world, r :: rest => (r.serve cache world).1 :: answers cache (r.serve cache world).2 rest

/-- Whenever a call may have to download, its downloader has the outcome of the descriptor, at once
or after a time. -/
def Steady (outcome : Descriptor → Except ResolveError Bytes) (cache : Option Cache) :
    World → List Request → Prop
  | _, [] => True
  | world, r :: rest =>
    (r.downloader.download ((r.loader cache).look r.descriptor world).2 r.descriptor).outcome =
        outcome r.descriptor ∧
      Steady outcome cache (r.serve cache world).2 rest

variable {l : Loader} {cache : Cache} {holds : World → String → Bytes → Prop} {d : Descriptor}
  {outcome : Descriptor → Except ResolveError Bytes}

theorem delivered_of_no_deadline (hdeadline : l.deadline = none) (d : Descriptor) (world : World) :
    l.delivered d world = (l.downloader.download world d).outcome := by
  have hlate : l.isLate (l.downloader.download world d).after = false := by
    rw [isLate, hdeadline]
  simp only [delivered, hlate, Bool.false_eq_true, ↓reduceIte]

/-! ### One fetch -/

theorem keeping_eq_some {hash : String} (hkeeping : l.keeping d = some (cache, hash)) :
    l.cache = some cache ∧ d.hash = some hash := by
  unfold keeping at hkeeping
  split at hkeeping
  · rename_i hcache hhash
    obtain ⟨rfl, rfl⟩ := Prod.mk.inj (Option.some.inj hkeeping)
    exact ⟨hcache, hhash⟩
  · cases hkeeping

/-- What a look into an honest cache finds is held under the hash, and nothing is held afterwards
that was not before. -/
theorem look_honest (h : cache.Honest holds) (hcache : l.cache = some cache) (d : Descriptor)
    (world : World) :
    (l.look d world).2.workshop = world.workshop ∧
      (∀ other bytes, holds (l.look d world).2 other bytes → holds world other bytes) ∧
      ∀ bytes, (l.look d world).1 = some bytes →
        ∃ hash, d.hash = some hash ∧ holds world hash bytes := by
  unfold look
  cases hkeeping : l.keeping d with
  | none => exact ⟨rfl, fun _ _ hholds ↦ hholds, fun bytes hfound ↦ by cases hfound⟩
  | some kept =>
    obtain ⟨other, hash⟩ := kept
    obtain ⟨hother, hhash⟩ := keeping_eq_some hkeeping
    obtain rfl := Option.some.inj (hcache.symm.trans hother)
    have hfound := h.holds_of_found world hash
    have hget := h.holds_of_get world hash
    have hshop := h.workshop_get world hash
    dsimp only
    generalize cache.get hash world = reply at hfound hget hshop ⊢
    rcases reply with ⟨_ | found, later⟩
    · exact ⟨hshop, hget, fun bytes hfound ↦ by cases hfound⟩
    · exact ⟨hshop, hget, fun bytes hsome ↦ ⟨hash, hhash, hfound bytes (congrArg Except.ok hsome)⟩⟩

/-- Keeping bytes in an honest cache adds them under the hash at most. -/
theorem keep_honest (h : cache.Honest holds) (hcache : l.cache = some cache) (d : Descriptor)
    (bytes : Bytes) (world : World) :
    (l.keep d bytes world).workshop = world.workshop ∧
      ∀ other content, holds (l.keep d bytes world) other content →
        (d.hash = some other ∧ content = bytes) ∨ holds world other content := by
  unfold keep
  cases hkeeping : l.keeping d with
  | none => exact ⟨rfl, fun _ _ hholds ↦ Or.inr hholds⟩
  | some kept =>
    obtain ⟨other, hash⟩ := kept
    obtain ⟨hother, hhash⟩ := keeping_eq_some hkeeping
    obtain rfl := Option.some.inj (hcache.symm.trans hother)
    refine ⟨h.workshop_put world hash bytes, fun other content hholds ↦ ?_⟩
    obtain ⟨rfl, rfl⟩ | hbefore := h.holds_of_put world hash bytes other content hholds
    · exact Or.inl ⟨hhash, rfl⟩
    · exact Or.inr hbefore

/-- Assumes: an honest cache that holds nothing under the hash of a resource but the outcome of its
download. A fetch has that outcome, and adds nothing but it to the cache. -/
theorem fetch_honest (h : cache.Honest holds) (hcache : l.cache = some cache)
    (hdeadline : l.deadline = none) {world : World}
    (hsteady : (l.downloader.download (l.look d world).2 d).outcome = outcome d)
    (hholds : ∀ hash bytes, d.hash = some hash → holds world hash bytes → outcome d = .ok bytes) :
    (l.fetch d world).1 = outcome d ∧ (l.fetch d world).2.workshop = world.workshop ∧
      ∀ other bytes, holds (l.fetch d world).2 other bytes →
        (d.hash = some other ∧ outcome d = .ok bytes) ∨ holds world other bytes := by
  obtain ⟨hshop, hbefore, hfound⟩ := look_honest h hcache d world
  cases hlook : l.look d world with
  | mk found later =>
    rw [hlook] at hshop hbefore hfound hsteady
    cases found with
    | some bytes =>
      obtain ⟨hash, hhash, hheld⟩ := hfound bytes rfl
      rw [fetch_of_found hlook]
      exact ⟨(hholds hash bytes hhash hheld).symm, hshop,
        fun other content hlater ↦ Or.inr (hbefore other content hlater)⟩
    | none =>
      have hdelivered : l.delivered d later = outcome d :=
        (delivered_of_no_deadline hdeadline d later).trans hsteady
      have hasking (other : String) (content : Bytes)
          (hlater : holds (l.asking d later) other content) : holds world other content :=
        hbefore other content (h.holds_of_asked _ _ _ _ hlater)
      rw [fetch_of_look hlook, hdelivered]
      cases houtcome : outcome d with
      | error e =>
        exact ⟨rfl, hshop, fun other content hlater ↦ Or.inr (hasking other content hlater)⟩
      | ok bytes =>
        obtain ⟨hkept, hadded⟩ := keep_honest h hcache d bytes (l.asking d later)
        refine ⟨rfl, hkept.trans hshop, fun other content hlater ↦ ?_⟩
        obtain ⟨hhash, rfl⟩ | hold := hadded other content hlater
        · exact Or.inl ⟨hhash, rfl⟩
        · exact Or.inr (hasking other content hold)

theorem fetch_uncached (hcache : l.cache = none) (hdeadline : l.deadline = none) {world : World}
    (hsteady : (l.downloader.download (l.look d world).2 d).outcome = outcome d) :
    (l.fetch d world).1 = outcome d ∧ (l.fetch d world).2.workshop = world.workshop := by
  have hkeeping : l.keeping d = none := by
    unfold keeping
    rw [hcache]
  have hlook : l.look d world = (none, world) := by rw [look, hkeeping]
  rw [hlook] at hsteady
  rw [fetch_of_look hlook, delivered_of_no_deadline hdeadline, hsteady]
  cases outcome d with
  | error e => exact ⟨rfl, rfl⟩
  | ok bytes =>
    simp only [keep, hkeeping]
    exact ⟨trivial, rfl⟩

/-! ### One call, and all of them -/

namespace Request

/-- A call comes to the same with either cache when the bytes it has in hand, and the workshops
then, are the same. -/
theorem serve_eq (r : Request) {some_ other : Option Cache} {world besides : World}
    (hfetch : ((r.loader some_).fetch r.descriptor world).1 =
      ((r.loader other).fetch r.descriptor besides).1)
    (hshop : ((r.loader some_).fetch r.descriptor world).2.workshop =
      ((r.loader other).fetch r.descriptor besides).2.workshop) :
    (r.serve some_ world).1 = (r.serve other besides).1 ∧
      (r.serve some_ world).2.workshop = (r.serve other besides).2.workshop := by
  cases r with
  | resolve downloader d decoder hconfined =>
    unfold serve
    dsimp only [descriptor] at hfetch hshop ⊢
    rw [resolve_eq, resolve_eq]
    revert hfetch hshop
    rcases Loader.fetch _ d world with ⟨given, later⟩
    rcases Loader.fetch _ d besides with ⟨given', later'⟩
    rintro rfl hshop
    cases given with
    | error e => exact ⟨rfl, hshop⟩
    | ok bytes =>
      obtain ⟨houtcome, hafter⟩ := hconfined.same d bytes hshop
      exact ⟨congrArg (Answer.resolved (.ok bytes)) houtcome, hafter⟩
  | preload downloader d =>
    unfold serve
    dsimp only [descriptor] at hfetch hshop ⊢
    rw [preload_eq, preload_eq, hfetch]
    exact ⟨rfl, hshop⟩

/-- A call leaves in the cache what its fetch does. -/
theorem holds_of_serve (h : cache.Honest holds) (r : Request) {world : World} {hash : String}
    {bytes : Bytes} (hholds : holds (r.serve (some cache) world).2 hash bytes) :
    holds ((r.loader (some cache)).fetch r.descriptor world).2 hash bytes := by
  cases r with
  | resolve downloader d decoder hconfined =>
    unfold serve at hholds
    dsimp only [descriptor] at hholds ⊢
    rw [resolve_eq] at hholds
    revert hholds
    rcases Loader.fetch _ d world with ⟨_ | given, later⟩
    · exact id
    · intro hholds
      dsimp only at hholds
      rw [hconfined.after_eq] at hholds
      exact h.holds_of_workshop _ _ _ _ hholds
  | preload downloader d => exact hholds

end Request

/-- Resources with one hash have the same bytes to download, if they have any. -/
def Consistent (outcome : Descriptor → Except ResolveError Bytes) (requests : List Request) :
    Prop :=
  ∀ r ∈ requests, ∀ other ∈ requests, ∀ hash bytes, r.descriptor.hash = some hash →
    other.descriptor.hash = some hash → outcome r.descriptor = .ok bytes →
    outcome other.descriptor = .ok bytes

/-- Where something is held for a resource that will be asked for, it is what there is to
download. -/
def Faithful (holds : World → String → Bytes → Prop)
    (outcome : Descriptor → Except ResolveError Bytes) (requests : List Request) (world : World) :
    Prop :=
  ∀ r ∈ requests, ∀ hash bytes, r.descriptor.hash = some hash → holds world hash bytes →
    outcome r.descriptor = .ok bytes

/-- The calls with a cache and those without one go on side by side. -/
theorem answers_eq_of_faithful (h : cache.Honest holds) {requests : List Request}
    (hconsistent : Consistent outcome requests) {world besides : World}
    (hfaithful : Faithful holds outcome requests world)
    (hshop : world.workshop = besides.workshop)
    (hcached : Steady outcome (some cache) world requests)
    (hplain : Steady outcome none besides requests) :
    answers (some cache) world requests = answers none besides requests := by
  induction requests generalizing world besides with
  | nil => rfl
  | cons r rest ih =>
    obtain ⟨hsteady, hcached⟩ := hcached
    obtain ⟨hsteady', hplain⟩ := hplain
    obtain ⟨hgiven, hkept, hadded⟩ := fetch_honest (l := r.loader (some cache)) h rfl rfl hsteady
      fun hash bytes ↦ hfaithful r List.mem_cons_self hash bytes
    obtain ⟨hgiven', hkept'⟩ := fetch_uncached (l := r.loader none) rfl rfl hsteady'
    obtain ⟨hanswer, hafter⟩ := r.serve_eq (hgiven.trans hgiven'.symm)
      ((hkept.trans hshop).trans hkept'.symm)
    have hrest : Faithful holds outcome rest (r.serve (some cache) world).2 := by
      intro other hother hash bytes hhash hholds
      have hmem : other ∈ r :: rest := List.mem_cons_of_mem _ hother
      obtain ⟨hown, houtcome⟩ | hbefore := hadded hash bytes (r.holds_of_serve h hholds)
      · exact hconsistent r List.mem_cons_self other hmem hash bytes hown hhash houtcome
      · exact hfaithful other hmem hash bytes hhash hbefore
    have hfewer : Consistent outcome rest := fun first hfirst other hother ↦
      hconsistent first (List.mem_cons_of_mem _ hfirst) other (List.mem_cons_of_mem _ hother)
    rw [answers, answers, hanswer, ih hfewer hrest hafter hcached hplain]

/-- The cache is transparent. Assumes: a cache that is honest and at first holds nothing; calls
without a deadline, in both histories of which each download of a descriptor has one outcome; and
descriptors with one hash that have the same bytes to download. Each call has the same bytes in hand
and comes to the same as without a cache, whatever reads and writes of the cache fail. -/
theorem answers_eq_of_honest (h : cache.Honest holds) {world : World}
    (hempty : ∀ hash bytes, ¬ holds world hash bytes) {requests : List Request}
    (hcached : Steady outcome (some cache) world requests)
    (hplain : Steady outcome none world requests) (hconsistent : Consistent outcome requests) :
    answers (some cache) world requests = answers none world requests := by
  have hfaithful : Faithful holds outcome requests world :=
    fun _ _ hash bytes _ hholds ↦ absurd hholds (hempty hash bytes)
  exact answers_eq_of_faithful h hconsistent hfaithful rfl hcached hplain

/-! ### A cache that fails now and then -/

/-- The second operation fails and stores all the same, the third and the fourth fail. -/
def someFaults : Nat → Cache.Fault
  | 1 => { putFails := true, stores := true }
  | 2 => { getFails := true }
  | 3 => { putFails := true }
  | _ => {}

/-- A world in which two resources with one hash have the same bytes. -/
def sharedWorld : World where
  published := .ofList [("mem:picture", [1]), ("mem:bytes", [1])]

def published : Downloader := .published "mem" none 0

/-- Three calls for the two resources, and one for a resource that is not there. -/
def someRequests : List Request := [
  .resolve published Provider.twinPicture .raw (Decoder.confined_pure _),
  .resolve published Provider.twinBytes .raw (Decoder.confined_pure _),
  .preload published Provider.twinPicture,
  .preload published { Provider.twinBytes with uri := "mem:missing", hash := some "other" }]

/-- The first call stores, the second cannot read and downloads again, the third reads what the
first has stored. -/
theorem answers_eq_of_someFaults :
    let outcome (d : Descriptor) := (published.download sharedWorld d).outcome
    let cache := Cache.faulty someFaults .memory
    Steady outcome (some cache) sharedWorld someRequests ∧
      Steady outcome none sharedWorld someRequests ∧ Consistent outcome someRequests ∧
      answers (some cache) sharedWorld someRequests = answers none sharedWorld someRequests ∧
      answers none sharedWorld someRequests = [
        .resolved (.ok [1]) (.ok ([1] : Bytes)), .resolved (.ok [1]) (.ok ([1] : Bytes)),
        .preloaded (.ok ()),
        .preloaded (.error (.httpStatus "mem:missing" 404))] := by
  intro outcome cache
  have hcached : Steady outcome (some cache) sharedWorld someRequests :=
    ⟨by cbv, by cbv, by cbv, by cbv, trivial⟩
  have hplain : Steady outcome none sharedWorld someRequests :=
    ⟨by cbv, by cbv, by cbv, by cbv, trivial⟩
  have hoffered : ∀ r ∈ someRequests,
      (r.descriptor.hash = some "twin" ∧ outcome r.descriptor = .ok [1]) ∨
        (r.descriptor.hash = some "other" ∧ ∀ bytes, outcome r.descriptor ≠ .ok bytes) := by
    simp only [someRequests, List.forall_mem_cons]
    exact ⟨.inl ⟨rfl, rfl⟩, .inl ⟨rfl, rfl⟩, .inl ⟨rfl, rfl⟩, .inr ⟨rfl, fun _ hok ↦ by cases hok⟩,
      List.forall_mem_nil _⟩
  have hconsistent : Consistent outcome someRequests := by
    intro r hr other hother hash bytes hhash hhash' hok
    obtain ⟨htwin, hone⟩ | ⟨-, hnone⟩ := hoffered r hr
    · obtain ⟨-, hone'⟩ | ⟨hdifferent, -⟩ := hoffered other hother
      · exact hone'.trans (hone.symm.trans hok)
      · have hmixed : some "twin" = some "other" :=
          (htwin.symm.trans (hhash.trans hhash'.symm)).trans hdifferent
        exact absurd hmixed (by decide)
    · exact absurd hok (hnone bytes)
  have hhonest : cache.Honest fun world hash bytes ↦ world.cached.get? hash = some bytes :=
    Cache.honest_memory.faulty (fun _ _ _ hholds ↦ hholds) someFaults
  have hempty (hash : String) (bytes : Bytes) : sharedWorld.cached.get? hash ≠ some bytes :=
    fun hholds ↦ by cases hholds
  exact ⟨hcached, hplain, hconsistent,
    answers_eq_of_honest hhonest hempty hcached hplain hconsistent, rfl⟩

end Loader

end Blueprint

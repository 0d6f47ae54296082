import Blueprint.Proofs.Cache.Disk
import Blueprint.Proofs.Fetch.Transparent
import Blueprint.Provider.Configured

/-!
What a deadline does. A fetch rests while the downloader delivers, and may rest for no time at all
while the cache reads and writes and while the decoder works (`Loader.work`). A deadline drops the
work wherever it rests when the time is up (`Suspended.Ends`). Since only the delivery takes time,
it is there or nowhere that the work is dropped: the loader answers as such work ends
(`Loader.ends_work_iff`), so it comes to all that it would come to without a deadline, or to
nothing (`Loader.cutsOff_of_deadline`).
-/

set_option autoImplicit false

namespace Blueprint

/-- Work that is suspended now and then: it is done, or it rests for some milliseconds, leaving a
world behind meanwhile, and then goes on. -/
inductive Suspended (α : Type) where
  | done (outcome : Except ResolveError α) (world : World)
  | rest (pause : Nat) (meanwhile : World) (next : Suspended α)

namespace Suspended

variable {α : Type} {id : String} {limit : Option Nat} {spent pause t : Nat} {world : World}
  {next : Suspended α} {result : Except ResolveError α × World}

/-- Rests for no time in one world after another. -/
def pausing (meanwhile : List World) (next : Suspended α) : Suspended α :=
  meanwhile.foldr (rest 0) next

/-- How work that has taken some time ends under a limit: it goes on after a pause that is over by
then, and it is dropped where it rests when the pause lasts until then. At the very limit both are
possible. -/
inductive Ends (id : String) (limit : Option Nat) :
    Nat → Suspended α → Except ResolveError α × World → Prop
  | done {spent : Nat} (outcome : Except ResolveError α) (world : World) :
      Ends id limit spent (.done outcome world) (outcome, world)
  | resumed {spent pause : Nat} {meanwhile : World} {next : Suspended α}
      {result : Except ResolveError α × World} (hover : ∀ t, limit = some t → spent + pause ≤ t)
      (h : Ends id limit (spent + pause) next result) :
      Ends id limit spent (.rest pause meanwhile next) result
  | dropped {spent pause t : Nat} (meanwhile : World) (next : Suspended α)
      (hlimit : limit = some t) (hlasts : t ≤ spent + pause) :
      Ends id limit spent (.rest pause meanwhile next) (.error (.deadlineExceeded id t), meanwhile)

theorem ends_done_iff {outcome : Except ResolveError α} :
    Ends id limit spent (.done outcome world) result ↔ result = (outcome, world) := by
  constructor
  · intro h
    cases h
    rfl
  · rintro rfl
    exact .done outcome world

/-- A pause that is over before the limit makes no difference. -/
theorem ends_rest_iff_of_lt (h : ∀ t, limit = some t → spent + pause < t) :
    Ends id limit spent (.rest pause world next) result ↔
      Ends id limit (spent + pause) next result := by
  constructor
  · intro hends
    cases hends with
    | resumed _ hnext => exact hnext
    | dropped _ _ hlimit hlasts => exact absurd (h _ hlimit) (Nat.not_lt.mpr hlasts)
  · exact .resumed fun t hlimit ↦ (h t hlimit).le

/-- In a pause that lasts longer than the limit the work is dropped. -/
theorem ends_rest_iff_of_gt (hlimit : limit = some t) (h : t < spent + pause) :
    Ends id limit spent (.rest pause world next) result ↔
      result = (.error (.deadlineExceeded id t), world) := by
  constructor
  · intro hends
    cases hends with
    | resumed hover _ => exact absurd (hover t hlimit) (Nat.not_le.mpr h)
    | dropped _ _ hother _ =>
      obtain rfl := Option.some.inj (hlimit.symm.trans hother)
      rfl
  · rintro rfl
    exact .dropped world next hlimit h.le

/-- Before the limit, resting for no time makes no difference, whatever the world is meanwhile. -/
theorem ends_pausing_iff (h : ∀ t, limit = some t → spent < t) (meanwhile : List World) :
    Ends id limit spent (pausing meanwhile next) result ↔ Ends id limit spent next result := by
  induction meanwhile with
  | nil => rfl
  | cons world rest ih => exact (ends_rest_iff_of_lt h).trans ih

end Suspended

/-! ### What is left alone -/

/-- Nothing is stored that was not, and nothing is gone: no file, no entry of a cache, no lock. What
decoders work with is as it was. -/
structure World.Untouched (world later : World) : Prop where
  files : later.files = world.files
  cached : later.cached = world.cached
  shared : later.shared = world.shared
  temporaries : later.temporaries = world.temporaries
  idle : world.locks.Idle → later.locks.Idle
  workshop : later.workshop = world.workshop

theorem World.Untouched.refl (world : World) : world.Untouched world :=
  ⟨rfl, rfl, rfl, rfl, fun hidle ↦ hidle, rfl⟩

/-- Looking for an entry leaves everything alone. -/
def Cache.OnlyReads (cache : Cache) : Prop :=
  ∀ (hash : String) (world : World), world.Untouched (cache.get hash world).2

namespace Cache

theorem onlyReads_memory : memory.OnlyReads := fun _ world ↦ World.Untouched.refl world

theorem onlyReads_shared (start : String) : (shared start).OnlyReads := by
  intro hash world
  rw [get_shared]
  exact .refl world

theorem onlyReads_disk (root : Path) : (disk root).OnlyReads := by
  intro hash world
  change world.Untouched
    (locked hash world fun world ↦ (readEntry root hash world, world)).2
  unfold locked
  split
  · exact ⟨rfl, rfl, rfl, rfl, fun hidle ↦ hidle.leave hash, rfl⟩
  · exact .refl world

theorem OnlyReads.faulty {cache : Cache} (h : cache.OnlyReads) (faults : Nat → Fault) :
    (faulty faults cache).OnlyReads := by
  intro hash world
  unfold Cache.faulty
  dsimp only
  split
  · exact ⟨rfl, rfl, rfl, rfl, fun hidle ↦ hidle, rfl⟩
  · obtain ⟨files, cached, shared, temporaries, idle, workshop⟩ := h hash (count world)
    exact ⟨files, cached, shared, temporaries, idle, workshop⟩

/-- So do all caches that can be configured. -/
theorem onlyReads_of_open {settings : CacheSettings} {around : Surroundings} {cache : Cache}
    (h : settings.open_ around = .ok (some cache)) : cache.OnlyReads := by
  unfold CacheSettings.open_ at h
  split at h
  · cases Except.ok.inj h
  · obtain rfl := Option.some.inj (Except.ok.inj h)
    exact onlyReads_memory
  · obtain rfl := Option.some.inj (Except.ok.inj h)
    exact onlyReads_disk _
  · split at h
    · obtain rfl := Option.some.inj (Except.ok.inj h)
      exact onlyReads_shared _
    · cases h

end Cache

namespace Loader

variable {α : Type} {l : Loader} {decoder : Decoder α} {d : Descriptor} {world : World} {t : Nat}

/-- The cache has bytes for a descriptor. -/
def Holds (l : Loader) (d : Descriptor) (world : World) : Prop :=
  ∃ cache hash bytes, l.cache = some cache ∧ d.hash = some hash ∧
    (cache.get hash world).1 = .ok (some bytes)

theorem holds_iff : l.Holds d world ↔ ∃ bytes, (l.look d world).1 = some bytes := by
  unfold look
  constructor
  · rintro ⟨cache, hash, bytes, hcache, hhash, hget⟩
    refine ⟨bytes, ?_⟩
    rw [show l.keeping d = some (cache, hash) by rw [keeping, hcache, hhash]]
    dsimp only
    generalize cache.get hash world = reply at hget
    obtain ⟨answer, later⟩ := reply
    obtain rfl : answer = .ok (some bytes) := hget
    rfl
  · rintro ⟨bytes, hlook⟩
    cases hkeeping : l.keeping d with
    | none =>
      rw [hkeeping] at hlook
      cases hlook
    | some kept =>
      obtain ⟨cache, hash⟩ := kept
      obtain ⟨hcache, hhash⟩ := keeping_eq_some hkeeping
      refine ⟨cache, hash, bytes, hcache, hhash, ?_⟩
      rw [hkeeping] at hlook
      dsimp only at hlook
      generalize cache.get hash world = reply at hlook
      rcases reply with ⟨_ | found, later⟩
      · cases hlook
      · exact congrArg Except.ok hlook

/-- How long the download takes, if there is one. -/
def delay (l : Loader) (d : Descriptor) (world : World) : Nat :=
  (l.downloader.download (l.look d world).2 d).after

/-- The same loader with another deadline, or with none. -/
def within (l : Loader) (limit : Option Nat) : Loader := { l with deadline := limit }

end Loader

/-- Makes nothing of any bytes. -/
def Decoder.nothing : Decoder Unit := .pure fun _ _ ↦ .ok ()

namespace Loader

variable {α : Type} {l : Loader} {decoder : Decoder α} {d : Descriptor} {world : World} {t : Nat}

/-! ### Suspended work -/

/-- The worlds in which a fetch rests for no time: while the cache reads, while it writes, and while
the decoder works. -/
structure Suspensions where
  reading : List World := []
  writing : List World := []
  decoding : List World := []

/-- Decodes some bytes. -/
def decoding (s : Suspensions) (decoder : Decoder α) (d : Descriptor) (bytes : Bytes)
    (world : World) : Suspended α :=
  .pausing s.decoding (.done (decoder d bytes world).1 (decoder d bytes world).2)

/-- The way from a descriptor to an asset, with the points at which it is suspended. -/
def work (l : Loader) (s : Suspensions) (decoder : Decoder α) (d : Descriptor) (world : World) :
    Suspended α :=
  .pausing s.reading <|
    match l.look d world with
    | (some bytes, world) => decoding s decoder d bytes world
    | (none, world) =>
      let delivery := l.downloader.download world d
      .rest delivery.after (l.asking d world) <|
        match delivery.outcome with
        | .error e => .done (.error e) (l.asking d world)
        | .ok bytes =>
          .pausing s.writing (decoding s decoder d bytes (l.keep d bytes (l.asking d world)))

/-- To preload is to resolve, with a decoder that makes nothing of the bytes. -/
theorem preload_eq_resolve (l : Loader) (d : Descriptor) (world : World) :
    l.preload d world = l.resolve .nothing d world := by
  rw [preload_eq, resolve_eq]
  rcases l.fetch d world with ⟨_ | bytes, later⟩ <;> rfl

/-- Before the limit a decoder is not dropped. -/
theorem ends_decoding_iff {s : Suspensions} {limit : Option Nat} {spent : Nat} {bytes : Bytes}
    {id : String} {result : Except ResolveError α × World}
    (h : ∀ t, limit = some t → spent < t) :
    Suspended.Ends id limit spent (decoding s decoder d bytes world) result ↔
      result = decoder d bytes world :=
  (Suspended.ends_pausing_iff h _).trans Suspended.ends_done_iff

theorem isLate_of_lt {after : Nat} (h : ∀ t, l.deadline = some t → after < t) :
    l.isLate after = false := by
  unfold isLate
  cases hdeadline : l.deadline with
  | none => rfl
  | some limit => simp [Nat.not_le.mpr (h limit hdeadline)]

theorem isLate_of_gt {after : Nat} (hdeadline : l.deadline = some t) (h : t < after) :
    l.isLate after = true := by
  simp [isLate, hdeadline, h.le, Nat.ne_of_gt (Nat.zero_lt_of_lt h)]

theorem delay_of_look {later : World} {found : Option Bytes}
    (hlook : l.look d world = (found, later)) :
    l.delay d world = (l.downloader.download later d).after := by
  rw [delay, hlook]

/-- What is delivered before the deadline is had. -/
theorem delivered_of_lt (h : ∀ t, l.deadline = some t → (l.downloader.download world d).after < t) :
    l.delivered d world = (l.downloader.download world d).outcome := by
  unfold delivered
  dsimp only
  rw [isLate_of_lt h]
  exact if_neg Bool.false_ne_true

theorem delivered_of_gt (hdeadline : l.deadline = some t)
    (h : t < (l.downloader.download world d).after) :
    l.delivered d world = .error (.deadlineExceeded d.id.text t) := by
  unfold delivered
  dsimp only
  rw [isLate_of_gt hdeadline h, hdeadline]
  rfl

/-- Assumes: the time is not up at the start, nor exactly when the downloader delivers. However the
work of a loader is suspended, it ends as the loader answers, and in no other way. -/
theorem ends_work_iff (h : ∀ t, l.deadline = some t → 0 < t ∧ l.delay d world ≠ t)
    (s : Suspensions) (result : Except ResolveError α × World) :
    Suspended.Ends d.id.text l.deadline 0 (l.work s decoder d world) result ↔
      result = l.resolve decoder d world := by
  have hstart (t : Nat) (hdeadline : l.deadline = some t) : 0 < t := (h t hdeadline).1
  rw [work, Suspended.ends_pausing_iff hstart, resolve_eq]
  rcases hlook : l.look d world with ⟨_ | bytes, later⟩
  · rw [fetch_of_look hlook]
    dsimp only
    by_cases hlate : ∃ t, l.deadline = some t ∧ t < (l.downloader.download later d).after
    · obtain ⟨t, hdeadline, hlate⟩ := hlate
      rw [delivered_of_gt hdeadline hlate]
      exact Suspended.ends_rest_iff_of_gt hdeadline (by rwa [Nat.zero_add])
    · have htimely (t : Nat) (hdeadline : l.deadline = some t) :
          (l.downloader.download later d).after < t := by
        have hdelay := (h t hdeadline).2
        rw [delay_of_look hlook] at hdelay
        exact lt_of_le_of_ne (Nat.not_lt.mp fun hlater ↦ hlate ⟨t, hdeadline, hlater⟩) hdelay
      have hspent (t : Nat) (hdeadline : l.deadline = some t) :
          0 + (l.downloader.download later d).after < t := by
        rw [Nat.zero_add]
        exact htimely t hdeadline
      rw [Suspended.ends_rest_iff_of_lt hspent, delivered_of_lt htimely]
      cases (l.downloader.download later d).outcome with
      | error e => exact Suspended.ends_done_iff
      | ok bytes => exact (Suspended.ends_pausing_iff hspent _).trans (ends_decoding_iff hspent)
  · rw [fetch_of_found hlook]
    exact ends_decoding_iff hstart

/-! ### With and without a deadline -/

/-- Bytes that the cache holds, or that are delivered in time, are had as without a deadline. -/
theorem fetch_within_of_timely (h : l.Holds d world ∨ l.delay d world < t) :
    (l.within (some t)).fetch d world = (l.within none).fetch d world := by
  have hlook (limit : Option Nat) : (l.within limit).look d world = l.look d world := rfl
  rcases hfound : l.look d world with ⟨_ | bytes, later⟩
  · have htimely : (l.downloader.download later d).after < t := by
      rw [← delay_of_look hfound]
      refine h.resolve_left fun hholds ↦ ?_
      obtain ⟨bytes, hsome⟩ := holds_iff.mp hholds
      rw [hfound] at hsome
      cases hsome
    have hdelivered : (l.within (some t)).delivered d later = (l.within none).delivered d later := by
      rw [delivered_of_lt (l := l.within (some t)), delivered_of_lt (l := l.within none)]
      · rfl
      · intro t hnone
        cases hnone
      · intro t hsome
        obtain rfl := Option.some.inj hsome
        exact htimely
    rw [fetch_of_look (hlook (some t) ▸ hfound), fetch_of_look (hlook none ▸ hfound), hdelivered]
    rfl
  · rw [fetch_of_found (hlook (some t) ▸ hfound), fetch_of_found (hlook none ▸ hfound)]

/-- Bytes that the cache does not hold and that are delivered too late are not had; nothing has
happened but that they were looked for and asked for. -/
theorem fetch_within_of_late (hholds : ¬ l.Holds d world) (h : t < l.delay d world) :
    (l.within (some t)).fetch d world =
      (.error (.deadlineExceeded d.id.text t), l.asking d (l.look d world).2) := by
  rcases hlook : l.look d world with ⟨_ | bytes, later⟩
  · have hfound : (l.within (some t)).look d world = (none, later) := hlook
    have hlate : (l.within (some t)).delivered d later = .error (.deadlineExceeded d.id.text t) :=
      delivered_of_gt rfl (delay_of_look hlook ▸ h)
    rw [fetch_of_look hfound, hlate]
    rfl
  · exact absurd (holds_iff.mpr ⟨bytes, by rw [hlook]⟩) hholds

/-- To look and to ask leaves everything alone. -/
theorem untouched_asking (hreads : ∀ cache, l.cache = some cache → cache.OnlyReads) (d : Descriptor)
    (world : World) : world.Untouched (l.asking d (l.look d world).2) := by
  have hlook : world.Untouched (l.look d world).2 := by
    unfold look
    cases hkeeping : l.keeping d with
    | none => exact .refl world
    | some kept =>
      obtain ⟨cache, hash⟩ := kept
      have hget := hreads cache (keeping_eq_some hkeeping).1 hash world
      dsimp only
      generalize cache.get hash world = reply at hget
      rcases reply with ⟨_ | found, later⟩ <;> exact hget
  exact ⟨hlook.files, hlook.cached, hlook.shared, hlook.temporaries, hlook.idle, hlook.workshop⟩

/-- Assumes: a cache that only reads when it is looked into, a deadline that is not zero, and a
delivery that is not due at the very deadline. Then it does not matter where the work is suspended.
If the cache holds the bytes, or they are delivered in time, a loader with the deadline answers as
one without, and leaves the same world. Otherwise it answers that the deadline was exceeded, and
leaves everything as it was, in the same way for all decoders. -/
theorem cutsOff_of_deadline (hreads : ∀ cache, l.cache = some cache → cache.OnlyReads) (ht : 0 < t)
    (hdelay : l.delay d world ≠ t) :
    (∀ limit, limit = some t ∨ limit = none → ∀ s : Suspensions,
      (∀ {α : Type} (decoder : Decoder α) (result : Except ResolveError α × World),
        Suspended.Ends d.id.text limit 0 ((l.within limit).work s decoder d world) result ↔
          result = (l.within limit).resolve decoder d world) ∧
      ∀ result : Except ResolveError Unit × World,
        Suspended.Ends d.id.text limit 0 ((l.within limit).work s .nothing d world) result ↔
          result = (l.within limit).preload d world) ∧
    (l.Holds d world ∨ l.delay d world < t →
      (∀ {α : Type} (decoder : Decoder α),
        (l.within (some t)).resolve decoder d world = (l.within none).resolve decoder d world) ∧
      (l.within (some t)).preload d world = (l.within none).preload d world) ∧
    (¬ l.Holds d world → t < l.delay d world → ∃ later, world.Untouched later ∧
      (∀ {α : Type} (decoder : Decoder α), (l.within (some t)).resolve decoder d world =
        (.error (.deadlineExceeded d.id.text t), later)) ∧
      (l.within (some t)).preload d world = (.error (.deadlineExceeded d.id.text t), later)) := by
  refine ⟨fun limit hlimit s ↦ ?_, fun htimely ↦ ?_, fun hholds hlate ↦ ?_⟩
  · have hapart (other : Nat) (hdeadline : (l.within limit).deadline = some other) :
        0 < other ∧ (l.within limit).delay d world ≠ other := by
      have hother : limit = some other := hdeadline
      obtain hlimit | hlimit := hlimit
      · obtain rfl := Option.some.inj (hlimit.symm.trans hother)
        exact ⟨ht, hdelay⟩
      · cases hlimit.symm.trans hother
    refine ⟨fun decoder result ↦ ends_work_iff hapart s result, fun result ↦ ?_⟩
    rw [preload_eq_resolve]
    exact ends_work_iff hapart s result
  · have hfetch := fetch_within_of_timely htimely
    refine ⟨fun decoder ↦ ?_, ?_⟩
    · rw [resolve_eq, resolve_eq, hfetch]
    · rw [preload_eq, preload_eq, hfetch]
  · have hfetch := fetch_within_of_late hholds hlate
    refine ⟨_, untouched_asking hreads d world, fun decoder ↦ ?_, ?_⟩
    · rw [resolve_eq, hfetch]
    · rw [preload_eq, hfetch]
      rfl

/-! ### A slow download -/

/-- A loader that has its bytes after seven milliseconds, with a cache in memory of which every
second operation fails. -/
def slow : Loader where
  downloader := .published "mem" none 7
  cache := some (.faulty (fun number ↦ { getFails := number % 2 = 1 }) .memory)

def lateGraph : Descriptor where
  id := ⟨"late", by decide⟩
  uri := "mem:late"
  hash := some "late"
  kind := .blueprint

theorem onlyReads_slow (cache : Cache) (hcache : slow.cache = some cache) : cache.OnlyReads := by
  obtain rfl := Option.some.inj hcache
  exact Cache.onlyReads_memory.faulty _

theorem not_holds_slow : ¬ slow.Holds lateGraph {} := by
  rw [holds_iff]
  rintro ⟨bytes, hlook⟩
  cases hlook

/-- Five milliseconds are too short for the download, whatever is decoded then, and nine are not. -/
theorem cutsOff_slow :
    slow.delay lateGraph {} = 7 ∧
      ((slow.within (some 5)).resolve (.blueprint .standard .standard) lateGraph {}).1 =
        .error (.deadlineExceeded "late" 5) ∧
      (slow.within (some 9)).resolve (.blueprint .standard .standard) lateGraph {} =
        (slow.within none).resolve (.blueprint .standard .standard) lateGraph {} := by
  have hshort : slow.delay lateGraph {} ≠ 5 := by decide
  have hlong : slow.delay lateGraph {} ≠ 9 := by decide
  obtain ⟨-, -, hlate⟩ := cutsOff_of_deadline onlyReads_slow (by decide) hshort
  obtain ⟨-, htimely, -⟩ := cutsOff_of_deadline onlyReads_slow (by decide) hlong
  obtain ⟨later, -, hresolve, -⟩ := hlate not_holds_slow (by decide)
  refine ⟨rfl, ?_, (htimely (Or.inr (by decide))).1 _⟩
  rw [hresolve]
  rfl

end Loader

end Blueprint

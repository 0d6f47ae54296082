import Blueprint.Files.Basic
import Mathlib.Data.List.Basic

/-!
Trees of files. In a plain tree everything stands in a directory (`Files.Plain`). A path that can be
walked leads to the place its segments spell (`Files.walk_eq_ok`), and goes on leading there as long
as no directory vanishes (`Files.Alike.locate`). Making a directory and those around it adds
directories on the way and nothing else (`Files.Plain.makeDirectories`); in a tree without limits it
succeeds unless a file stands in the way (`Files.Roomy.makeDirectories`).
-/

set_option autoImplicit false

namespace Blueprint.Files

/-- Everything stands in a directory. -/
def Plain (f : Files) : Prop :=
  ∀ place entry, f.entry? place = some entry → f.entry? place.tail = some .directory

/-- The content of the file at a place. -/
def content? (f : Files) (place : Place) : Option Bytes :=
  match f.entry? place with
  | some (.file content) => some content
  | _ => none

variable {f g : Files}

theorem content?_congr {place : Place} (h : g.entry? place = f.entry? place) :
    g.content? place = f.content? place := by
  rw [content?, h, content?]

theorem bind_eq_ok_iff {α β : Type} {work : Except FileError α} {next : α → Except FileError β}
    {result : β} :
    work >>= next = .ok result ↔ ∃ value, work = .ok value ∧ next value = .ok result := by
  cases work with
  | error e => simp [bind, Except.bind]
  | ok value => simp [bind, Except.bind]

@[simp] theorem entry?_top (f : Files) : f.entry? [] = some .directory := rfl

theorem entry?_put (f : Files) (place other : Place) (entry : FileEntry) :
    Files.entry? (f.put place entry) other =
      if place = other ∧ other ≠ [] then some entry else f.entry? other := by
  cases other with
  | nil => simp
  | cons name outer =>
    change (f.entries.insert place entry).get? (name :: outer) = _
    rw [Table.get?_insert]
    simp [ entry?]

theorem entry?_drop (f : Files) (place other : Place) :
    Files.entry? (f.drop place) other =
      if place = other ∧ other ≠ [] then none else f.entry? other := by
  cases other with
  | nil => simp
  | cons name outer =>
    change (f.entries.erase place).get? (name :: outer) = _
    rw [Table.get?_erase]
    simp [ entry?]

/-! ### Walking -/

/-- The place that a segment leads to. -/
def step (place : Place) (segment : String) : Place :=
  if segment = "" ∨ segment = "." then place
  else if segment = ".." then place.tail
  else segment :: place

/-- The place that segments lead to. -/
def follow (place : Place) (segments : List String) : Place := segments.foldl step place

/-- The places from which some segments are taken. -/
def passed (place : Place) : List String → List Place
  | [] => []
  | segment :: rest => place :: passed (step place segment) rest

theorem passed_append (place : Place) (segments more : List String) :
    passed place (segments ++ more) =
      passed place segments ++ passed (follow place segments) more := by
  induction segments generalizing place with
  | nil => rfl
  | cons segment rest ih => rw [List.cons_append, passed, ih, passed, List.cons_append]; rfl

theorem follow_append (place : Place) (segments more : List String) :
    follow place (segments ++ more) = follow (follow place segments) more :=
  List.foldl_append

theorem walk_cons (f : Files) (place : Place) (segment : String) (rest : List String) :
    f.walk place (segment :: rest) =
      match f.entry? place with
      | none => .error .notFound
      | some (.file _) => .error .notDirectory
      | some .directory =>
        if ¬ (segment = "" ∨ segment = ".") ∧ segment ≠ ".." ∧ exceeds f.longestName segment then
          .error .nameTooLong
        else f.walk (step place segment) rest := by
  rw [walk]
  cases f.entry? place with
  | none => rfl
  | some entry =>
    cases entry with
    | file content => rfl
    | directory =>
      simp only [step]
      split
      · rename_i hjunk
        rw [if_neg fun h ↦ h.1 hjunk]
      · rename_i hjunk
        split
        · rename_i hup
          rw [if_neg fun h ↦ h.2.1 hup]
        · rename_i hup
          simp only [hjunk, hup, not_false_eq_true, true_and, ne_eq]

/-- A walk that succeeds has taken its segments from directories. -/
theorem walk_eq_ok {place reached : Place} {segments : List String}
    (h : f.walk place segments = .ok reached) :
    reached = follow place segments ∧ ∀ q ∈ passed place segments, f.entry? q = some .directory := by
  induction segments generalizing place with
  | nil => exact ⟨(Except.ok.inj h).symm, nofun⟩
  | cons segment rest ih =>
    rw [walk_cons] at h
    split at h
    · cases h
    · cases h
    · rename_i hplace
      split at h
      · cases h
      · obtain ⟨hreached, hpassed⟩ := ih h
        exact ⟨hreached, List.forall_mem_cons.mpr ⟨hplace, hpassed⟩⟩

/-- A walk goes on to succeed as long as no directory vanishes. -/
theorem walk_mono (hdirectories : ∀ q, f.entry? q = some .directory → g.entry? q = some .directory)
    (hnames : g.longestName = f.longestName) {place reached : Place} {segments : List String}
    (h : f.walk place segments = .ok reached) : g.walk place segments = .ok reached := by
  induction segments generalizing place with
  | nil => exact h
  | cons segment rest ih =>
    rw [walk_cons] at h ⊢
    split at h
    · cases h
    · cases h
    · rename_i hplace
      rw [hdirectories place hplace, hnames]
      dsimp only
      split at h
      · cases h
      · rename_i hfits
        rw [if_neg hfits]
        exact ih h

/-- Without files in the way and with names of any length, a walk fails only where nothing is. -/
theorem walk_of_open (hnames : f.longestName = none) {place : Place} {segments : List String}
    (hopen : ∀ q ∈ passed place segments, f.content? q = none) :
    f.walk place segments = .ok (follow place segments) ∨
      f.walk place segments = .error .notFound ∧ ∃ q ∈ passed place segments, f.entry? q = none := by
  induction segments generalizing place with
  | nil => exact Or.inl rfl
  | cons segment rest ih =>
    obtain ⟨hplace, hrest⟩ := List.forall_mem_cons.mp hopen
    rw [walk_cons, hnames]
    cases hentry : f.entry? place with
    | none => exact Or.inr ⟨rfl, place, List.mem_cons_self, hentry⟩
    | some entry =>
      cases entry with
      | file content => simp [content?, hentry] at hplace
      | directory =>
        rw [show exceeds none segment = false from rfl]
        simp only [Bool.false_eq_true, and_false, if_false]
        rcases ih hrest with hwalk | ⟨hwalk, q, hq, hnone⟩
        · exact Or.inl hwalk
        · exact Or.inr ⟨hwalk, q, List.mem_cons_of_mem _ hq, hnone⟩

/-- Where nothing stands yet, the way ends with a name in a directory. -/
theorem Plain.walk_new (hplain : f.Plain) {place reached : Place} {segments : List String}
    (h : f.walk place segments = .ok reached) (hnew : f.entry? reached = none) :
    segments = [] ∨ ∃ name ∈ segments, ∃ outer, reached = name :: outer ∧
      f.entry? outer = some .directory := by
  induction segments generalizing place with
  | nil => exact Or.inl rfl
  | cons segment rest ih =>
    refine Or.inr ?_
    rw [walk_cons] at h
    split at h
    · cases h
    · cases h
    · rename_i hplace
      split at h
      · cases h
      · rcases ih h with rfl | ⟨name, hname, outer, hreached, houter⟩
        · obtain rfl : step place segment = reached := Except.ok.inj h
          unfold step at hnew ⊢
          split at hnew
          · rw [hplace] at hnew
            cases hnew
          · split at hnew
            · rw [hplain place _ hplace] at hnew
              cases hnew
            · rename_i hjunk hup
              exact ⟨segment, List.mem_cons_self, place, by rw [if_neg hjunk, if_neg hup], hplace⟩
        · exact ⟨name, List.mem_cons_of_mem _ hname, outer, hreached, houter⟩

/-! ### Paths -/

/-- The place at which a path starts. -/
def start (f : Files) (p : Path) : Place := if p.absolute then [] else f.here

/-- The places on the way of a path, its own included. -/
def way (f : Files) (p : Path) : List Place :=
  passed (f.start p) p.segments ++ [follow (f.start p) p.segments]

theorem placeOf_eq (f : Files) (p : Path) : placeOf f.here p = follow (f.start p) p.segments := rfl

/-- What a path that can be opened has, wherever it leads. -/
structure Named (f : Files) (p : Path) : Prop where
  noNul : p.segments.any (·.contains (Char.ofNat 0)) = false
  fits : exceeds f.longestPath p.render = false
  solid : p.isBlank = false

theorem locate_of_named {p : Path} (h : f.Named p) :
    f.locate p = f.walk (f.start p) p.segments := by
  rw [locate, h.noNul, h.fits, h.solid]
  rfl

theorem locate_eq_ok {p : Path} {place : Place} (h : f.locate p = .ok place) :
    f.Named p ∧ f.walk (f.start p) p.segments = .ok place := by
  unfold locate at h
  split at h
  · cases h
  · split at h
    · cases h
    · split at h
      · cases h
      · rename_i hnul hfits hsolid
        exact ⟨⟨by simpa using hnul, by simpa using hfits, by simpa using hsolid⟩, h⟩

/-- What stays the same while files come and go: where paths start, and how long they may be. -/
structure Alike (f g : Files) : Prop where
  here : g.here = f.here
  longestName : g.longestName = f.longestName
  longestPath : g.longestPath = f.longestPath
  directories : ∀ q, f.entry? q = some .directory → g.entry? q = some .directory

theorem Alike.refl (f : Files) : f.Alike f := ⟨rfl, rfl, rfl, fun _ h ↦ h⟩

theorem Alike.trans {third : Files} (hfirst : f.Alike g) (hsecond : g.Alike third) :
    f.Alike third :=
  ⟨hsecond.here.trans hfirst.here, hsecond.longestName.trans hfirst.longestName,
    hsecond.longestPath.trans hfirst.longestPath,
    fun q h ↦ hsecond.directories q (hfirst.directories q h)⟩

theorem Alike.start_eq (h : f.Alike g) (p : Path) : g.start p = f.start p := by
  rw [start, h.here, start]

theorem Alike.locate (h : f.Alike g) {p : Path} {place : Place} (hlocate : f.locate p = .ok place) :
    g.locate p = .ok place := by
  obtain ⟨⟨hnul, hfits, hsolid⟩, hwalk⟩ := locate_eq_ok hlocate
  rw [locate_of_named ⟨hnul, by rwa [h.longestPath], hsolid⟩, h.start_eq]
  exact walk_mono h.directories h.longestName hwalk

/-- A file that comes or goes leaves the directories as they are. -/
theorem alike_put {place : Place} {content : Bytes} (h : f.entry? place ≠ some .directory) :
    f.Alike (f.put place (.file content)) := by
  refine ⟨rfl, rfl, rfl, fun q hq ↦ ?_⟩
  have hne : place ≠ q := by
    rintro rfl
    exact h hq
  rw [entry?_put, if_neg fun heq ↦ hne heq.1, hq]

theorem alike_drop {place : Place} (h : f.entry? place ≠ some .directory) :
    f.Alike (f.drop place) := by
  refine ⟨rfl, rfl, rfl, fun q hq ↦ ?_⟩
  have hne : place ≠ q := by
    rintro rfl
    exact h hq
  rw [entry?_drop, if_neg fun heq ↦ hne heq.1, hq]

theorem put_alike {place : Place} {content : Bytes} : (f.put place (.file content)).Alike f := by
  refine ⟨rfl, rfl, rfl, fun q hq ↦ ?_⟩
  rw [entry?_put] at hq
  split at hq
  · cases hq
  · exact hq

theorem Plain.put (hplain : f.Plain) {place : Place} {entry : FileEntry}
    (houter : f.entry? place.tail = some .directory)
    (hfree : f.entry? place ≠ some .directory ∨ entry = .directory) :
    (f.put place entry).Plain := by
  intro q found hq
  have hkept (q : Place) (h : f.entry? q = some .directory) :
      Files.entry? (f.put place entry) q = some .directory := by
    rw [entry?_put]
    split
    · rename_i hsame
      obtain ⟨rfl, -⟩ := hsame
      rcases hfree with hfree | rfl
      · exact absurd h hfree
      · rfl
    · exact h
  rw [entry?_put] at hq
  split at hq
  · rename_i hsame
    obtain ⟨rfl, -⟩ := hsame
    exact hkept _ houter
  · exact hkept _ (hplain q found hq)

theorem Plain.drop (hplain : f.Plain) {place : Place} (h : f.entry? place ≠ some .directory) :
    (f.drop place).Plain := by
  intro q found hq
  rw [entry?_drop] at hq
  split at hq
  · cases hq
  · rw [(alike_drop h).directories _ (hplain q found hq)]

theorem locateNew_eq_ok {p : Path} {place : Place} :
    f.locateNew p = .ok place ↔
      f.locate p = .ok place ∧ f.entry? place.tail = some .directory := by
  rw [locateNew, bind_eq_ok_iff]
  constructor
  · rintro ⟨reached, hlocate, h⟩
    split at h
    · rename_i houter
      obtain rfl := Except.ok.inj h
      exact ⟨hlocate, houter⟩
    · cases h
    · cases h
  · rintro ⟨hlocate, houter⟩
    exact ⟨place, hlocate, by rw [houter]⟩

theorem lookup_eq_ok {p : Path} {entry : FileEntry} :
    f.lookup p = .ok entry ↔ ∃ place, f.locate p = .ok place ∧ f.entry? place = some entry := by
  rw [lookup, bind_eq_ok_iff]
  refine exists_congr fun place ↦ and_congr_right fun _ ↦ ?_
  cases f.entry? place with
  | none => simp
  | some found => simp

theorem read_eq_ok {p : Path} {content : Bytes} :
    f.read p = .ok content ↔ f.lookup p = .ok (.file content) := by
  rw [read, bind_eq_ok_iff]
  constructor
  · rintro ⟨entry, hlookup, h⟩
    cases entry with
    | file found => rw [hlookup, Except.ok.inj h]
    | directory => cases h
  · intro hlookup
    exact ⟨_, hlookup, rfl⟩

/-! ### Files that are written, moved and removed -/

theorem write_eq_ok {p : Path} {content : Bytes} :
    f.write p content = .ok g ↔ ∃ place, f.locateNew p = .ok place ∧
      f.entry? place ≠ some .directory ∧ g = f.put place (.file content) := by
  rw [write, bind_eq_ok_iff]
  refine exists_congr fun place ↦ and_congr_right fun _ ↦ ?_
  split
  · rename_i hentry
    simp [hentry]
  · rename_i hentry
    rw [Except.ok.injEq, eq_comm]
    exact (and_iff_right fun hdirectory ↦ hentry hdirectory).symm

theorem rename_eq_ok {source target : Path} {place : Place} {content : Bytes}
    (hsource : f.locate source = .ok place) (hcontent : f.entry? place = some (.file content)) :
    f.rename source target = .ok g ↔ ∃ reached, f.locateNew target = .ok reached ∧
      f.entry? reached ≠ some .directory ∧ g = (f.drop place).put reached (.file content) := by
  rw [rename, hsource]
  change (f.locateNew target >>= _) = _ ↔ _
  rw [bind_eq_ok_iff]
  refine exists_congr fun reached ↦ and_congr_right fun _ ↦ ?_
  rw [hcontent]
  cases f.entry? reached with
  | none => simp [eq_comm]
  | some entry => cases entry <;> simp [eq_comm]

theorem remove_of_file {p : Path} {place : Place} {content : Bytes}
    (hlocate : f.locate p = .ok place) (hcontent : f.entry? place = some (.file content)) :
    f.remove p = .ok (f.drop place) :=
  bind_eq_ok_iff.mpr ⟨place, hlocate, by rw [hcontent]⟩

theorem remove_eq_ok {p : Path} (h : f.remove p = .ok g) :
    ∃ place content, f.locate p = .ok place ∧ f.entry? place = some (.file content) ∧
      g = f.drop place := by
  obtain ⟨place, hlocate, h⟩ := bind_eq_ok_iff.mp h
  split at h
  · rename_i content hcontent
    exact ⟨place, content, hlocate, hcontent, (Except.ok.inj h).symm⟩
  · cases h
  · cases h

theorem remove_eq_notFound {p : Path} :
    f.remove p = .error .notFound ↔ f.lookup p = .error .notFound := by
  unfold remove lookup
  cases f.locate p with
  | error e => simp [bind, Except.bind]
  | ok place =>
    dsimp only [bind, Except.bind]
    cases f.entry? place with
    | none => simp
    | some entry => cases entry <;> simp

/-! ### Directories that are made -/

/-- Directories were made on the way of a path, each under a name of it, where nothing was. -/
structure Grown (p : Path) (f g : Files) : Prop extends Alike f g where
  entry : ∀ place, g.entry? place = f.entry? place ∨
    f.entry? place = none ∧ g.entry? place = some .directory ∧ place ∈ f.way p ∧
      ∃ name ∈ p.segments, ∃ outer, place = name :: outer
  plain : g.Plain

theorem Grown.refl (hplain : f.Plain) (p : Path) : Grown p f f :=
  ⟨.refl f, fun _ ↦ Or.inl rfl, hplain⟩

theorem Alike.way_eq (h : f.Alike g) (p : Path) : g.way p = f.way p := by
  rw [way, h.start_eq, way]

theorem Grown.trans {p : Path} {third : Files} (hfirst : Grown p f g) (hsecond : Grown p g third) :
    Grown p f third := by
  refine ⟨hfirst.toAlike.trans hsecond.toAlike, fun place ↦ ?_, hsecond.plain⟩
  rcases hsecond.entry place with hkept | ⟨hnone, hmade, hway, hname⟩
  · rw [hkept]
    exact hfirst.entry place
  · rw [hfirst.way_eq] at hway
    rcases hfirst.entry place with hkept | ⟨-, hbefore, -⟩
    · exact Or.inr ⟨hkept ▸ hnone, hmade, hway, hname⟩
    · rw [hnone] at hbefore
      cases hbefore

/-- The way of a path goes on from that of its first part. -/
theorem way_part {p outer : Path} (habsolute : outer.absolute = p.absolute) {rest : List String}
    (hsegments : p.segments = outer.segments ++ rest) {place : Place} (h : place ∈ f.way outer) :
    place ∈ f.way p := by
  have hstart : f.start p = f.start outer := by rw [start, start, habsolute]
  rw [way] at h
  rw [way, hstart, hsegments, passed_append]
  cases rest with
  | nil =>
    rw [List.append_nil]
    simpa [passed] using h
  | cons segment rest =>
    rcases List.mem_append.mp h with h | h
    · exact List.mem_append_left _ (List.mem_append_left _ h)
    · rw [List.mem_singleton.mp h]
      exact List.mem_append_left _ (List.mem_append_right _ List.mem_cons_self)

/-- What is made on the first part of a way is made on the way. -/
theorem Grown.extend {p outer : Path} (h : Grown outer f g) (habsolute : outer.absolute = p.absolute)
    {rest : List String} (hsegments : p.segments = outer.segments ++ rest) : Grown p f g := by
  refine ⟨h.toAlike, fun place ↦ (h.entry place).imp_right ?_, h.plain⟩
  rintro ⟨hnone, hmade, hway, name, hname, hplace⟩
  exact ⟨hnone, hmade, way_part habsolute hsegments hway, name,
    hsegments ▸ List.mem_append_left _ hname, hplace⟩

/-- A directory is made where nothing is, in a directory. -/
theorem Plain.makeDirectory (hplain : f.Plain) {p : Path} (h : f.makeDirectory p = .ok g) :
    Grown p f g := by
  obtain ⟨place, hlocate, h⟩ := bind_eq_ok_iff.mp h
  split at h
  · cases h
  · rename_i hnone
    obtain rfl := Except.ok.inj h
    obtain ⟨hlocate, houter⟩ := locateNew_eq_ok.mp hlocate
    obtain ⟨hnamed, hwalk⟩ := locate_eq_ok hlocate
    have hname : ∃ name ∈ p.segments, ∃ outer, place = name :: outer := by
      rcases hplain.walk_new hwalk hnone with hempty | ⟨name, hname, outer, hplace, -⟩
      · rw [hempty] at hwalk
        obtain rfl : f.start p = place := Except.ok.inj hwalk
        have hsolid := hnamed.solid
        rw [Path.isBlank, hempty] at hsolid
        have habsolute : p.absolute = true := by simpa using hsolid
        rw [start, if_pos habsolute] at hnone
        cases hnone
      · exact ⟨name, hname, outer, hplace⟩
    have hway : place ∈ f.way p := by
      rw [(walk_eq_ok hwalk).1, way]
      exact List.mem_append_right _ (List.mem_singleton_self _)
    have hentry (q : Place) : Files.entry? (f.put place .directory) q =
        if place = q ∧ q ≠ [] then some .directory else f.entry? q := entry?_put f place q _
    refine ⟨⟨rfl, rfl, rfl, fun q hq ↦ ?_⟩, fun q ↦ ?_, hplain.put houter (Or.inr rfl)⟩
    · rw [hentry]
      split
      · rfl
      · exact hq
    · rw [hentry]
      split
      · rename_i hsame
        obtain ⟨rfl, -⟩ := hsame
        exact Or.inr ⟨hnone, rfl, hway, hname⟩
      · exact Or.inl rfl

theorem Plain.ensureDirectory (hplain : f.Plain) (p : Path) :
    Grown p f (f.ensureDirectory p).2 := by
  unfold Files.ensureDirectory
  split
  · rename_i made hmade
    exact hplain.makeDirectory hmade
  · exact .refl hplain p

/-- Segments that lead nowhere. -/
def Idle (segments : List String) : Prop := ∀ segment ∈ segments, segment = "" ∨ segment = "."

theorem trimEnd_append (absolute : Bool) (segments : List String) :
    ∃ idle, segments = idle ++ Path.trimEnd absolute segments ∧ Idle idle := by
  induction segments with
  | nil => exact ⟨[], rfl, nofun⟩
  | cons segment outer ih =>
    unfold Path.trimEnd
    split
    · rename_i hidle
      obtain ⟨idle, houter, hall⟩ := ih
      refine ⟨segment :: idle, ?_, List.forall_mem_cons.mpr ⟨?_, hall⟩⟩
      · rw [List.cons_append, ← houter]
      · simp only [Bool.or_eq_true, Bool.and_eq_true, beq_iff_eq] at hidle
        exact hidle.imp_right And.left
    · exact ⟨[], rfl, nofun⟩

theorem trimEnd_trimEnd (absolute : Bool) (segments : List String) :
    Path.trimEnd absolute (Path.trimEnd absolute segments) = Path.trimEnd absolute segments := by
  induction segments with
  | nil => rfl
  | cons segment outer ih =>
    by_cases hidle : (segment == "" || (segment == "." && (absolute || !outer.isEmpty))) = true
    · rw [Path.trimEnd, if_pos hidle, ih]
    · rw [Path.trimEnd, if_neg hidle, Path.trimEnd, if_neg hidle]

/-- The path around another is a part of it, without what leads nowhere at its end. -/
theorem parent?_eq_some {p outer : Path} (h : p.parent? = some outer) :
    outer.absolute = p.absolute ∧
      Path.trimEnd outer.absolute outer.segments.reverse = outer.segments.reverse ∧
      ∃ idle segment more, p.segments = outer.segments ++ idle ++ [segment] ++ more ∧ Idle idle ∧
        (Path.trimEnd p.absolute p.segments.reverse = p.segments.reverse → more = []) := by
  obtain ⟨more, hsegments, -⟩ := trimEnd_append p.absolute p.segments.reverse
  unfold Path.parent? at h
  split at h
  · cases h
  · rename_i segment inner htrim
    obtain rfl := Option.some.inj h
    obtain ⟨idle, hinner, hidle⟩ := trimEnd_append p.absolute inner
    rw [htrim] at hsegments
    refine ⟨rfl, ?_, idle.reverse, segment, more.reverse, ?_, ?_, fun htrimmed ↦ ?_⟩
    · rw [List.reverse_reverse, trimEnd_trimEnd]
    · have hall := congrArg List.reverse hsegments
      rw [List.reverse_reverse] at hall
      rw [hall, ← List.reverse_append, ← hinner]
      simp
    · exact fun found hfound ↦ hidle found (List.mem_reverse.mp hfound)
    · rw [htrim] at htrimmed
      rw [← htrimmed] at hsegments
      have hlength := congrArg List.length hsegments
      rw [List.length_append] at hlength
      exact List.reverse_eq_nil_iff.mpr (List.length_eq_zero_iff.mp (by omega))

/-- Only a path without segments has none around it. -/
theorem parent?_eq_none {p : Path}
    (htrimmed : Path.trimEnd p.absolute p.segments.reverse = p.segments.reverse)
    (h : p.parent? = none) : p.segments = [] := by
  unfold Path.parent? at h
  rw [htrimmed] at h
  split at h
  · rename_i hempty
    exact List.reverse_eq_nil_iff.mp hempty
  · cases h

/-- However the making of directories ends, it has only added directories on the way. -/
theorem Plain.ensureAround (hplain : f.Plain) (rounds : Nat) (p : Path) :
    Grown p f (f.ensureAround rounds p).2 := by
  induction rounds generalizing p with
  | zero => exact hplain.ensureDirectory p
  | succ rounds ih =>
    unfold Files.ensureAround
    split
    · exact .refl hplain p
    · split
      · rename_i outer hmake hparent
        obtain ⟨habsolute, -, idle, segment, more, hsegments, -⟩ := parent?_eq_some hparent
        have hsegments' : p.segments = outer.segments ++ (idle ++ ([segment] ++ more)) := by
          simpa only [List.append_assoc] using hsegments
        have houter := (ih outer).extend habsolute hsegments'
        split
        all_goals
          rename_i hmade
          rw [hmade] at houter
        · exact houter.trans (houter.plain.ensureDirectory p)
        · exact houter
      · exact hplain.ensureDirectory p

theorem Plain.makeDirectories (hplain : f.Plain) (p : Path) :
    Grown p f (f.makeDirectories p).2 :=
  hplain.ensureAround _ p

theorem Grown.content?_eq {p : Path} (h : Grown p f g) (place : Place) :
    g.content? place = f.content? place := by
  rcases h.entry place with hkept | ⟨hnone, hmade, -⟩
  · rw [content?, hkept, content?]
  · simp [content?, hnone, hmade]

/-! ### Trees without limits -/

/-- Names and paths may have any length, and paths start in a directory. -/
structure Roomy (f : Files) : Prop where
  plain : f.Plain
  longestName : f.longestName = none
  longestPath : f.longestPath = none
  here : f.entry? f.here = some .directory

theorem Roomy.alike (hroomy : f.Roomy) (h : f.Alike g) (hplain : g.Plain) : g.Roomy :=
  ⟨hplain, h.longestName.trans hroomy.longestName, h.longestPath.trans hroomy.longestPath,
    h.here ▸ h.directories _ hroomy.here⟩

theorem Grown.roomy {p : Path} (h : Grown p f g) (hroomy : f.Roomy) : g.Roomy :=
  hroomy.alike h.toAlike h.plain

theorem Roomy.start_directory (h : f.Roomy) (p : Path) : f.entry? (f.start p) = some .directory := by
  unfold Files.start
  split
  · rfl
  · exact h.here

theorem content?_directory {place : Place} (h : f.entry? place = some .directory) :
    f.content? place = none := by
  rw [content?, h]

/-- Where the whole way is directories, a path leads to the place it spells. -/
theorem Roomy.locate (h : f.Roomy) {p : Path}
    (hnul : p.segments.any (·.contains (Char.ofNat 0)) = false) (hsolid : p.isBlank = false)
    (hway : ∀ q ∈ passed (f.start p) p.segments, f.entry? q = some .directory) :
    f.locate p = .ok (follow (f.start p) p.segments) := by
  rw [locate_of_named ⟨hnul, by rw [h.longestPath]; rfl, hsolid⟩]
  rcases walk_of_open h.longestName (fun q hq ↦ content?_directory (hway q hq)) with
    hwalk | ⟨-, q, hq, hnone⟩
  · exact hwalk
  · rw [hway q hq] at hnone
    cases hnone

/-- Where no file is, at the end of a way of directories, a directory is made or is there. -/
theorem Roomy.makeDirectory (h : f.Roomy) {p : Path}
    (hnul : p.segments.any (·.contains (Char.ofNat 0)) = false) (hsolid : p.isBlank = false)
    (hway : ∀ q ∈ passed (f.start p) p.segments, f.entry? q = some .directory)
    (hfree : f.content? (follow (f.start p) p.segments) = none) :
    (∃ made, f.makeDirectory p = .ok made ∧
      made.entry? (follow (f.start p) p.segments) = some .directory) ∨
    f.makeDirectory p = .error .alreadyExists ∧ f.isDirectory p = true ∧
      f.entry? (follow (f.start p) p.segments) = some .directory := by
  have hlocate := h.locate hnul hsolid hway
  have houter : f.entry? (follow (f.start p) p.segments).tail = some .directory := by
    cases hentry : f.entry? (follow (f.start p) p.segments) with
    | some entry => exact h.plain _ entry hentry
    | none =>
      rcases h.plain.walk_new (locate_eq_ok hlocate).2 hentry with
        hempty | ⟨name, -, outer, hplace, houter⟩
      · rw [hempty] at hentry
        exact absurd (hentry.symm.trans (h.start_directory p)) nofun
      · rwa [hplace]
  have hnew := locateNew_eq_ok.mpr ⟨hlocate, houter⟩
  cases hentry : f.entry? (follow (f.start p) p.segments) with
  | none =>
    have hinner : follow (f.start p) p.segments ≠ [] := by
      intro htop
      rw [htop] at hentry
      cases hentry
    refine Or.inl ⟨_, bind_eq_ok_iff.mpr ⟨_, hnew, by rw [hentry]⟩, ?_⟩
    rw [entry?_put, if_pos ⟨rfl, hinner⟩]
  | some entry =>
    cases entry with
    | file content => simp [content?, hentry] at hfree
    | directory =>
      refine Or.inr ⟨?_, ?_, rfl⟩
      · unfold Files.makeDirectory
        rw [hnew]
        dsimp only [bind, Except.bind]
        rw [hentry]
      · unfold Files.isDirectory lookup
        rw [hlocate]
        dsimp only [bind, Except.bind]
        rw [hentry]

theorem Roomy.ensureDirectory (h : f.Roomy) {p : Path}
    (hnul : p.segments.any (·.contains (Char.ofNat 0)) = false) (hsolid : p.isBlank = false)
    (hway : ∀ q ∈ passed (f.start p) p.segments, f.entry? q = some .directory)
    (hfree : f.content? (follow (f.start p) p.segments) = none) :
    (f.ensureDirectory p).1 = .ok () ∧
      ∀ q ∈ f.way p, Files.entry? (f.ensureDirectory p).2 q = some .directory := by
  have hkept := (h.plain.ensureDirectory p).directories
  suffices hmade : (f.ensureDirectory p).1 = .ok () ∧
      Files.entry? (f.ensureDirectory p).2 (follow (f.start p) p.segments) = some .directory by
    refine ⟨hmade.1, fun q hq ↦ ?_⟩
    rcases List.mem_append.mp hq with hq | hq
    · exact hkept q (hway q hq)
    · rw [List.mem_singleton.mp hq]
      exact hmade.2
  rw [Files.ensureDirectory]
  rcases h.makeDirectory hnul hsolid hway hfree with ⟨made, hmake, hentry⟩ | ⟨hmake, hthere, hentry⟩
  · rw [hmake]
    exact ⟨rfl, hentry⟩
  · rw [hmake, hthere]
    exact ⟨rfl, hentry⟩

/-- A relative path without a segment to follow stays where it starts. -/
theorem way_of_blank {p : Path} (h : p.isBlank = true) : ∀ q ∈ f.way p, q = f.start p := by
  simp only [Path.isBlank, Bool.and_eq_true, List.all_eq_true, beq_iff_eq] at h
  rw [way]
  generalize f.start p = place
  have hall := h.2
  generalize p.segments = segments at hall
  induction segments with
  | nil => exact fun q hq ↦ List.mem_singleton.mp hq
  | cons segment rest ih =>
    obtain ⟨hsegment, hrest⟩ := List.forall_mem_cons.mp hall
    have hstep : step place segment = place := if_pos (Or.inl hsegment)
    rw [passed, follow, List.foldl_cons, hstep]
    exact List.forall_mem_cons.mpr ⟨rfl, ih hrest⟩

theorem follow_idle {segments : List String} (h : Idle segments) (place : Place) :
    follow place segments = place := by
  induction segments with
  | nil => rfl
  | cons segment rest ih =>
    obtain ⟨hsegment, hrest⟩ := List.forall_mem_cons.mp h
    rw [follow, List.foldl_cons, step, if_pos hsegment]
    exact ih hrest

theorem passed_idle {segments : List String} (h : Idle segments) (place : Place) :
    ∀ q ∈ passed place segments, q = place := by
  induction segments with
  | nil => exact nofun
  | cons segment rest ih =>
    obtain ⟨hsegment, hrest⟩ := List.forall_mem_cons.mp h
    rw [passed, step, if_pos hsegment]
    exact List.forall_mem_cons.mpr ⟨rfl, ih hrest⟩

/-- Whatever holds of the places on the way of the path around another holds of those that the
other passes. -/
theorem passed_of_outer {p outer : Path} (habsolute : outer.absolute = p.absolute)
    {idle : List String} (hidle : Idle idle) {segment : String}
    (hsegments : p.segments = outer.segments ++ (idle ++ [segment])) {holds : Place → Prop}
    (h : ∀ q ∈ f.way outer, holds q) : ∀ q ∈ passed (f.start p) p.segments, holds q := by
  have hstart : f.start p = f.start outer := by rw [start, start, habsolute]
  obtain ⟨hbefore, hbase⟩ := List.forall_mem_append.mp h
  replace hbase := hbase _ (List.mem_singleton_self _)
  rw [hstart, hsegments, passed_append, passed_append, follow_idle hidle]
  refine List.forall_mem_append.mpr ⟨hbefore, List.forall_mem_append.mpr ⟨fun q hq ↦ ?_, ?_⟩⟩
  · rw [passed_idle hidle _ q hq]
    exact hbase
  · exact List.forall_mem_singleton.mpr hbase

/-- A directory can be made once those on its way have been. -/
theorem Roomy.ensureDirectory_grown (h : f.Roomy) {p outer : Path} {made : Files}
    (hgrown : Grown outer f made) (hnul : p.segments.any (·.contains (Char.ofNat 0)) = false)
    (hsolid : p.isBlank = false)
    (hway : ∀ q ∈ passed (f.start p) p.segments, made.entry? q = some .directory)
    (hlast : f.content? (follow (f.start p) p.segments) = none) :
    (made.ensureDirectory p).1 = .ok () ∧
      ∀ q ∈ f.way p, Files.entry? (made.ensureDirectory p).2 q = some .directory := by
  rw [← hgrown.start_eq] at hway
  rw [← hgrown.content?_eq, ← hgrown.start_eq] at hlast
  have hnew := (hgrown.roomy h).ensureDirectory hnul hsolid hway hlast
  rwa [hgrown.way_eq] at hnew

/-- Directories can be made along a way without files. -/
theorem Roomy.ensureAround (h : f.Roomy) {rounds : Nat} {p : Path}
    (hrounds : p.segments.length < rounds)
    (htrimmed : Path.trimEnd p.absolute p.segments.reverse = p.segments.reverse)
    (hnul : p.segments.any (·.contains (Char.ofNat 0)) = false)
    (hfree : ∀ q ∈ f.way p, f.content? q = none) :
    (f.ensureAround rounds p).1 = .ok () ∧
      ∀ q ∈ f.way p, Files.entry? (f.ensureAround rounds p).2 q = some .directory := by
  induction rounds generalizing p with
  | zero => exact absurd hrounds (Nat.not_lt_zero _)
  | succ rounds ih =>
    unfold Files.ensureAround
    split
    · rename_i hblank
      refine ⟨rfl, fun q hq ↦ ?_⟩
      rw [way_of_blank hblank q hq]
      exact h.start_directory p
    · rename_i hsolid
      have hsolid : p.isBlank = false := by simpa using hsolid
      obtain ⟨hpassed, hlast⟩ := List.forall_mem_append.mp hfree
      replace hlast := hlast _ (List.mem_singleton_self _)
      rcases walk_of_open h.longestName hpassed with hwalk | ⟨hwalk, -⟩
      · have hway := (walk_eq_ok hwalk).2
        have hensure := h.ensureDirectory hnul hsolid hway hlast
        rcases h.makeDirectory hnul hsolid hway hlast with ⟨made, hmake, -⟩ | ⟨hmake, -⟩
        · rw [hmake]
          exact hensure
        · rw [hmake]
          exact hensure
      · have hmake : f.makeDirectory p = .error .notFound := by
          rw [Files.makeDirectory, locateNew,
            locate_of_named ⟨hnul, by rw [h.longestPath]; rfl, hsolid⟩, hwalk]
          rfl
        rw [hmake]
        cases hparent : p.parent? with
        | none =>
          rw [parent?_eq_none htrimmed hparent] at hwalk
          cases hwalk
        | some outer =>
          obtain ⟨habsolute, houter, idle, segment, more, hsegments, hidle, hmore⟩ :=
            parent?_eq_some hparent
          obtain rfl := hmore htrimmed
          have hsegments : p.segments = outer.segments ++ (idle ++ [segment]) := by
            simpa only [List.append_assoc, List.append_nil] using hsegments
          have hlength : outer.segments.length < rounds := by
            rw [hsegments, List.length_append, List.length_append, List.length_singleton] at hrounds
            omega
          have hnul' : outer.segments.any (·.contains (Char.ofNat 0)) = false := by
            rw [hsegments, List.any_append, Bool.or_eq_false_iff] at hnul
            exact hnul.1
          obtain ⟨hdone, hmade⟩ := ih hlength houter hnul'
            fun q hq ↦ hfree q (way_part habsolute hsegments hq)
          have hgrown := h.plain.ensureAround rounds outer
          dsimp only
          generalize f.ensureAround rounds outer = around at hdone hmade hgrown ⊢
          obtain ⟨reply, made⟩ := around
          obtain rfl : reply = .ok () := hdone
          exact h.ensureDirectory_grown hgrown hnul hsolid
            (passed_of_outer habsolute hidle hsegments hmade) hlast

theorem Roomy.makeDirectories (h : f.Roomy) {p : Path}
    (htrimmed : Path.trimEnd p.absolute p.segments.reverse = p.segments.reverse)
    (hnul : p.segments.any (·.contains (Char.ofNat 0)) = false)
    (hfree : ∀ q ∈ f.way p, f.content? q = none) :
    (f.makeDirectories p).1 = .ok () ∧
      ∀ q ∈ f.way p, Files.entry? (f.makeDirectories p).2 q = some .directory :=
  h.ensureAround (Nat.lt_succ_self _) htrimmed hnul hfree

end Blueprint.Files

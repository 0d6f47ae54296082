import Blueprint.Proofs.Cache.Disk

/-!
Whether the cache on disk has an entry. It is there when a file stands at its path, and it is missing
when nothing does. `get` fails everywhere else: at a directory, and on a path that cannot be walked.
What `contains` says is told by the path alone, so there it answers all the same
(`Cache.answers_lookup`). It agrees with `get` on every hash whose path leads to a file or to
nothing, and on no other hash that is accepted (`Cache.agrees_iff`).
-/

set_option autoImplicit false

namespace Blueprint.Cache

/-- Whether there is an entry, as a cache tells that only reads it. -/
def containsByReading (cache : Cache) (hash : String) (world : World) : CacheReply Bool :=
  (cache.get hash world).1.map Option.isSome

/-- What a cache says of a hash agrees with what it reads. -/
def Agrees (cache : Cache) (hash : String) (world : World) : Prop :=
  (cache.contains hash world).1 = cache.containsByReading hash world

/-- How the two operations answer for a hash that is accepted, by what the path of its entry leads
to. -/
inductive Answers (root : Path) (hash : String) (files : Files) :
    CacheReply Bool → CacheReply (Option Bytes) → Prop
  | file (content : Bytes) (hlookup : files.lookup (entryPath root hash) = .ok (.file content)) :
      Answers root hash files (.ok true) (.ok (some content))
  | directory (hlookup : files.lookup (entryPath root hash) = .ok .directory) :
      Answers root hash files (.ok true) (.error (.read (entryPath root hash)))
  | nothing (hlookup : files.lookup (entryPath root hash) = .error .notFound) :
      Answers root hash files (.ok false) (.ok none)
  | blocked (e : FileError) (hlookup : files.lookup (entryPath root hash) = .error e)
      (hother : e ≠ .notFound) :
      Answers root hash files (.ok false) (.error (.read (entryPath root hash)))

variable {root : Path} {hash : String} {world : World}

theorem agrees_of_refused (h : ¬ Accepted hash) (root : Path) (world : World) :
    (disk root).Agrees hash world := by
  have hget : (disk root).get hash world = (.error (.invalidHash hash), world) := by
    simp only [disk, locked_of_not h]
  have hcontains : (disk root).contains hash world = (.error (.invalidHash hash), world) :=
    if_neg fun hfile ↦ h (isFileHash_iff.mp hfile)
  rw [Agrees, containsByReading, hget, hcontains]
  rfl

theorem readEntry_of_lookup (h : world.files.lookup (entryPath root hash) = .error .notFound) :
    readEntry root hash world = .ok none := by
  rw [readEntry, Files.read, h]
  rfl

theorem readEntry_of_blocked {e : FileError}
    (h : world.files.lookup (entryPath root hash) = .error e) (he : e ≠ .notFound) :
    readEntry root hash world = .error (.read (entryPath root hash)) := by
  rw [readEntry, Files.read, h]
  cases e with
  | notFound => exact absurd rfl he
  | _ => rfl

theorem answers_lookup (h : Accepted hash) (root : Path) (world : World) :
    Answers root hash world.files ((disk root).contains hash world).1
      ((disk root).get hash world).1 := by
  have hget : ((disk root).get hash world).1 = readEntry root hash world := by
    simp only [disk, locked, isFileHash_iff.mpr h, ↓reduceIte]
    rfl
  have hcontains : ((disk root).contains hash world).1 =
      .ok (world.files.holds (entryPath root hash)) := by
    simp only [disk, isFileHash_iff.mpr h, ↓reduceIte]
  rw [hget, hcontains, Files.holds]
  cases hlookup : world.files.lookup (entryPath root hash) with
  | ok entry =>
    rw [readEntry, Files.read, hlookup]
    cases entry with
    | file content => exact .file content hlookup
    | directory => exact .directory hlookup
  | error e =>
    by_cases he : e = .notFound
    · subst he
      exact readEntry_of_lookup hlookup ▸ .nothing hlookup
    · exact readEntry_of_blocked hlookup he ▸ .blocked e hlookup he

/-- Over any tree of files: whether there is an entry agrees with what is read of it exactly for the
hashes that are refused and for those whose path leads to a file or to nothing. -/
theorem agrees_iff (root : Path) (hash : String) (world : World) :
    (disk root).Agrees hash world ↔
      (Accepted hash →
        (∃ content, world.files.lookup (entryPath root hash) = .ok (.file content)) ∨
          world.files.lookup (entryPath root hash) = .error .notFound) := by
  by_cases h : Accepted hash
  · have hanswers := answers_lookup h root world
    rw [Agrees, containsByReading, forall_prop_of_true h]
    generalize ((disk root).contains hash world).1 = there at hanswers
    generalize ((disk root).get hash world).1 = found at hanswers
    -- The path decides both answers. They part at a directory, and where the way is blocked.
    cases hanswers with
    | file content hlookup => exact iff_of_true rfl (.inl ⟨content, hlookup⟩)
    | nothing hlookup => exact iff_of_true rfl (.inr hlookup)
    | directory hlookup => exact iff_of_false (by rintro ⟨⟩) (by simp [hlookup])
    | blocked e hlookup hother => exact iff_of_false (by rintro ⟨⟩) (by simp [hlookup, hother])
  · exact iff_of_true (agrees_of_refused h root world) fun haccepted ↦ absurd haccepted h

/-- A tree in which a directory stands where an entry would be. -/
def walledIn : World where
  files := { entries := .ofList [
    (["cache"], .directory), (["ab", "cache"], .directory), (["abc", "ab", "cache"], .directory)] }

/-- There the entry is said to be there, and it cannot be read. -/
theorem not_agrees_of_directory : ¬ (disk (.ofString "cache")).Agrees "abc" walledIn := by
  have haccepted : Accepted "abc" := isFileHash_iff.mp (by decide +kernel)
  have hpath : entryPath (.ofString "cache") "abc" = { segments := ["cache", "ab", "abc"] } := by
    decide +kernel
  have hnamed : walledIn.files.Named (entryPath (.ofString "cache") "abc") :=
    ⟨by rw [hpath]; simp, by decide +kernel, by decide +kernel⟩
  have hlookup : walledIn.files.lookup (entryPath (.ofString "cache") "abc") = .ok .directory :=
    Files.lookup_eq_ok.mpr ⟨["abc", "ab", "cache"],
      (Files.locate_of_named hnamed).trans (by decide +kernel), by decide +kernel⟩
  have hanswers := answers_lookup haccepted (.ofString "cache") walledIn
  rw [Agrees, containsByReading]
  generalize ((disk (.ofString "cache")).contains "abc" walledIn).1 = there at hanswers
  generalize ((disk (.ofString "cache")).get "abc" walledIn).1 = found at hanswers
  cases hanswers with
  | directory => rintro ⟨⟩
  | file content hfile => cases hlookup.symm.trans hfile
  | nothing hnothing => cases hlookup.symm.trans hnothing
  | blocked e hblocked => cases hlookup.symm.trans hblocked

end Blueprint.Cache

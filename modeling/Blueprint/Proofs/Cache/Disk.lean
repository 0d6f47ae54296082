import Blueprint.Cache.Disk
import Blueprint.Proofs.Files.Tree
import Blueprint.Proofs.Table

/-!
The cache on disk, over any plain tree of files. A hash that is not accepted is refused
(`Cache.perform_refused`). The entry of an accepted one has a place of its own, in the directory of
the hash's first two characters (`Cache.entryPlace_inj`, `Cache.locate_pathBeside`). What a call can
do to the tree is said once (`Cache.Served`); from it follow that a call which succeeds acts on its
entry as on that of a map and touches no other file, that one which fails leaves the content of
every file, and that no temporary file and no lock stay behind (`Cache.Confined`,
`Cache.Settled.step`).
-/

set_option autoImplicit false

namespace Blueprint.Locks

/-- No operation is under way, and no hash has a mutex. -/
structure Idle (l : Locks) : Prop where
  mutexes : l.mutexes = {}
  holders : l.holders = {}

theorem Idle.leave {l : Locks} (h : l.Idle) (hash : String) :
    (((l.enter hash).2.acquire (l.enter hash).1).leave (l.enter hash).1).Idle := by
  obtain ⟨mutexes, holders, nextMutex, nextTicket⟩ := l
  obtain ⟨rfl, rfl⟩ := h
  constructor
  · simp [enter, acquire, Locks.leave, isShared, isOwned, Table.get?, Table.find, Table.insert,
      Table.put, Table.erase, Table.drop]
  · simp [enter, acquire, Locks.leave, isShared, isOwned, Table.get?, Table.find, Table.insert,
      Table.put, Table.erase, Table.drop]

end Blueprint.Locks

namespace Blueprint.Cache

/-! ### Names -/

/-- A hash of letters, digits, `-` and `_`, one at least. -/
structure Accepted (hash : String) : Prop where
  nonempty : hash ≠ ""
  plain : ∀ c ∈ hash.toList, c.isAlphanum = true ∨ c = '-' ∨ c = '_'

theorem isFileHash_iff {hash : String} : isFileHash hash = true ↔ Accepted hash := by
  simp only [isFileHash, Bool.and_eq_true, decide_eq_true_eq, List.all_eq_true, Bool.or_eq_true,
    beq_iff_eq, or_assoc]
  exact ⟨fun h ↦ ⟨h.1, h.2⟩, fun h ↦ ⟨h.1, h.2⟩⟩

/-- A name that something in a directory can have. -/
structure Solid (name : String) : Prop where
  blank : name ≠ ""
  dot : name ≠ "."
  up : name ≠ ".."
  noNul : name.contains (Char.ofNat 0) = false

/-- The name under which an entry is written first. -/
def temporaryName (hash : String) (number : Nat) : String := s!"{hash}.tmp-{runName number}"

theorem Accepted.not_mem {hash : String} (h : Accepted hash) {c : Char}
    (hc : c.isAlphanum = false ∧ c ≠ '-' ∧ c ≠ '_') : c ∉ hash.toList := by
  intro hmem
  rcases h.plain c hmem with halpha | hdash | hscore
  · rw [hc.1] at halpha
    cases halpha
  · exact hc.2.1 hdash
  · exact hc.2.2 hscore

theorem Accepted.noDot {hash : String} (h : Accepted hash) : '.' ∉ hash.toList :=
  h.not_mem (by decide)

theorem Accepted.solid {hash : String} (h : Accepted hash) : Solid hash where
  blank := h.nonempty
  dot := by
    rintro rfl
    exact h.noDot (by decide)
  up := by
    rintro rfl
    exact h.noDot (by decide)
  noNul := by
    rw [String.contains_char_eq, decide_eq_false_iff_not]
    exact h.not_mem (by decide)

theorem Accepted.shard {hash : String} (h : Accepted hash) : Accepted (shard hash) where
  nonempty := by
    intro hshard
    rw [Cache.shard, String.ofList_eq_empty_iff, List.take_eq_nil_iff, String.toList_eq_nil_iff]
      at hshard
    rcases hshard with hzero | hempty
    · cases hzero
    · exact h.nonempty hempty
  plain c hc := by
    rw [Cache.shard, String.toList_ofList] at hc
    exact h.plain c (List.mem_of_mem_take hc)

theorem temporaryName_toList (hash : String) (number : Nat) :
    (temporaryName hash number).toList = hash.toList ++ ".tmp-".toList ++ (runName number).toList := by
  have hname : temporaryName hash number = hash ++ ".tmp-" ++ runName number := rfl
  rw [hname, String.toList_append, String.toList_append]

theorem mem_temporaryName {c : Char} (hc : c ∈ ".tmp-".toList) (hash : String) (number : Nat) :
    c ∈ (temporaryName hash number).toList := by
  rw [temporaryName_toList]
  exact List.mem_append_left _ (List.mem_append_right _ hc)

/-- A temporary file has a name that no entry has. -/
theorem temporaryName_ne {hash other : String} (h : Accepted other) (number : Nat) :
    temporaryName hash number ≠ other := by
  rintro rfl
  exact h.noDot (mem_temporaryName (by decide) hash number)

theorem nul_not_mem_runName (number : Nat) : Char.ofNat 0 ∉ (runName number).toList := by
  have hdigit : ∀ digit < 16, Nat.digitChar digit ≠ Char.ofNat 0 := by decide
  have hdigits : Char.ofNat 0 ∉ hexDigits 32 number := by
    intro hmem
    obtain ⟨i, -, hi⟩ := List.mem_map.mp hmem
    exact hdigit _ (Nat.mod_lt _ (by decide)) hi
  have htake (n : Nat) (digits : List Char) (h : Char.ofNat 0 ∉ digits) :
      Char.ofNat 0 ∉ digits.take n := fun hmem ↦ h (List.mem_of_mem_take hmem)
  have hdrop (n : Nat) : Char.ofNat 0 ∉ (hexDigits 32 number).drop n :=
    fun hmem ↦ hdigits (List.mem_of_mem_drop hmem)
  have hdash : Char.ofNat 0 ≠ '-' := by decide
  rw [runName, String.toList_ofList]
  simp only [List.mem_append, List.mem_cons, hdash, false_or, not_or]
  exact ⟨⟨⟨⟨htake _ _ hdigits, htake _ _ (hdrop _)⟩, htake _ _ (hdrop _)⟩, htake _ _ (hdrop _)⟩,
    hdrop _⟩

theorem solid_temporaryName {hash : String} (h : Accepted hash) (number : Nat) :
    Solid (temporaryName hash number) := by
  have hmark : 't' ∈ (temporaryName hash number).toList := mem_temporaryName (by decide) hash number
  refine ⟨?_, ?_, ?_, ?_⟩
  · intro heq
    exact absurd (heq ▸ hmark) (by decide)
  · intro heq
    exact absurd (heq ▸ hmark) (by decide)
  · intro heq
    exact absurd (heq ▸ hmark) (by decide)
  · rw [String.contains_char_eq, decide_eq_false_iff_not, temporaryName_toList]
    simp only [List.mem_append, not_or]
    exact ⟨⟨h.not_mem (by decide), by decide⟩, nul_not_mem_runName number⟩

/-! ### Places -/

/-- The path of a name beside the entry of a hash. -/
def pathBeside (root : Path) (hash name : String) : Path := (root.child (shard hash)).child name

theorem entryPath_eq (root : Path) (hash : String) :
    entryPath root hash = pathBeside root hash hash := rfl

theorem temporaryPath_eq (root : Path) (hash : String) (number : Nat) :
    temporaryPath root hash number = pathBeside root hash (temporaryName hash number) := rfl

/-- The place of the entry of a hash. -/
def entryPlace (root : Path) (files : Files) (hash : String) : Place :=
  hash :: shard hash :: Files.placeOf files.here root

/-- Distinct hashes have distinct places. -/
theorem entryPlace_inj {root : Path} {files : Files} {hash other : String} :
    entryPlace root files hash = entryPlace root files other ↔ hash = other := by
  constructor
  · intro h
    exact (List.cons.inj h).1
  · rintro rfl
    rfl

theorem child_segments (base : Path) (name : String) :
    (base.child name).segments = Path.stem base.segments ++ [name] := rfl

theorem stem_append_solid {name : String} (h : name ≠ "") (segments : List String) :
    Path.stem (segments ++ [name]) = segments ++ [name] := by
  simp [Path.stem, h]

theorem stem_eq (segments : List String) :
    segments = Path.stem segments ∨ segments = Path.stem segments ++ [""] := by
  unfold Path.stem
  split
  · rename_i hlast
    refine Or.inr ?_
    rw [List.dropLast_append_getLast?]
    simpa using hlast
  · exact Or.inl rfl

/-- An entry is the file of its hash in the directory of the first two characters. -/
theorem pathBeside_segments {hash : String} (h : Accepted hash) (root : Path) (name : String) :
    (pathBeside root hash name).segments = Path.stem root.segments ++ [shard hash, name] := by
  rw [pathBeside, child_segments, child_segments, stem_append_solid h.shard.nonempty]
  simp

section Places

variable {f g : Files} {root : Path} {hash name : String} {place : Place}

theorem step_solid (h : Solid name) (place : Place) : Files.step place name = name :: place := by
  rw [Files.step, if_neg (not_or.mpr ⟨h.blank, h.dot⟩), if_neg h.up]

theorem follow_stem (place : Place) (segments : List String) :
    Files.follow place (Path.stem segments) = Files.follow place segments := by
  rcases stem_eq segments with hsame | hblank
  · rw [← hsame]
  · conv_rhs => rw [hblank, Files.follow_append]
    rfl

/-- A blank segment at the end leads nowhere new. -/
theorem mem_passed_stem (start q : Place) (segments : List String) :
    q ∈ Files.passed start (Path.stem segments) ++ [Files.follow start segments] ↔
      q ∈ Files.passed start segments ++ [Files.follow start segments] := by
  rcases stem_eq segments with hsame | hblank
  · rw [← hsame]
  · conv_rhs => rw [hblank, Files.passed_append, ← hblank, follow_stem]
    simp [Files.passed]

theorem mem_way_shard (h : Accepted hash) {q : Place} :
    q ∈ f.way (root.child (shard hash)) ↔
      q ∈ f.way root ∨ q = shard hash :: Files.placeOf f.here root := by
  have hstart : f.start (root.child (shard hash)) = f.start root := rfl
  rw [Files.way, hstart, child_segments, Files.passed_append, Files.follow_append, follow_stem,
    Files.placeOf_eq]
  change q ∈ _ ++ [_] ++ [Files.step _ (shard hash)] ↔ _
  rw [step_solid h.shard.solid, List.mem_append, mem_passed_stem, List.mem_singleton]
  rfl

theorem mem_passed_pathBeside (h : Accepted hash) {q : Place} :
    q ∈ Files.passed (f.start root) (pathBeside root hash name).segments ↔
      q ∈ f.way root ∨ q = shard hash :: Files.placeOf f.here root := by
  rw [← mem_way_shard h, pathBeside_segments h, Files.way, child_segments]
  have hsegments : Path.stem root.segments ++ [shard hash, name] =
      Path.stem root.segments ++ [shard hash] ++ [name] := by simp
  rw [hsegments, Files.passed_append]
  rfl

theorem follow_pathBeside (h : Accepted hash) (hname : Solid name) :
    Files.follow (f.start root) (pathBeside root hash name).segments =
      name :: shard hash :: Files.placeOf f.here root := by
  rw [pathBeside_segments h, Files.follow_append, follow_stem, Files.placeOf_eq]
  change Files.step (Files.step _ (shard hash)) name = _
  rw [step_solid h.shard.solid, step_solid hname]

theorem start_pathBeside (f : Files) (root : Path) (hash name : String) :
    f.start (pathBeside root hash name) = f.start root := rfl

/-- A path beside an entry that can be walked leads into the directory of the first two characters,
and the root's way is directories. -/
theorem locate_pathBeside (h : Accepted hash) (hname : Solid name)
    (hlocate : f.locate (pathBeside root hash name) = .ok place) :
    place = name :: shard hash :: Files.placeOf f.here root ∧
      ∀ q ∈ f.way root, f.entry? q = some .directory := by
  have hwalk := (Files.locate_eq_ok hlocate).2
  rw [start_pathBeside] at hwalk
  obtain ⟨hplace, hpassed⟩ := Files.walk_eq_ok hwalk
  rw [follow_pathBeside h hname] at hplace
  exact ⟨hplace, fun q hq ↦ hpassed q ((mem_passed_pathBeside h).mpr (Or.inl hq))⟩

/-! ### Files written and removed -/

/-- What is written, besides the directories around it: nothing, or the entry. -/
inductive Wrote (root : Path) (hash : String) (content : Bytes) (made g : Files) :
    CacheReply Unit → Prop where
  | failed (e : CacheError) (hentry : ∀ q, g.entry? q = made.entry? q) :
      Wrote root hash content made g (.error e)
  | done (hlocate : made.locate (entryPath root hash) = .ok (entryPlace root made hash))
      (hfree : made.entry? (entryPlace root made hash) ≠ some .directory)
      (hentry : ∀ q, g.entry? q =
        if q = entryPlace root made hash then some (.file content) else made.entry? q) :
      Wrote root hash content made g (.ok ())

/-- What is put where nothing was and dropped again leaves no trace. -/
theorem entry?_drop_put {place : Place} (hnone : f.entry? place = none) (entry : FileEntry)
    (q : Place) : Files.entry? ((f.put place entry).drop place) q = f.entry? q := by
  rw [Files.entry?_drop, Files.entry?_put]
  split
  · rename_i hsame
    rw [← hsame.1, hnone]
  · rfl

section

variable {made : Files} {content : Bytes} {place : Place}

/-- Assumes: the bytes stand at a place of their own, and are moved from there. -/
theorem wrote_of_moved {g : Files} {temporary : Path} (h : Accepted hash)
    (hnone : made.entry? place = none)
    (hplain : (made.put place (.file content)).Plain)
    (hwritten : made.Alike (made.put place (.file content)))
    (hfile : Files.entry? (made.put place (.file content)) place = some (.file content))
    (hlocate : (made.put place (.file content)).locate temporary = .ok place)
    (hrename : (made.put place (.file content)).rename temporary (entryPath root hash) = .ok g) :
    made.Alike g ∧ g.Plain ∧ Wrote root hash content made g (.ok ()) := by
  obtain ⟨reached, hreached, hfreeReached, rfl⟩ := (Files.rename_eq_ok hlocate hfile).mp hrename
  obtain ⟨hlocateReached, houterReached⟩ := Files.locateNew_eq_ok.mp hreached
  have hlocateMade := Files.put_alike.locate hlocateReached
  obtain ⟨hreachedPlace, -⟩ := locate_pathBeside h h.solid hlocateMade
  have hdropped := entry?_drop_put hnone (.file content)
  have hnotDirectory : Files.entry? (made.put place (.file content)) place ≠ some .directory := by
    simp [hfile]
  have hback := Files.alike_drop hnotDirectory
  have hmoved (q : Place) : Files.entry? (((made.put place (.file content)).drop place).put reached
      (.file content)) q =
        if q = entryPlace root made hash then some (.file content) else made.entry? q := by
    rw [Files.entry?_put, hdropped, hreachedPlace]
    refine if_congr ⟨fun hsame ↦ hsame.1.symm, ?_⟩ rfl rfl
    rintro rfl
    exact ⟨rfl, by simp [entryPlace]⟩
  have hfreeMade : made.entry? (entryPlace root made hash) ≠ some .directory := by
    rw [Files.entry?_put] at hfreeReached
    split at hfreeReached
    · rename_i hsame
      rw [entryPlace, ← hreachedPlace, ← hsame.1, hnone]
      exact nofun
    · rwa [hreachedPlace] at hfreeReached
  have hfreeDropped : Files.entry? ((made.put place (.file content)).drop place) reached ≠
      some .directory := by
    rw [hdropped, hreachedPlace]
    exact hfreeMade
  rw [hreachedPlace] at hlocateMade
  refine ⟨hwritten.trans (hback.trans (Files.alike_put hfreeDropped)), ?_,
    .done hlocateMade hfreeMade hmoved⟩
  exact (hplain.drop hnotDirectory).put (hback.directories _ houterReached) (Or.inl hfreeDropped)

end

/-- An entry is written under a new name, then moved to its place or removed again. -/
theorem wrote_of_write {made written : Files} {number : Nat} {content : Bytes}
    (hplain : made.Plain) (h : Accepted hash)
    (hunused : ∀ outer, made.entry? (temporaryName hash number :: outer) = none)
    (hmade : f.makeDirectories (root.child (shard hash)) = (.ok (), made))
    (hwrite : made.write (temporaryPath root hash number) content = .ok written) :
    made.Alike (writeEntry root hash content number f).2 ∧
      (writeEntry root hash content number f).2.Plain ∧
      Wrote root hash content made (writeEntry root hash content number f).2
        (writeEntry root hash content number f).1 := by
  rw [writeEntry, hmade]
  dsimp only
  rw [hwrite]
  dsimp only
  obtain ⟨place, hnew, -, rfl⟩ := Files.write_eq_ok.mp hwrite
  obtain ⟨hlocate, houter⟩ := Files.locateNew_eq_ok.mp hnew
  obtain ⟨hplace, -⟩ := locate_pathBeside h (solid_temporaryName h number) hlocate
  have hnone : made.entry? place = none := hplace ▸ hunused _
  have hfree : made.entry? place ≠ some .directory := by simp [hnone]
  have hwritten : made.Alike (made.put place (.file content)) := Files.alike_put hfree
  have hfile : Files.entry? (made.put place (.file content)) place = some (.file content) := by
    rw [Files.entry?_put, if_pos ⟨rfl, by simp [hplace]⟩]
  have hplainWritten : (made.put place (.file content)).Plain :=
    hplain.put houter (Or.inl hfree)
  cases hrename : (made.put place (.file content)).rename (temporaryPath root hash number)
      (entryPath root hash) with
  | error e =>
    have hnotDirectory : Files.entry? (made.put place (.file content)) place ≠ some .directory := by
      simp [hfile]
    dsimp only
    rw [Files.remove_of_file (hwritten.locate hlocate) hfile]
    exact ⟨hwritten.trans (Files.alike_drop hnotDirectory), hplainWritten.drop hnotDirectory,
      .failed _ (entry?_drop_put hnone (.file content))⟩
  | ok g => exact wrote_of_moved h hnone hplainWritten hwritten hfile (hwritten.locate hlocate) hrename

/-- Directories around an entry do not take the names of temporary files. -/
theorem entry?_temporary_of_grown {made : Files} {number : Nat} (h : Accepted hash) {other : String}
    (hoff : temporaryName other number ∉ root.segments)
    (hgrown : Files.Grown (root.child (shard hash)) f made) {outer : Place}
    (hunused : f.entry? (temporaryName other number :: outer) = none) :
    made.entry? (temporaryName other number :: outer) = none := by
  rcases hgrown.entry (temporaryName other number :: outer) with
    hkept | ⟨-, -, -, name, hname, inner, hplace⟩
  · rw [hkept, hunused]
  · obtain rfl := (List.cons.inj hplace).1
    rw [child_segments] at hname
    rcases List.mem_append.mp hname with hname | hname
    · rcases stem_eq root.segments with hsame | hblank
      · exact absurd (hsame ▸ hname) hoff
      · exact absurd (hblank ▸ List.mem_append_left _ hname) hoff
    · exact absurd (List.mem_singleton.mp hname) (temporaryName_ne h.shard number)

/-- Writing an entry makes directories around it, and then writes the entry or fails. -/
theorem writeEntry_wrote {number : Nat} (hplain : f.Plain) (h : Accepted hash)
    (hunused : ∀ outer, f.entry? (temporaryName hash number :: outer) = none)
    (hoff : temporaryName hash number ∉ root.segments) (content : Bytes) :
    ∃ made, Files.Grown (root.child (shard hash)) f made ∧
      made.Alike (writeEntry root hash content number f).2 ∧
      (writeEntry root hash content number f).2.Plain ∧
      Wrote root hash content made (writeEntry root hash content number f).2
        (writeEntry root hash content number f).1 := by
  have hgrown := hplain.makeDirectories (root.child (shard hash))
  rcases hmake : f.makeDirectories (root.child (shard hash)) with ⟨reply, made⟩
  rw [hmake] at hgrown
  have hplainMade : made.Plain := hgrown.plain
  refine ⟨made, hgrown, ?_⟩
  cases reply with
  | error e =>
    rw [writeEntry, hmake]
    exact ⟨.refl made, hplainMade, .failed _ fun _ ↦ rfl⟩
  | ok done =>
    cases hwrite : made.write (temporaryPath root hash number) content with
    | error e =>
      rw [writeEntry, hmake]
      dsimp only
      rw [hwrite]
      exact ⟨.refl made, hplainMade, .failed _ fun _ ↦ rfl⟩
    | ok written =>
      exact wrote_of_write hplainMade h
        (fun outer ↦ entry?_temporary_of_grown h hoff hgrown (hunused outer)) hmake hwrite

/-- What is removed: nothing, or the file of the entry. -/
inductive Removed (root : Path) (hash : String) (f : Files) : CacheReply Unit → Files → Prop where
  | failed (e : CacheError) : Removed root hash f (.error e) f
  | absent (hlookup : f.lookup (entryPath root hash) = .error .notFound) :
      Removed root hash f (.ok ()) f
  | done (content : Bytes) (hlocate : f.locate (entryPath root hash) = .ok (entryPlace root f hash))
      (hentry : f.entry? (entryPlace root f hash) = some (.file content)) :
      Removed root hash f (.ok ()) (f.drop (entryPlace root f hash))

theorem removeEntry_removed (h : Accepted hash) (f : Files) :
    Removed root hash f (removeEntry root hash f).1 (removeEntry root hash f).2 := by
  unfold removeEntry
  split
  · rename_i g hremove
    obtain ⟨place, content, hlocate, hentry, rfl⟩ := Files.remove_eq_ok hremove
    obtain ⟨rfl, -⟩ := locate_pathBeside h h.solid hlocate
    exact .done content hlocate hentry
  · rename_i hremove
    exact .absent (Files.remove_eq_notFound.mp hremove)
  · exact .failed _

end Places

/-! ### Calls -/

inductive Call where
  | get (hash : String)
  | put (hash : String) (content : Bytes)
  | remove (hash : String)
  | contains (hash : String)
deriving DecidableEq

inductive Answer where
  | content (found : Option Bytes)
  | done
  | there (found : Bool)
deriving DecidableEq

namespace Call

def hash : Call → String
  | .get hash | .put hash _ | .remove hash | .contains hash => hash

def perform (cache : Cache) (world : World) : Call → CacheReply Answer × World
  | .get hash => ((cache.get hash world).1.map .content, (cache.get hash world).2)
  | .put hash content =>
    ((cache.put hash content world).1.map fun _ ↦ .done, (cache.put hash content world).2)
  | .remove hash => ((cache.remove hash world).1.map fun _ ↦ .done, (cache.remove hash world).2)
  | .contains hash => ((cache.contains hash world).1.map .there, (cache.contains hash world).2)

/-- What a call answers on a map, and makes of it, at the key of its hash. -/
def onEntry : Call → Option Bytes → Answer × Option Bytes
  | .get _, entry => (.content entry, entry)
  | .put _ content, _ => (.done, some content)
  | .remove _, _ => (.done, none)
  | .contains _, entry => (.there entry.isSome, entry)

end Call

/-- The world after some calls. -/
def after (cache : Cache) (world : World) (calls : List Call) : World :=
  calls.foldl (fun world call ↦ (call.perform cache world).2) world

theorem locked_of_not {α : Type} {hash : String} (h : ¬ Accepted hash) (world : World)
    (work : World → CacheReply α × World) :
    locked hash world work = (.error (.invalidHash hash), world) := by
  rw [locked, if_neg fun hfile ↦ h (isFileHash_iff.mp hfile)]

/-- Work of which the locks are not a part leaves none behind. -/
theorem locked_of_idle {α : Type} {hash : String} (h : Accepted hash) {world : World}
    (hidle : world.locks.Idle) (work : World → CacheReply α × World)
    (hwork : ∀ world, (work world).2.locks = world.locks) :
    ∃ held left : Locks, left.Idle ∧ locked hash world work =
      ((work { world with locks := held }).1,
        { (work { world with locks := held }).2 with locks := left }) := by
  refine ⟨(world.locks.enter hash).2.acquire (world.locks.enter hash).1, _, hidle.leave hash, ?_⟩
  rw [locked, if_pos (isFileHash_iff.mpr h)]
  dsimp only
  rw [hwork]

theorem get_disk {hash : String} (h : Accepted hash) {world : World} (hidle : world.locks.Idle)
    (root : Path) : ∃ left : Locks, left.Idle ∧
      (disk root).get hash world = (readEntry root hash world, { world with locks := left }) := by
  obtain ⟨held, left, hleft, heq⟩ := locked_of_idle h hidle
    (fun world ↦ (readEntry root hash world, world)) fun _ ↦ rfl
  exact ⟨left, hleft, heq⟩

theorem put_disk {hash : String} (h : Accepted hash) {world : World} (hidle : world.locks.Idle)
    (root : Path) (content : Bytes) : ∃ left : Locks, left.Idle ∧
      (disk root).put hash content world =
        ((writeEntry root hash content world.temporaries world.files).1,
          { world with
            locks := left
            files := (writeEntry root hash content world.temporaries world.files).2
            temporaries := world.temporaries + 1 }) := by
  obtain ⟨held, left, hleft, heq⟩ := locked_of_idle h hidle
    (fun world ↦ ((writeEntry root hash content world.temporaries world.files).1,
      { world with
        files := (writeEntry root hash content world.temporaries world.files).2
        temporaries := world.temporaries + 1 })) fun _ ↦ rfl
  exact ⟨left, hleft, heq⟩

theorem remove_disk {hash : String} (h : Accepted hash) {world : World} (hidle : world.locks.Idle)
    (root : Path) : ∃ left : Locks, left.Idle ∧
      (disk root).remove hash world = ((removeEntry root hash world.files).1,
        { world with locks := left, files := (removeEntry root hash world.files).2 }) := by
  obtain ⟨held, left, hleft, heq⟩ := locked_of_idle h hidle
    (fun world ↦ ((removeEntry root hash world.files).1,
      { world with files := (removeEntry root hash world.files).2 })) fun _ ↦ rfl
  exact ⟨left, hleft, heq⟩

/-- What is stored under a hash. -/
def stored (root : Path) (files : Files) (hash : String) : Option Bytes :=
  (files.read (entryPath root hash)).toOption

/-- No file has, or gets from the root, the name of a temporary file from a number on. -/
structure Fresh (root : Path) (number : Nat) (f : Files) : Prop where
  unused : ∀ hash later outer, Accepted hash → number ≤ later →
    f.entry? (temporaryName hash later :: outer) = none
  offRoot : ∀ hash later, Accepted hash → number ≤ later →
    temporaryName hash later ∉ root.segments

/-- Between two calls of a cache whose first temporary file had a number. -/
structure Settled (root : Path) (number : Nat) (world : World) : Prop where
  plain : world.files.Plain
  fresh : Fresh root number world.files
  later : number ≤ world.temporaries
  idle : world.locks.Idle

/-- How a call on an accepted hash is served. -/
inductive Served (root : Path) (f : Files) : Call → CacheReply Answer → Files → Prop where
  | get (hash : String) (world : World) (hfiles : world.files = f) :
      Served root f (.get hash) ((readEntry root hash world).map .content) f
  | put (hash : String) (content : Bytes) {made g : Files} {reply : CacheReply Unit}
      (hgrown : Files.Grown (root.child (shard hash)) f made) (halike : made.Alike g)
      (hplain : g.Plain) (hwrote : Wrote root hash content made g reply) :
      Served root f (.put hash content) (reply.map fun _ ↦ .done) g
  | remove (hash : String) {g : Files} {reply : CacheReply Unit}
      (hremoved : Removed root hash f reply g) :
      Served root f (.remove hash) (reply.map fun _ ↦ .done) g
  | contains (hash : String) :
      Served root f (.contains hash) (.ok (.there (f.holds (entryPath root hash)))) f

variable {root : Path} {number : Nat} {world : World} {call : Call}

theorem perform_refused (h : ¬ Accepted call.hash) (root : Path) (world : World) :
    call.perform (disk root) world = (.error (.invalidHash call.hash), world) := by
  cases call with
  | get hash =>
    replace h : ¬ Accepted hash := h
    have heq : (disk root).get hash world = (.error (.invalidHash hash), world) := by
      simp only [disk, locked_of_not h]
    rw [Call.perform, heq]
    rfl
  | put hash content =>
    replace h : ¬ Accepted hash := h
    have heq : (disk root).put hash content world = (.error (.invalidHash hash), world) := by
      simp only [disk, locked_of_not h]
    rw [Call.perform, heq]
    rfl
  | remove hash =>
    replace h : ¬ Accepted hash := h
    have heq : (disk root).remove hash world = (.error (.invalidHash hash), world) := by
      simp only [disk, locked_of_not h]
    rw [Call.perform, heq]
    rfl
  | contains hash =>
    replace h : ¬ Accepted hash := h
    have heq : (disk root).contains hash world = (.error (.invalidHash hash), world) :=
      if_neg fun hfile ↦ h (isFileHash_iff.mp hfile)
    rw [Call.perform, heq]
    rfl

theorem perform_served (hworld : Settled root number world) (h : Accepted call.hash) :
    Served root world.files call (call.perform (disk root) world).1
        (call.perform (disk root) world).2.files ∧
      (call.perform (disk root) world).2.locks.Idle ∧
      world.temporaries ≤ (call.perform (disk root) world).2.temporaries := by
  cases call with
  | get hash =>
    replace h : Accepted hash := h
    obtain ⟨left, hleft, heq⟩ := get_disk h hworld.idle root
    rw [Call.perform, heq]
    exact ⟨.get hash world rfl, hleft, Nat.le_refl _⟩
  | put hash content =>
    replace h : Accepted hash := h
    obtain ⟨left, hleft, heq⟩ := put_disk h hworld.idle root content
    obtain ⟨made, hgrown, halike, hplain, hwrote⟩ := writeEntry_wrote hworld.plain h
      (fun outer ↦ hworld.fresh.unused hash _ outer h hworld.later)
      (hworld.fresh.offRoot hash _ h hworld.later) content
    rw [Call.perform, heq]
    exact ⟨.put hash content hgrown halike hplain hwrote, hleft, Nat.le_succ _⟩
  | remove hash =>
    replace h : Accepted hash := h
    obtain ⟨left, hleft, heq⟩ := remove_disk h hworld.idle root
    rw [Call.perform, heq]
    exact ⟨.remove hash (removeEntry_removed h world.files), hleft, Nat.le_refl _⟩
  | contains hash =>
    replace h : Accepted hash := h
    have heq : (disk root).contains hash world =
        (.ok (world.files.holds (entryPath root hash)), world) :=
      if_pos (isFileHash_iff.mpr h)
    rw [Call.perform, heq]
    exact ⟨.contains hash, hworld.idle, Nat.le_refl _⟩

variable {f g : Files} {hash : String} {reply : CacheReply Answer}

theorem stored_eq_some (h : Accepted hash) {content : Bytes} :
    stored root f hash = some content ↔
      f.locate (entryPath root hash) = .ok (entryPlace root f hash) ∧
        f.entry? (entryPlace root f hash) = some (.file content) := by
  have hread : stored root f hash = some content ↔ f.read (entryPath root hash) = .ok content := by
    rw [stored]
    cases f.read (entryPath root hash) <;> simp [Except.toOption]
  rw [hread, Files.read_eq_ok, Files.lookup_eq_ok]
  constructor
  · rintro ⟨place, hlocate, hentry⟩
    obtain ⟨rfl, -⟩ := locate_pathBeside h h.solid hlocate
    exact ⟨hlocate, hentry⟩
  · rintro ⟨hlocate, hentry⟩
    exact ⟨_, hlocate, hentry⟩

theorem entryPlace_alike (h : f.Alike g) (root : Path) (hash : String) :
    entryPlace root g hash = entryPlace root f hash := by
  rw [entryPlace, h.here, entryPlace]

theorem stored_of_notFound (h : f.lookup (entryPath root hash) = .error .notFound) :
    stored root f hash = none := by
  rw [stored, Files.read, h]
  rfl

/-- A call that succeeds answers what it answers on a map, and makes of its entry what it makes of
the map. -/
theorem Served.mapped (h : Served root f call reply g) (haccepted : Accepted call.hash)
    (hcall : ∀ hash, call ≠ .contains hash) {answer : Answer} (hreply : reply = .ok answer) :
    (answer, stored root g call.hash) = call.onEntry (stored root f call.hash) := by
  cases h with
  | get hash world hfiles =>
    subst hfiles
    rw [readEntry] at hreply
    simp only [Call.onEntry, Call.hash, stored, Prod.mk.injEq, and_true]
    cases hread : world.files.read (entryPath root hash) with
    | ok content =>
      rw [hread] at hreply
      exact (Except.ok.inj hreply).symm
    | error e =>
      rw [hread] at hreply
      cases e with
      | notFound => exact (Except.ok.inj hreply).symm
      | _ => cases hreply
  | put hash content hgrown halike hplain hwrote =>
    cases hwrote with
    | failed e hentry => cases hreply
    | done hlocate hfree hentry =>
      obtain rfl := Except.ok.inj hreply
      replace haccepted : Accepted hash := haccepted
      have hstored : stored root g hash = some content := by
        rw [stored_eq_some haccepted, entryPlace_alike halike, hentry]
        exact ⟨halike.locate hlocate, if_pos rfl⟩
      exact Prod.ext rfl hstored
  | remove hash hremoved =>
    cases hremoved with
    | failed e => cases hreply
    | absent hlookup =>
      obtain rfl := Except.ok.inj hreply
      exact Prod.ext rfl (stored_of_notFound hlookup)
    | done content hlocate hentry =>
      obtain rfl := Except.ok.inj hreply
      replace haccepted : Accepted hash := haccepted
      have hnone : Files.entry? (f.drop (entryPlace root f hash)) (entryPlace root f hash) = none := by
        rw [Files.entry?_drop, if_pos ⟨rfl, by simp [entryPlace]⟩]
      refine Prod.ext rfl (Option.eq_none_iff_forall_ne_some.mpr fun left hleft ↦ ?_)
      have hfile := ((stored_eq_some haccepted).mp hleft).2
      exact absurd (hfile.symm.trans hnone) nofun
  | contains hash => exact absurd rfl (hcall hash)

/-- A call touches no file but its entry's. -/
theorem Served.apart (h : Served root f call reply g) {place : Place}
    (hplace : place ≠ entryPlace root f call.hash) : g.content? place = f.content? place := by
  cases h with
  | get hash world hfiles => rfl
  | put hash content hgrown halike hplain hwrote =>
    rw [← hgrown.content?_eq place]
    refine Files.content?_congr ?_
    cases hwrote with
    | failed e hentry => exact hentry place
    | done hlocate hfree hentry =>
      rw [hentry, if_neg]
      rw [entryPlace_alike hgrown.toAlike]
      exact hplace
  | remove hash hremoved =>
    refine Files.content?_congr ?_
    cases hremoved with
    | failed e => rfl
    | absent hlookup => rfl
    | done content hlocate hentry =>
      rw [Files.entry?_drop, if_neg fun hsame ↦ hplace hsame.1.symm]
  | contains hash => rfl

/-- A call that fails leaves the content of every file as it is. -/
theorem Served.failed (h : Served root f call reply g) {e : CacheError} (hreply : reply = .error e)
    (place : Place) : g.content? place = f.content? place := by
  cases h with
  | get hash world hfiles => rfl
  | put hash content hgrown halike hplain hwrote =>
    rw [← hgrown.content?_eq place]
    cases hwrote with
    | failed e hentry => exact Files.content?_congr (hentry place)
    | done hlocate hfree hentry => cases hreply
  | remove hash hremoved =>
    cases hremoved with
    | failed e => rfl
    | absent hlookup => rfl
    | done content hlocate hentry => cases hreply
  | contains hash => rfl

theorem Served.alike (h : Served root f call reply g) : f.Alike g := by
  cases h with
  | get hash world hfiles => exact .refl f
  | put hash content hgrown halike hplain hwrote => exact hgrown.toAlike.trans halike
  | remove hash hremoved =>
    cases hremoved with
    | failed e => exact .refl f
    | absent hlookup => exact .refl f
    | done content hlocate hentry => exact Files.alike_drop (by simp [hentry])
  | contains hash => exact .refl f

theorem Served.plain (h : Served root f call reply g) (hplain : f.Plain) : g.Plain := by
  cases h with
  | get hash world hfiles => exact hplain
  | put hash content hgrown halike hplain hwrote => exact hplain
  | remove hash hremoved =>
    cases hremoved with
    | failed e => exact hplain
    | absent hlookup => exact hplain
    | done content hlocate hentry => exact hplain.drop (by simp [hentry])
  | contains hash => exact hplain

/-- A call leaves no temporary file behind. -/
theorem Served.fresh (h : Served root f call reply g) (haccepted : Accepted call.hash)
    (hfresh : Fresh root number f) : Fresh root number g := by
  refine ⟨fun other later outer hother hlater ↦ ?_, hfresh.offRoot⟩
  have hunused := hfresh.unused other later outer hother hlater
  cases h with
  | get hash world hfiles => exact hunused
  | put hash content hgrown halike hplain hwrote =>
    replace haccepted : Accepted hash := haccepted
    have hmade := entry?_temporary_of_grown haccepted (hfresh.offRoot other later hother hlater)
      hgrown hunused
    cases hwrote with
    | failed e hentry => rw [hentry, hmade]
    | done hlocate hfree hentry =>
      rw [hentry, if_neg, hmade]
      exact fun hsame ↦ temporaryName_ne haccepted later (List.cons.inj hsame).1
  | remove hash hremoved =>
    cases hremoved with
    | failed e => exact hunused
    | absent hlookup => exact hunused
    | done content hlocate hentry =>
      rw [Files.entry?_drop]
      split
      · rfl
      · exact hunused
  | contains hash => exact hunused

/-! ### Runs -/

/-- What is owed by a call of the cache below a root whose first temporary file had a number. -/
structure Confined (root : Path) (number : Nat) (before : World) (call : Call)
    (reply : CacheReply Answer) (later : World) : Prop where
  /-- A hash that is not accepted is refused, and nothing is touched. -/
  refused : ¬ Accepted call.hash → reply = .error (.invalidHash call.hash) ∧ later = before
  /-- A call that succeeds answers what it answers on a map, and makes of its entry what it makes of
  the map. -/
  mapped : Accepted call.hash → (∀ hash, call ≠ .contains hash) → ∀ answer, reply = .ok answer →
    (answer, stored root later.files call.hash) =
      call.onEntry (stored root before.files call.hash)
  /-- Whether there is an entry is whether its path holds anything. -/
  asked : ∀ hash, call = .contains hash → Accepted hash →
    reply = .ok (.there (before.files.holds (entryPath root hash))) ∧ later = before
  /-- No other file is touched. -/
  apart : ∀ place ≠ entryPlace root before.files call.hash,
    later.files.content? place = before.files.content? place
  /-- A call that fails leaves the content of every file as it is. -/
  failed : ∀ e, reply = .error e → ∀ place,
    later.files.content? place = before.files.content? place
  noTemporary : ∀ hash used outer, Accepted hash → number ≤ used →
    later.files.entry? (temporaryName hash used :: outer) = none
  noLock : later.locks.mutexes = {}

theorem Settled.step (h : Settled root number world) (call : Call) :
    Confined root number world call (call.perform (disk root) world).1
        (call.perform (disk root) world).2 ∧
      Settled root number (call.perform (disk root) world).2 := by
  by_cases haccepted : Accepted call.hash
  · obtain ⟨hserved, hidle, hlater⟩ := perform_served h haccepted
    have hfresh := hserved.fresh haccepted h.fresh
    refine ⟨⟨absurd haccepted, ?_, ?_, ?_, ?_, hfresh.unused, hidle.mutexes⟩,
      ⟨hserved.plain h.plain, hfresh, Nat.le_trans h.later hlater, hidle⟩⟩
    · exact fun _ hcall answer hreply ↦ hserved.mapped haccepted hcall hreply
    · rintro hash rfl hhash
      have heq : (disk root).contains hash world =
          (.ok (world.files.holds (entryPath root hash)), world) :=
        if_pos (isFileHash_iff.mpr hhash)
      rw [Call.perform, heq]
      exact ⟨rfl, rfl⟩
    · exact fun place hplace ↦ hserved.apart hplace
    · exact fun e hreply ↦ hserved.failed hreply
  · rw [perform_refused haccepted]
    refine ⟨⟨fun _ ↦ ⟨rfl, rfl⟩, fun h ↦ absurd h haccepted, ?_, fun _ _ ↦ rfl, fun _ _ _ ↦ rfl,
      h.fresh.unused, h.idle.mutexes⟩, h⟩
    rintro hash rfl hhash
    exact absurd hhash haccepted

theorem Settled.alike (h : Settled root number world) (call : Call) :
    world.files.Alike (call.perform (disk root) world).2.files := by
  by_cases haccepted : Accepted call.hash
  · exact (perform_served h haccepted).1.alike
  · rw [perform_refused haccepted]
    exact .refl _

theorem Settled.after (h : Settled root number world) (calls : List Call) :
    Settled root number (after (disk root) world calls) := by
  induction calls generalizing world with
  | nil => exact h
  | cons call rest ih => exact ih (h.step call).2

theorem Settled.alike_after (h : Settled root number world) (calls : List Call) :
    world.files.Alike (Cache.after (disk root) world calls).files := by
  induction calls generalizing world with
  | nil => exact .refl _
  | cons call rest ih => exact (h.alike call).trans (ih (h.step call).2)

end Blueprint.Cache

import Blueprint.Proofs.Cache.Disk

/-!
The cache on disk beside the cache in memory, on a tree that only the cache writes. The entries of
both are the same (`Cache.Mirrors`), call after call (`Cache.Mirrors.step`), so no call fails and
the answers are the same (`Cache.Mirrors.answer`). A root can lead through the place of an entry, as
`ab/abc/../..` does; the directory that is made there keeps the entry from being written
(`Cache.Served.of_put`), so nothing is promised of such an entry.
-/

set_option autoImplicit false

namespace Blueprint.Cache

/-- The way of the root does not lead through the entry of a hash. -/
def Clear (root : Path) (f : Files) (hash : String) : Prop := entryPlace root f hash ∉ f.way root

/-- A tree without limits in which no file is on the way of the root, and nothing below it yet. -/
structure Unwritten (root : Path) (f : Files) : Prop where
  roomy : f.Roomy
  noNul : root.segments.any (·.contains (Char.ofNat 0)) = false
  unblocked : ∀ place ∈ f.way root, f.content? place = none
  below : ∀ name outer, Files.placeOf f.here root <:+ outer → f.entry? (name :: outer) = none

/-- The entries on disk are those of a table. -/
structure Mirrors (root : Path) (table : Table String Bytes) (f : Files) : Prop where
  roomy : f.Roomy
  unblocked : ∀ place ∈ f.way root, f.content? place = none
  shards : ∀ hash, Accepted hash →
    f.content? (shard hash :: Files.placeOf f.here root) = none
  entries : ∀ hash, Accepted hash → Clear root f hash →
    f.entry? (entryPlace root f hash) = (table.get? hash).map .file
  /-- As soon as there is an entry, the root can be walked. -/
  walked : ∀ hash, Accepted hash → Clear root f hash → table.get? hash ≠ none →
    ∀ place ∈ f.way root, f.entry? place = some .directory

variable {root : Path} {f g : Files} {table : Table String Bytes} {hash name : String}

theorem Unwritten.mirrors (h : Unwritten root f) : Mirrors root {} f where
  roomy := h.roomy
  unblocked := h.unblocked
  shards hash _ := by
    rw [Files.content?, h.below _ _ (List.suffix_refl _)]
  entries hash _ _ := h.below _ _ (List.suffix_cons _ _)
  walked _ _ _ hentry := absurd rfl hentry

theorem noNul_child (hnul : root.segments.any (·.contains (Char.ofNat 0)) = false)
    (hname : Solid name) :
    (root.child name).segments.any (·.contains (Char.ofNat 0)) = false := by
  rw [child_segments, List.any_append, Bool.or_eq_false_iff]
  refine ⟨?_, by simp only [List.any_cons, List.any_nil, hname.noNul, Bool.or_false]⟩
  rcases stem_eq root.segments with hsame | hblank
  · rwa [← hsame]
  · rw [hblank, List.any_append, Bool.or_eq_false_iff] at hnul
    exact hnul.1

theorem named_pathBeside (hroomy : f.Roomy)
    (hnul : root.segments.any (·.contains (Char.ofNat 0)) = false) (h : Accepted hash)
    (hname : Solid name) : f.Named (pathBeside root hash name) where
  noNul := noNul_child (noNul_child hnul h.shard.solid) hname
  fits := by
    rw [hroomy.longestPath]
    rfl
  solid := by
    simp [Path.isBlank, pathBeside_segments h, hname.blank]

/-- A path beside an entry leads there, or something on its way is missing. -/
theorem Mirrors.locate (h : Mirrors root table f)
    (hnul : root.segments.any (·.contains (Char.ofNat 0)) = false) (haccepted : Accepted hash)
    (hname : Solid name) :
    f.locate (pathBeside root hash name) = .ok (name :: shard hash :: Files.placeOf f.here root) ∨
      f.locate (pathBeside root hash name) = .error .notFound ∧
        ∃ place, (place ∈ f.way root ∨ place = shard hash :: Files.placeOf f.here root) ∧
          f.entry? place = none := by
  have hopen : ∀ q ∈ Files.passed (f.start root) (pathBeside root hash name).segments,
      f.content? q = none := by
    intro q hq
    rcases (mem_passed_pathBeside haccepted).mp hq with hway | rfl
    · exact h.unblocked q hway
    · exact h.shards hash haccepted
  rw [Files.locate_of_named (named_pathBeside h.roomy hnul haccepted hname), start_pathBeside]
  rcases Files.walk_of_open h.roomy.longestName hopen with hwalk | ⟨hwalk, q, hq, hnone⟩
  · rw [follow_pathBeside haccepted hname] at hwalk
    exact Or.inl hwalk
  · exact Or.inr ⟨hwalk, q, (mem_passed_pathBeside haccepted).mp hq, hnone⟩

/-- A path of an entry holds what the table holds. -/
theorem Mirrors.lookup (h : Mirrors root table f)
    (hnul : root.segments.any (·.contains (Char.ofNat 0)) = false) (haccepted : Accepted hash)
    (hclear : Clear root f hash) :
    f.lookup (entryPath root hash) =
      match table.get? hash with
      | some content => .ok (.file content)
      | none => .error .notFound := by
  have hentry := h.entries hash haccepted hclear
  rw [Files.lookup]
  rcases h.locate hnul haccepted haccepted.solid with hlocate | ⟨hlocate, place, hplace, hnone⟩
  · rw [entryPath_eq, hlocate]
    dsimp only [bind, Except.bind]
    rw [← entryPlace, hentry]
    cases table.get? hash <;> rfl
  · rw [entryPath_eq, hlocate]
    cases hget : table.get? hash with
    | none => rfl
    | some content =>
      exfalso
      rw [hget] at hentry
      rcases hplace with hway | rfl
      · have hdirectory := h.walked hash haccepted hclear (by simp [hget]) place hway
        exact Option.some_ne_none _ (hdirectory.symm.trans hnone)
      · have hdirectory := h.roomy.plain _ _ hentry
        exact Option.some_ne_none _ (hdirectory.symm.trans hnone)

/-- Once the directories around it are there, a path beside an entry leads there. -/
theorem locateNew_pathBeside (hroomy : f.Roomy)
    (hnul : root.segments.any (·.contains (Char.ofNat 0)) = false) (haccepted : Accepted hash)
    (hname : Solid name)
    (hway : ∀ q ∈ f.way (root.child (shard hash)), f.entry? q = some .directory) :
    f.locateNew (pathBeside root hash name) =
      .ok (name :: shard hash :: Files.placeOf f.here root) := by
  have hnamed := named_pathBeside hroomy hnul haccepted hname
  have hlocate := hroomy.locate hnamed.noNul hnamed.solid fun q hq ↦
    hway q ((mem_way_shard haccepted).mpr ((mem_passed_pathBeside haccepted).mp hq))
  rw [start_pathBeside, follow_pathBeside haccepted hname] at hlocate
  exact Files.locateNew_eq_ok.mpr ⟨hlocate, hway _ ((mem_way_shard haccepted).mpr (Or.inr rfl))⟩

/-- The place of an entry off the root's way is not on the way of any shard. -/
theorem Clear.not_mem_way_shard (hclear : Clear root f hash) {other : String}
    (hother : Accepted other) : entryPlace root f hash ∉ f.way (root.child (shard other)) := by
  intro hway
  rcases (mem_way_shard hother).mp hway with hway | hshard
  · exact hclear hway
  · have hlength := congrArg List.length hshard
    simp [entryPlace] at hlength

theorem trimEnd_shard (haccepted : Accepted hash) (root : Path) :
    Path.trimEnd (root.child (shard hash)).absolute (root.child (shard hash)).segments.reverse =
      (root.child (shard hash)).segments.reverse := by
  have hsolid := haccepted.shard.solid
  rw [child_segments, List.reverse_append, List.reverse_singleton, List.singleton_append,
    Path.trimEnd, if_neg]
  simp [hsolid.blank, hsolid.dot]

/-- Where the directories around an entry are there and its place is free, the entry can be
written. -/
theorem writeEntry_of_directories {made : Files} {number : Nat} (haccepted : Accepted hash)
    (hmade : f.makeDirectories (root.child (shard hash)) = (.ok (), made))
    (hunused : ∀ outer, made.entry? (temporaryName hash number :: outer) = none)
    (hnew : ∀ name, Solid name → made.locateNew (pathBeside root hash name) =
      .ok (name :: shard hash :: Files.placeOf made.here root))
    (hfree : made.entry? (entryPlace root made hash) ≠ some .directory) (content : Bytes) :
    (writeEntry root hash content number f).1 = .ok () := by
  obtain ⟨place, hplace⟩ : ∃ place, place =
    temporaryName hash number :: shard hash :: Files.placeOf made.here root := ⟨_, rfl⟩
  have hnewPlace := hnew _ (solid_temporaryName haccepted number)
  rw [← hplace] at hnewPlace
  have hunder : made.entry? place ≠ some .directory := by
    rw [hplace, hunused]
    nofun
  have hwrite : made.write (temporaryPath root hash number) content =
      .ok (made.put place (.file content)) := Files.write_eq_ok.mpr ⟨_, hnewPlace, hunder, rfl⟩
  have halike : made.Alike (made.put place (.file content)) := Files.alike_put hunder
  have hfile : Files.entry? (made.put place (.file content)) place = some (.file content) := by
    rw [Files.entry?_put, if_pos ⟨rfl, by simp [hplace]⟩]
  obtain ⟨hlocate, houter⟩ := Files.locateNew_eq_ok.mp (hnew _ haccepted.solid)
  have htarget : Files.entry? (made.put place (.file content)) (entryPlace root made hash) ≠
      some .directory := by
    rw [Files.entry?_put]
    split
    · nofun
    · exact hfree
  have hrename := (Files.rename_eq_ok (halike.locate (Files.locateNew_eq_ok.mp hnewPlace).1)
    hfile).mpr ⟨_, Files.locateNew_eq_ok.mpr
      ⟨halike.locate hlocate, halike.directories _ houter⟩, htarget, rfl⟩
  rw [writeEntry, hmade]
  dsimp only
  rw [hwrite]
  dsimp only
  rw [temporaryPath_eq, entryPath_eq, hrename]

/-- An entry can be written. -/
theorem Mirrors.writeEntry (h : Mirrors root table f)
    (hnul : root.segments.any (·.contains (Char.ofNat 0)) = false) (haccepted : Accepted hash)
    (hclear : Clear root f hash) {number : Nat}
    (hunused : ∀ outer, f.entry? (temporaryName hash number :: outer) = none)
    (hoff : temporaryName hash number ∉ root.segments) (content : Bytes) :
    (writeEntry root hash content number f).1 = .ok () := by
  have hopen : ∀ q ∈ f.way (root.child (shard hash)), f.content? q = none := by
    intro q hq
    rcases (mem_way_shard haccepted).mp hq with hway | rfl
    · exact h.unblocked q hway
    · exact h.shards hash haccepted
  have hmake := h.roomy.makeDirectories (trimEnd_shard haccepted root)
    (noNul_child hnul haccepted.shard.solid) hopen
  have hgrown := h.roomy.plain.makeDirectories (root.child (shard hash))
  rcases hmade : f.makeDirectories (root.child (shard hash)) with ⟨reply, made⟩
  rw [hmade] at hmake hgrown
  obtain ⟨hreply, hway⟩ := hmake
  obtain rfl : reply = .ok () := hreply
  replace hgrown : Files.Grown (root.child (shard hash)) f made := hgrown
  replace hway : ∀ q ∈ made.way (root.child (shard hash)), made.entry? q = some .directory := by
    rw [hgrown.way_eq]
    exact hway
  refine writeEntry_of_directories haccepted hmade
    (fun outer ↦ entry?_temporary_of_grown haccepted hoff hgrown (hunused outer))
    (fun name hname ↦ locateNew_pathBeside (hgrown.roomy h.roomy) hnul haccepted hname hway) ?_
    content
  rw [entryPlace_alike hgrown.toAlike]
  rcases hgrown.entry (entryPlace root f hash) with hkept | ⟨-, -, hmem, -⟩
  · rw [hkept, h.entries hash haccepted hclear]
    cases table.get? hash <;> nofun
  · exact absurd hmem (hclear.not_mem_way_shard haccepted)

/-! ### Calls -/

variable {call : Call} {reply : CacheReply Answer} {number : Nat} {world twin : World}

/-- The cache in memory is a map. -/
theorem perform_memory (call : Call) (world : World) :
    (call.perform memory world).1 = .ok (call.onEntry (world.cached.get? call.hash)).1 ∧
      ∀ other, (call.perform memory world).2.cached.get? other =
        if call.hash = other then (call.onEntry (world.cached.get? call.hash)).2
        else world.cached.get? other := by
  have hsame (key other : String) : world.cached.get? other =
      if key = other then world.cached.get? key else world.cached.get? other := by
    split
    · rename_i hkey
      rw [hkey]
    · rfl
  cases call with
  | get hash => exact ⟨rfl, hsame hash⟩
  | put hash content => exact ⟨rfl, fun other ↦ Table.get?_insert ..⟩
  | remove hash => exact ⟨rfl, fun other ↦ Table.get?_erase ..⟩
  | contains hash => exact ⟨rfl, hsame hash⟩

/-- No call on an entry off the root's way fails, and each answers what the table says. -/
theorem Mirrors.answer (h : Mirrors root table world.files) (hworld : Settled root number world)
    (hnul : root.segments.any (·.contains (Char.ofNat 0)) = false) (haccepted : Accepted call.hash)
    (hclear : Clear root world.files call.hash) :
    (call.perform (disk root) world).1 = .ok (call.onEntry (table.get? call.hash)).1 := by
  cases call with
  | get hash =>
    replace haccepted : Accepted hash := haccepted
    obtain ⟨left, -, heq⟩ := get_disk haccepted hworld.idle root
    have hlookup := h.lookup hnul haccepted hclear
    rw [Call.perform, heq, readEntry, Files.read, hlookup]
    change _ = Except.ok (Answer.content (table.get? hash))
    cases table.get? hash <;> rfl
  | put hash content =>
    replace haccepted : Accepted hash := haccepted
    obtain ⟨left, -, heq⟩ := put_disk haccepted hworld.idle root content
    rw [Call.perform, heq, h.writeEntry hnul haccepted hclear
      (fun outer ↦ hworld.fresh.unused hash _ outer haccepted hworld.later)
      (hworld.fresh.offRoot hash _ haccepted hworld.later)]
    rfl
  | remove hash =>
    replace haccepted : Accepted hash := haccepted
    obtain ⟨left, -, heq⟩ := remove_disk haccepted hworld.idle root
    have hlookup := h.lookup hnul haccepted hclear
    have hremove : (removeEntry root hash world.files).1 = .ok () := by
      rw [removeEntry]
      cases hget : table.get? hash with
      | some content =>
        simp only [hget] at hlookup
        obtain ⟨place, hlocate, hentry⟩ := Files.lookup_eq_ok.mp hlookup
        rw [Files.remove_of_file hlocate hentry]
      | none =>
        simp only [hget] at hlookup
        rw [Files.remove_eq_notFound.mpr hlookup]
    rw [Call.perform, heq, hremove]
    rfl
  | contains hash =>
    replace haccepted : Accepted hash := haccepted
    have heq : (disk root).contains hash world =
        (.ok (world.files.holds (entryPath root hash)), world) :=
      if_pos (isFileHash_iff.mpr haccepted)
    rw [Call.perform, heq, Files.holds, h.lookup hnul haccepted hclear]
    change _ = Except.ok (Answer.there (table.get? hash).isSome)
    cases table.get? hash <;> rfl

theorem Clear.alike (halike : f.Alike g) : Clear root g hash ↔ Clear root f hash := by
  rw [Clear, entryPlace_alike halike, halike.way_eq, Clear]

theorem entryPlace_ne_shard (root : Path) (f : Files) (hash other : String) :
    shard other :: Files.placeOf f.here root ≠ entryPlace root f hash := by
  intro hsame
  have hlength := congrArg List.length hsame
  simp [entryPlace] at hlength

/-- An entry that has been written is off the root's way, which is of directories. -/
theorem Served.of_put {content : Bytes} {answer : Answer} (hcall : Accepted hash)
    (hserved : Served root f (.put hash content) (.ok answer) g) :
    Clear root f hash ∧ ∀ place ∈ f.way root, g.entry? place = some .directory := by
  generalize hreply : (.ok answer : CacheReply Answer) = reply at hserved
  cases hserved with
  | put hash content hgrown halike hplain hwrote =>
    cases hwrote with
    | failed e hentry => cases hreply
    | done hlocate hfree hentry =>
      obtain ⟨-, hway⟩ := locate_pathBeside hcall hcall.solid hlocate
      rw [hgrown.way_eq] at hway
      rw [entryPlace_alike hgrown.toAlike] at hfree
      exact ⟨fun hmem ↦ hfree (hway _ hmem),
        fun place hplace ↦ halike.directories place (hway place hplace)⟩

/-- No call leaves a file on the way of the root. -/
theorem Mirrors.unblocked_served (h : Mirrors root table f) (hserved : Served root f call reply g)
    (haccepted : Accepted call.hash) {place : Place} (hplace : place ∈ f.way root) :
    g.content? place = none := by
  by_cases hentry : place = entryPlace root f call.hash
  · subst hentry
    cases hserved with
    | get hash world hfiles => exact h.unblocked _ hplace
    | put hash content hgrown halike hplain hwrote =>
      have hserved := Served.put hash content hgrown halike hplain hwrote
      cases hwrote with
      | failed e hentry =>
        rw [hserved.failed rfl]
        exact h.unblocked _ hplace
      | done hlocate hfree hentry => exact absurd hplace (hserved.of_put haccepted).1
    | remove hash hremoved =>
      cases hremoved with
      | failed e => exact h.unblocked _ hplace
      | absent hlookup => exact h.unblocked _ hplace
      | done content hlocate hentry =>
        have hfile := h.unblocked _ hplace
        simp [Files.content?, Call.hash, hentry] at hfile
    | contains hash => exact h.unblocked _ hplace
  · rw [hserved.apart hentry]
    exact h.unblocked place hplace

/-- Directories around an entry are not made at the place of another. -/
theorem Clear.entry?_of_grown {made : Files} {other : String} (hclear : Clear root f hash)
    (hother : Accepted other) (hgrown : Files.Grown (root.child (shard other)) f made) :
    made.entry? (entryPlace root f hash) = f.entry? (entryPlace root f hash) :=
  (hgrown.entry (entryPlace root f hash)).resolve_right
    fun hmade ↦ hclear.not_mem_way_shard hother hmade.2.2.1

/-- A call leaves the entries of other hashes as they are. -/
theorem Clear.entry_other (hclear : Clear root f hash) (hserved : Served root f call reply g)
    (hcall : Accepted call.hash) (hne : call.hash ≠ hash) :
    g.entry? (entryPlace root f hash) = f.entry? (entryPlace root f hash) := by
  have hplace : entryPlace root f hash ≠ entryPlace root f call.hash :=
    fun hsame ↦ hne (entryPlace_inj.mp hsame).symm
  cases hserved with
  | get other world hfiles => rfl
  | put other content hgrown halike hplain hwrote =>
    rw [← hclear.entry?_of_grown hcall hgrown]
    cases hwrote with
    | failed e hentry => exact hentry _
    | done hlocate hfree hentry =>
      rw [hentry, if_neg]
      rw [entryPlace_alike hgrown.toAlike]
      exact hplace
  | remove other hremoved =>
    cases hremoved with
    | failed e => rfl
    | absent hlookup => rfl
    | done content hlocate hentry =>
      rw [Files.entry?_drop, if_neg fun hsame ↦ hplace hsame.1.symm]
  | contains other => rfl

/-- What a call that succeeds does to its entry on disk is what it does to that of a map. -/
theorem Mirrors.entry_own (h : Mirrors root table f)
    (hnul : root.segments.any (·.contains (Char.ofNat 0)) = false)
    (hserved : Served root f call reply g) (hcall : Accepted call.hash)
    (hclear : Clear root f call.hash) {answer : Answer} (hreply : reply = .ok answer) :
    g.entry? (entryPlace root f call.hash) =
      (call.onEntry (table.get? call.hash)).2.map .file := by
  have hkept := h.entries call.hash hcall hclear
  cases hserved with
  | get hash world hfiles => exact hkept
  | put hash content hgrown halike hplain hwrote =>
    cases hwrote with
    | failed e hentry => cases hreply
    | done hlocate hfree hentry =>
      exact (hentry _).trans (if_pos (entryPlace_alike hgrown.toAlike root hash).symm)
  | remove hash hremoved =>
    cases hremoved with
    | failed e => cases hreply
    | absent hlookup =>
      have hheld := h.lookup hnul hcall hclear
      cases hget : table.get? hash with
      | none =>
        exact hkept.trans (congrArg (Option.map FileEntry.file) hget)
      | some content =>
        rw [show Call.hash (.remove hash) = hash from rfl, hget] at hheld
        exact absurd (hlookup.symm.trans hheld) nofun
    | done content hlocate hentry =>
      rw [Files.entry?_drop, if_pos ⟨rfl, by simp [entryPlace]⟩]
      rfl
  | contains hash => exact hkept

/-- A call under a hash that is refused changes nothing. -/
theorem Mirrors.step_refused (h : Mirrors root twin.cached world.files) {call : Call}
    (haccepted : ¬Accepted call.hash) :
    Mirrors root (call.perform memory twin).2.cached (call.perform (disk root) world).2.files := by
  obtain ⟨-, hcached⟩ := perform_memory call twin
  rw [perform_refused haccepted]
  have hsame (hash : String) (hhash : Accepted hash) :
      (call.perform memory twin).2.cached.get? hash = twin.cached.get? hash := by
    rw [hcached, if_neg]
    rintro rfl
    exact haccepted hhash
  refine ⟨h.roomy, h.unblocked, h.shards, fun hash hhash hclear ↦ ?_, fun hash hhash hclear ↦ ?_⟩
  · rw [hsame hash hhash]
    exact h.entries hash hhash hclear
  · rw [hsame hash hhash]
    exact h.walked hash hhash hclear

/-- Once a call was served and there is an entry, the root can be walked. -/
theorem Mirrors.walked_step (h : Mirrors root twin.cached world.files)
    (hworld : Settled root number world)
    (hnul : root.segments.any (·.contains (Char.ofNat 0)) = false) {call : Call}
    (haccepted : Accepted call.hash) (hhash : Accepted hash) (hclear : Clear root world.files hash)
    (hget : (call.perform memory twin).2.cached.get? hash ≠ none) {place : Place}
    (hplace : place ∈ world.files.way root) :
    Files.entry? (call.perform (disk root) world).2.files place = some .directory := by
  obtain ⟨-, hcached⟩ := perform_memory call twin
  obtain ⟨hserved, -, -⟩ := perform_served hworld haccepted
  by_cases hbefore : twin.cached.get? hash = none
  · -- Only a put makes an entry where there is none.
    rw [hcached, hbefore] at hget
    split at hget
    · rename_i hsame
      subst hsame
      rw [hbefore] at hget
      have hanswer := h.answer hworld hnul haccepted hclear
      cases call with
      | put hash content =>
        rw [hanswer] at hserved
        exact (hserved.of_put haccepted).2 place hplace
      | get hash => exact absurd rfl hget
      | remove hash => exact absurd rfl hget
      | contains hash => exact absurd rfl hget
    · exact absurd rfl hget
  · exact hserved.alike.directories place (h.walked hash hhash hclear hbefore place hplace)

theorem Mirrors.step (h : Mirrors root twin.cached world.files) (hworld : Settled root number world)
    (hnul : root.segments.any (·.contains (Char.ofNat 0)) = false) (call : Call) :
    Mirrors root (call.perform memory twin).2.cached (call.perform (disk root) world).2.files := by
  by_cases haccepted : Accepted call.hash
  · obtain ⟨-, hcached⟩ := perform_memory call twin
    obtain ⟨hserved, -, -⟩ := perform_served hworld haccepted
    have halike := hserved.alike
    refine ⟨h.roomy.alike halike (hserved.plain h.roomy.plain), fun place hplace ↦ ?_,
      fun hash hhash ↦ ?_, fun hash hhash hclear ↦ ?_, fun hash hhash hclear hget place hplace ↦ ?_⟩
    · rw [halike.way_eq] at hplace
      exact h.unblocked_served hserved haccepted hplace
    · rw [halike.here, hserved.apart (entryPlace_ne_shard root _ _ hash)]
      exact h.shards hash hhash
    · rw [Clear.alike halike] at hclear
      rw [entryPlace_alike halike, hcached]
      split
      · rename_i hsame
        subst hsame
        exact h.entry_own hnul hserved haccepted hclear
          (h.answer hworld hnul haccepted hclear)
      · rename_i hne
        rw [hclear.entry_other hserved haccepted hne]
        exact h.entries hash hhash hclear
    · rw [Clear.alike halike] at hclear
      rw [halike.way_eq] at hplace
      exact h.walked_step hworld hnul haccepted hhash hclear hget hplace
  · exact h.step_refused haccepted

theorem Mirrors.after (h : Mirrors root twin.cached world.files) (hworld : Settled root number world)
    (hnul : root.segments.any (·.contains (Char.ofNat 0)) = false) (calls : List Call) :
    Mirrors root (after memory twin calls).cached (after (disk root) world calls).files := by
  induction calls generalizing world twin with
  | nil => exact h
  | cons call rest ih => exact ih (h.step hworld hnul call) (hworld.step call).2

/-- What is owed by the cache below a root, from a world on. -/
structure MapOnDisk (root : Path) (world : World) : Prop where
  confined : ∀ (earlier : List Call) (call : Call),
    Confined root world.temporaries (after (disk root) world earlier) call
      (call.perform (disk root) (after (disk root) world earlier)).1
      (call.perform (disk root) (after (disk root) world earlier)).2
  /-- The entry of a hash is in the directory of its first two characters. -/
  layout : ∀ hash, Accepted hash → entryPath root hash =
    { root with segments := Path.stem root.segments ++ [String.ofList (hash.toList.take 2), hash] }
  leads : ∀ files hash place, Accepted hash → files.locate (entryPath root hash) = .ok place →
    place = entryPlace root files hash
  distinct : ∀ files hash other, Accepted hash → Accepted other → hash ≠ other →
    entryPlace root files hash ≠ entryPlace root files other
  /-- What is stored under a hash is the content of its file. -/
  filed : ∀ files hash content, Accepted hash → stored root files hash = some content →
    files.content? (entryPlace root files hash) = some content
  /-- On a tree that only the cache writes, calls on entries off the root's way succeed, with the
  answers of the cache in memory. -/
  refines : Unwritten root world.files → ∀ twin : World, twin.cached = {} →
    ∀ (earlier : List Call) (call : Call),
      Accepted call.hash → Clear root world.files call.hash →
      (call.perform (disk root) (after (disk root) world earlier)).1 =
          (call.perform memory (after memory twin earlier)).1 ∧
        ∃ answer, (call.perform (disk root) (after (disk root) world earlier)).1 = .ok answer

/-- Assumes: the tree is plain, no file has the name of a temporary file yet, no operation is under
way. -/
theorem mapOnDisk_of_plain {root : Path} {world : World} (hplain : world.files.Plain)
    (hfresh : Fresh root world.temporaries world.files) (hidle : world.locks.Idle) :
    MapOnDisk root world := by
  have hworld : Settled root world.temporaries world := ⟨hplain, hfresh, Nat.le_refl _, hidle⟩
  refine ⟨fun earlier call ↦ ((hworld.after earlier).step call).1, fun hash hhash ↦ ?_,
    fun files hash place hhash hlocate ↦ (locate_pathBeside hhash hhash.solid hlocate).1,
    fun files hash other _ _ hne hplace ↦ hne (entryPlace_inj.mp hplace),
    fun files hash content hhash hstored ↦ ?_,
    fun hunwritten twin htwin earlier call hhash hclear ↦ ?_⟩
  · exact congrArg (fun segments ↦ { root with segments }) (pathBeside_segments hhash root hash)
  · rw [Files.content?, ((stored_eq_some hhash).mp hstored).2]
  · have hmirrors : Mirrors root twin.cached world.files := htwin ▸ hunwritten.mirrors
    have hanswer := (hmirrors.after hworld hunwritten.noNul earlier).answer (hworld.after earlier)
      hunwritten.noNul hhash ((Clear.alike (hworld.alike_after earlier)).mpr hclear)
    exact ⟨hanswer.trans (perform_memory call _).1.symm, _, hanswer⟩

/-- A world without files, whose names may have any length. -/
def bare : World where
  files := { longestName := none, longestPath := none }

theorem eq_nil_of_bare {place : Place} {entry : FileEntry}
    (h : bare.files.entry? place = some entry) : place = [] := by
  cases place with
  | nil => rfl
  | cons name outer => cases h

theorem bare_content? (place : Place) : bare.files.content? place = none := by
  cases place <;> rfl

theorem plain_bare : bare.files.Plain := by
  intro place entry hentry
  obtain rfl := eq_nil_of_bare hentry
  rfl

theorem fresh_bare {root : Path} (hroot : ∀ segment ∈ root.segments, 't' ∉ segment.toList) :
    Fresh root bare.temporaries bare.files :=
  ⟨fun _ _ _ _ _ ↦ rfl, fun hash used _ _ hmem ↦
    hroot _ hmem (mem_temporaryName (by decide) hash used)⟩

theorem unwritten_bare {root : Path}
    (hroot : ∀ segment ∈ root.segments, Char.ofNat 0 ∉ segment.toList) :
    Unwritten root bare.files :=
  ⟨⟨plain_bare, rfl, rfl, rfl⟩, by simpa [String.contains_char_eq] using hroot,
    fun place _ ↦ bare_content? place, fun _ _ _ ↦ rfl⟩

/-- The root of a cache in a directory of its own. -/
def straight : Path := .ofString "cache"

theorem mapOnDisk_straight :
    bare.files.Plain ∧ Fresh straight bare.temporaries bare.files ∧ bare.locks.Idle ∧
      MapOnDisk straight bare ∧
      ((Call.get "abc").perform (disk straight) (after (disk straight) bare
        [.put "abc" [120], .put "ab" [121], .put "../escape" [122], .remove "ab"])).1 =
          .ok (.content (some [120])) := by
  have hfresh : Fresh straight bare.temporaries bare.files := fresh_bare (by decide +kernel)
  have hmap := mapOnDisk_of_plain plain_bare hfresh ⟨rfl, rfl⟩
  have haccepted : Accepted "abc" := isFileHash_iff.mp (by decide +kernel)
  have hclear : Clear straight bare.files "abc" := by
    unfold Clear
    decide +kernel
  refine ⟨plain_bare, hfresh, ⟨rfl, rfl⟩, hmap, ?_⟩
  rw [(hmap.refines (unwritten_bare (by decide +kernel)) bare rfl _ (.get "abc") haccepted hclear).1]
  rfl

/-- A root that leads through the entry of a hash. -/
def winding : Path := .ofString "c/ab/abc/../.."

/-- The directories that are made on the way of the root stand where an entry would be. -/
theorem put_winding :
    (bare.files.Plain ∧ Fresh winding bare.temporaries bare.files ∧ bare.locks.Idle ∧
      Unwritten winding bare.files ∧ Accepted "abc") ∧
    (∃ e, ((Call.put "abc" [120]).perform (disk winding) bare).1 = .error e) ∧
    ((Call.put "abc" [120]).perform memory bare).1 = .ok .done := by
  have hfresh : Fresh winding bare.temporaries bare.files := fresh_bare (by decide +kernel)
  have haccepted : Accepted (Call.put "abc" [120]).hash := isFileHash_iff.mp (by decide +kernel)
  have hway : ¬ Clear winding bare.files "abc" := by
    unfold Clear
    decide +kernel
  have hworld : Settled winding bare.temporaries bare :=
    ⟨plain_bare, hfresh, Nat.le_refl _, ⟨rfl, rfl⟩⟩
  refine ⟨⟨plain_bare, hfresh, ⟨rfl, rfl⟩, unwritten_bare (by decide +kernel), haccepted⟩, ?_, rfl⟩
  have hserved : Served winding bare.files (.put "abc" [120]) _ _ :=
    (perform_served hworld haccepted).1
  cases hreply : ((Call.put "abc" [120]).perform (disk winding) bare).1 with
  | error e => exact ⟨e, rfl⟩
  | ok answer =>
    rw [hreply] at hserved
    exact absurd (hserved.of_put haccepted).1 hway

end Blueprint.Cache

import Blueprint.Catalog.Document
import Blueprint.Proofs.Table

/-!
First registration wins. A catalog keeps a list of descriptors and an index of their positions in
step (`Catalog.Indexed`), so that registering some descriptors adds those of them that are the first
of their id (`firsts`), in their order. Whatever a catalog was made from is then told by the list of
descriptors that were offered to it, a document's, registered ones and those of merged catalogs
alike: it is `firsts` of them (`Catalog.Built.indexed_entries`), and a look-up finds the one that was
offered first.
-/

set_option autoImplicit false

namespace Blueprint

/-- The descriptors that are the first of their id, and whose id is not known before. -/
def firsts (known : List String) : List Descriptor → List Descriptor
  | [] => []
  | d :: rest =>
    if d.id.text ∈ known then firsts known rest else d :: firsts (d.id.text :: known) rest

/-- The ids of descriptors in order. -/
def idsOf (descriptors : List Descriptor) : List String := descriptors.map fun d ↦ d.id.text

section

variable {known fewer : List String}

theorem firsts_congr (h : ∀ id, id ∈ known ↔ id ∈ fewer) (descriptors : List Descriptor) :
    firsts known descriptors = firsts fewer descriptors := by
  induction descriptors generalizing known fewer with
  | nil => rfl
  | cons d rest ih =>
    have hcons (id : String) : id ∈ d.id.text :: known ↔ id ∈ d.id.text :: fewer := by
      rw [List.mem_cons, List.mem_cons, h id]
    simp only [firsts, h d.id.text, ih h, ih hcons]

/-- Those that are first among others are among those whose id is new. -/
theorem firsts_append (known : List String) (descriptors more : List Descriptor) :
    firsts known (descriptors ++ more) =
      firsts known descriptors ++ firsts (idsOf descriptors ++ known) more := by
  induction descriptors generalizing known with
  | nil => rfl
  | cons d rest ih =>
    by_cases hd : d.id.text ∈ known
    · have hmem (id : String) : id ∈ idsOf rest ++ known ↔ id ∈ idsOf (d :: rest) ++ known := by
        simp only [idsOf, List.map_cons, List.cons_append, List.mem_cons, List.mem_append]
        exact ⟨Or.inr, fun h ↦ h.elim (fun heq ↦ Or.inr (heq ▸ hd)) fun hold ↦ hold⟩
      rw [List.cons_append, firsts, if_pos hd, ih, firsts, if_pos hd, firsts_congr hmem]
    · have hmem (id : String) :
          id ∈ idsOf rest ++ d.id.text :: known ↔ id ∈ idsOf (d :: rest) ++ known := by
        simp only [idsOf, List.map_cons, List.cons_append, List.mem_cons, List.mem_append]
        tauto
      rw [List.cons_append, firsts, if_neg hd, ih, firsts, if_neg hd, List.cons_append,
        firsts_congr hmem]

/-- Leaving out what is not first changes nothing for those who know at least as much. -/
theorem firsts_firsts (h : ∀ id ∈ fewer, id ∈ known) (descriptors : List Descriptor) :
    firsts known (firsts fewer descriptors) = firsts known descriptors := by
  induction descriptors generalizing known fewer with
  | nil => rfl
  | cons d rest ih =>
    by_cases hfewer : d.id.text ∈ fewer
    · rw [firsts, if_pos hfewer, ih h, firsts, if_pos (h _ hfewer)]
    · by_cases hknown : d.id.text ∈ known
      · have hmore : ∀ id ∈ d.id.text :: fewer, id ∈ known :=
          List.forall_mem_cons.mpr ⟨hknown, h⟩
        rw [firsts, if_neg hfewer, firsts, if_pos hknown, ih hmore, firsts, if_pos hknown]
      · have hmore : ∀ id ∈ d.id.text :: fewer, id ∈ d.id.text :: known :=
          List.forall_mem_cons.mpr
            ⟨List.mem_cons_self, fun id hid ↦ List.mem_cons_of_mem _ (h id hid)⟩
        rw [firsts, if_neg hfewer, firsts, if_neg hknown, ih hmore, firsts, if_neg hknown]

theorem find?_firsts (known : List String) (descriptors : List Descriptor) (id : String) :
    (firsts known descriptors).find? (·.id.text == id) =
      if id ∈ known then none else descriptors.find? (·.id.text == id) := by
  induction descriptors generalizing known with
  | nil => simp [firsts]
  | cons d rest ih =>
    by_cases hd : d.id.text ∈ known
    · rw [firsts, if_pos hd, ih, List.find?_cons]
      by_cases hid : id ∈ known
      · rw [if_pos hid, if_pos hid]
      · have hne : (d.id.text == id) = false := beq_false_of_ne fun heq ↦ hid (heq ▸ hd)
        rw [if_neg hid, if_neg hid, hne]
    · rw [firsts, if_neg hd, List.find?_cons, List.find?_cons, ih]
      by_cases hsame : d.id.text = id
      · subst hsame
        simp [hd]
      · have hne : (d.id.text == id) = false := beq_false_of_ne hsame
        simp [hne, Ne.symm hsame]

/-- The ids stand in the order in which they are met first. -/
theorem idsOf_firsts (known : List String) (descriptors : List Descriptor) :
    idsOf (firsts known descriptors) =
      ((idsOf descriptors).filter fun id ↦ id ∉ known).eraseDups := by
  induction descriptors generalizing known with
  | nil => rfl
  | cons d rest ih =>
    by_cases hd : d.id.text ∈ known
    · rw [firsts, if_pos hd, ih]
      simp [idsOf, hd]
    · have hrest : (idsOf rest).filter (fun id ↦ id ∉ d.id.text :: known) =
          ((idsOf rest).filter fun id ↦ id ∉ known).filter fun id ↦ !id == d.id.text := by
        rw [List.filter_filter]
        refine List.filter_congr fun id _ ↦ ?_
        by_cases hid : id = d.id.text <;> simp [hid]
      rw [firsts, if_neg hd]
      simp only [idsOf, List.map_cons] at ih hrest ⊢
      rw [ih, hrest, List.filter_cons_of_pos (by simpa using hd), List.eraseDups_cons]

theorem mem_of_mem_firsts {d : Descriptor} {descriptors : List Descriptor}
    (h : d ∈ firsts known descriptors) : d ∈ descriptors := by
  induction descriptors generalizing known with
  | nil => exact h
  | cons first rest ih =>
    unfold firsts at h
    split at h
    · exact List.mem_cons_of_mem _ (ih h)
    · exact (List.mem_cons.mp h).elim (fun heq ↦ heq ▸ List.mem_cons_self)
        fun hrest ↦ List.mem_cons_of_mem _ (ih hrest)

/-- Descriptors whose ids are new and differ are all first. -/
theorem firsts_of_nodup {descriptors : List Descriptor} (hdistinct : (idsOf descriptors).Nodup)
    (hnew : ∀ id ∈ idsOf descriptors, id ∉ known) : firsts known descriptors = descriptors := by
  induction descriptors generalizing known with
  | nil => rfl
  | cons d rest ih =>
    obtain ⟨hd, hrest⟩ := List.nodup_cons.mp hdistinct
    obtain ⟨hfirst, hothers⟩ := List.forall_mem_cons.mp hnew
    have hmore : ∀ id ∈ idsOf rest, id ∉ d.id.text :: known := by
      intro id hid hknown
      rcases List.mem_cons.mp hknown with rfl | hknown
      · exact hd hid
      · exact hothers id hid hknown
    rw [firsts, if_neg hfirst, ih hrest hmore]

end

namespace Catalog

/-- The ids differ, and the index holds the position of each. -/
structure Indexed (c : Catalog) : Prop where
  distinct : c.ids.Nodup
  index_eq : c.index.entries = c.ids.zipIdx

theorem indexed_ofVersion (version : Version) : (ofVersion version).Indexed :=
  ⟨List.nodup_nil, rfl⟩

namespace Indexed

variable {c : Catalog}

theorem keys_index (h : c.Indexed) : c.index.keys = c.ids := by
  rw [Table.keys, h.index_eq]
  exact List.zipIdx_map_fst 0 c.ids

theorem get?_index (h : c.Indexed) (id : String) (position : Nat) :
    c.index.get? id = some position ↔ c.ids[position]? = some id := by
  have hdistinct : c.index.Distinct := by
    rw [Table.Distinct, h.keys_index]
    exact h.distinct
  have hmem : (id, position) ∈ c.index.entries ↔ c.ids[position]? = some id := by
    rw [h.index_eq]
    exact List.mem_zipIdx_iff_getElem?
  rw [← hmem]
  exact ⟨Table.mem_of_get?, hdistinct.get?_of_mem⟩

theorem contains_iff (h : c.Indexed) (id : String) : c.contains id = true ↔ id ∈ c.ids := by
  rw [contains, Table.contains, Option.isSome_iff_ne_none, Ne, Table.get?_eq_none_iff, h.keys_index,
    not_not]

/-- A look-up by the index finds what a search through the entries finds. -/
theorem get?_eq (h : c.Indexed) (id : String) :
    c.get? id = c.entries.find? (·.id.text == id) := by
  unfold get?
  cases hindex : c.index.get? id with
  | none =>
    rw [Table.get?_eq_none_iff, h.keys_index] at hindex
    refine (List.find?_eq_none.mpr fun d hd heq ↦ hindex ?_).symm
    exact List.mem_map.mpr ⟨d, hd, eq_of_beq heq⟩
  | some position =>
    have hid := (h.get?_index id position).mp hindex
    rw [ids, List.getElem?_map, Option.map_eq_some_iff] at hid
    obtain ⟨d, hd, hid⟩ := hid
    obtain ⟨hlt, hget⟩ := List.getElem?_eq_some_iff.mp hd
    refine hd.trans (Eq.symm ?_)
    refine List.find?_eq_some_iff_getElem.mpr ⟨beq_iff_eq.mpr hid, position, hlt, hget, ?_⟩
    intro earlier hearlier
    have hin : position < c.ids.length := by simpa [ids] using hlt
    have hinEarlier := Nat.lt_trans hearlier hin
    have hne : c.ids[earlier] ≠ c.ids[position] := fun heq ↦
      Nat.ne_of_lt hearlier (h.distinct.getElem_inj_iff.mp heq)
    simpa [ids, hget, hid] using hne

/-- A new descriptor goes to the end; one whose id is there changes nothing. -/
theorem register_eq (h : c.Indexed) (d : Descriptor) :
    (d.id.text ∈ c.ids → c.register d = (false, c)) ∧
      (d.id.text ∉ c.ids → (c.register d).1 = true ∧ (c.register d).2.version = c.version ∧
        (c.register d).2.entries = c.entries ++ [d] ∧ (c.register d).2.Indexed) := by
  unfold register
  constructor
  · intro hknown
    rw [if_pos ((h.contains_iff _).mpr hknown)]
  · intro hnew
    rw [if_neg fun hcontains ↦ hnew ((h.contains_iff _).mp hcontains)]
    have hids : idsOf (c.entries ++ [d]) = c.ids ++ [d.id.text] := List.map_append
    have hindex : c.index.get? d.id.text = none := by
      rw [Table.get?_eq_none_iff, h.keys_index]
      exact hnew
    refine ⟨rfl, rfl, rfl, ?_, ?_⟩
    · change (idsOf (c.entries ++ [d])).Nodup
      rw [hids, List.nodup_append]
      refine ⟨h.distinct, List.nodup_singleton _, fun id hid other hother heq ↦ hnew ?_⟩
      rw [List.mem_singleton] at hother
      exact hother ▸ heq ▸ hid
    · change (c.index.insert d.id.text c.entries.length).entries = (idsOf (c.entries ++ [d])).zipIdx
      rw [Table.entries_insert_new hindex, hids, List.zipIdx_append, h.index_eq]
      simp [ids]

/-- Registering some descriptors adds those that are the first of their id. -/
theorem registerAll_eq (h : c.Indexed) (descriptors : List Descriptor) :
    (c.registerAll descriptors).1 = (firsts c.ids descriptors).length ∧
      (c.registerAll descriptors).2.version = c.version ∧
      (c.registerAll descriptors).2.entries = c.entries ++ firsts c.ids descriptors ∧
      (c.registerAll descriptors).2.Indexed := by
  induction descriptors generalizing c with
  | nil => exact ⟨rfl, rfl, (List.append_nil _).symm, h⟩
  | cons d rest ih =>
    rw [registerAll]
    by_cases hd : d.id.text ∈ c.ids
    · rw [(h.register_eq d).1 hd, firsts, if_pos hd]
      simpa using ih h
    · obtain ⟨hadded, hversion, hentries, hindexed⟩ := (h.register_eq d).2 hd
      revert hadded hversion hentries hindexed
      rcases c.register d with ⟨added, grown⟩
      rintro rfl hversion hentries hindexed
      obtain ⟨hcount, hrest, hall, hlater⟩ := ih hindexed
      have hknown (id : String) : id ∈ grown.ids ↔ id ∈ d.id.text :: c.ids := by
        rw [ids, hentries, List.map_append, List.mem_append, List.mem_cons, or_comm]
        simp [ids]
      rw [firsts_congr hknown] at hcount hall
      rw [firsts, if_neg hd]
      refine ⟨?_, hrest.trans hversion, ?_, hlater⟩
      · simp [hcount, Nat.add_comm]
      · rw [hall, hentries, List.append_assoc, List.singleton_append]

theorem merge_eq (h : c.Indexed) (other : Catalog) :
    (c.merge other).1 = (firsts c.ids other.entries).length ∧
      (c.merge other).2.version = c.version ∧
      (c.merge other).2.entries = c.entries ++ firsts c.ids other.entries ∧
      (c.merge other).2.Indexed :=
  h.registerAll_eq other.entries

theorem mem_ids_merge (h : c.Indexed) (other : Catalog) (id : String) :
    id ∈ (c.merge other).2.ids ↔ id ∈ idsOf other.entries ++ c.ids := by
  have hids : (c.merge other).2.ids = c.ids ++ idsOf (firsts c.ids other.entries) := by
    rw [ids, (h.merge_eq other).2.2.1, List.map_append]
    rfl
  rw [hids, idsOf_firsts, List.mem_append, List.mem_append, List.mem_eraseDups, List.mem_filter,
    decide_eq_true_eq]
  tauto

/-- Descriptors whose ids are all there change nothing. -/
theorem registerAll_known (h : c.Indexed) {descriptors : List Descriptor}
    (hknown : ∀ id ∈ idsOf descriptors, id ∈ c.ids) : c.registerAll descriptors = (0, c) := by
  induction descriptors with
  | nil => rfl
  | cons d rest ih =>
    obtain ⟨hd, hrest⟩ := List.forall_mem_cons.mp hknown
    rw [registerAll, (h.register_eq d).1 hd]
    simp [ih hrest]

end Indexed

end Catalog

/-! ### What was offered -/

/-- The descriptors of a document's entries, in order. -/
def CatalogDocument.descriptors (doc : CatalogDocument) (version : Version) : List Descriptor :=
  doc.resources.filterMap (·.descriptor? version)

namespace Catalog

/-- A catalog was made from some descriptors, in the order in which they were offered. -/
inductive Built : Catalog → List Descriptor → Prop
  | fresh (version : Version) : Built (ofVersion version) []
  | read {doc : CatalogDocument} {c : Catalog} (hread : ofDocument doc = .ok c) :
      Built c (doc.descriptors c.version)
  | registered {c : Catalog} {offered : List Descriptor} (h : Built c offered) (d : Descriptor) :
      Built (c.register d).2 (offered ++ [d])
  | merged {c other : Catalog} {offered others : List Descriptor} (h : Built c offered)
      (hother : Built other others) : Built (c.merge other).2 (offered ++ other.entries)

variable {c other third : Catalog} {offered others : List Descriptor}

theorem ofDocument_eq_ok {doc : CatalogDocument} (h : ofDocument doc = .ok c) :
    Version.ofString? doc.version = some c.version ∧
      c = ((ofVersion c.version).registerAll (doc.descriptors c.version)).2 := by
  unfold ofDocument at h
  split at h
  · cases h
  · rename_i version hversion
    have hc : ((ofVersion version).registerAll (doc.descriptors version)).2 = c := Except.ok.inj h
    have hkept := ((indexed_ofVersion version).registerAll_eq (doc.descriptors version)).2.1
    rw [hc] at hkept
    obtain rfl : c.version = version := hkept
    exact ⟨hversion, hc.symm⟩

/-- A catalog is the first of each id among what was offered. -/
theorem Built.indexed_entries (h : c.Built offered) : c.Indexed ∧ c.entries = firsts [] offered := by
  -- Registering more keeps to it, whatever the catalog was made from.
  have hmore {c : Catalog} {offered : List Descriptor} (hindexed : c.Indexed)
      (hentries : c.entries = firsts [] offered) (more : List Descriptor) :
      (c.registerAll more).2.Indexed ∧
        (c.registerAll more).2.entries = firsts [] (offered ++ more) := by
    obtain ⟨-, -, hall, hlater⟩ := hindexed.registerAll_eq more
    have hids (id : String) : id ∈ c.ids ↔ id ∈ idsOf offered ++ [] := by
      have hknown := idsOf_firsts [] offered
      rw [← hentries] at hknown
      change c.ids = _ at hknown
      simp [hknown]
    refine ⟨hlater, ?_⟩
    rw [hall, firsts_append, hentries, firsts_congr hids]
  induction h with
  | fresh version => exact ⟨indexed_ofVersion version, rfl⟩
  | @read doc c hread =>
    have hempty : (ofVersion c.version).entries = firsts [] [] := rfl
    have hall := hmore (indexed_ofVersion c.version) hempty (doc.descriptors c.version)
    rwa [← (ofDocument_eq_ok hread).2] at hall
  | registered h d ih =>
    have hone := hmore ih.1 ih.2 [d]
    simpa [registerAll] using hone
  | merged h hother ih => exact hmore ih.1 ih.2 _

theorem Built.ids_eq (h : c.Built offered) : c.ids = (idsOf offered).eraseDups := by
  have hids := idsOf_firsts [] offered
  rw [← h.indexed_entries.2] at hids
  exact hids.trans (by simp)

theorem Built.mem_ids (h : c.Built offered) (id : String) : id ∈ c.ids ↔ id ∈ idsOf offered := by
  rw [h.ids_eq, List.mem_eraseDups]

theorem Built.get?_eq (h : c.Built offered) (id : String) :
    c.get? id = offered.find? (·.id.text == id) := by
  rw [h.indexed_entries.1.get?_eq, h.indexed_entries.2, find?_firsts]
  exact if_neg List.not_mem_nil

/-- Merging two catalogs one after the other, or one that has them both. -/
theorem Built.entries_merge_merge (h : c.Built offered) (hother : other.Built others) :
    ((c.merge other).2.merge third).2.entries = (c.merge (other.merge third).2).2.entries := by
  obtain ⟨hindexed, -⟩ := h.indexed_entries
  obtain ⟨hinner, -⟩ := hother.indexed_entries
  have hless : ∀ id ∈ other.ids, id ∈ idsOf other.entries ++ c.ids := fun id hid ↦
    List.mem_append_left _ hid
  calc ((c.merge other).2.merge third).2.entries
      = (c.merge other).2.entries ++ firsts (c.merge other).2.ids third.entries :=
        (hindexed.merge_eq other).2.2.2.merge_eq third |>.2.2.1
    _ = c.entries ++ firsts c.ids other.entries ++
          firsts (idsOf other.entries ++ c.ids) third.entries := by
        rw [(hindexed.merge_eq other).2.2.1, firsts_congr (hindexed.mem_ids_merge other)]
    _ = c.entries ++ firsts c.ids (other.entries ++ firsts other.ids third.entries) := by
        rw [firsts_append, firsts_firsts hless, List.append_assoc]
    _ = (c.merge (other.merge third).2).2.entries := by
        rw [(hindexed.merge_eq _).2.2.1, (hinner.merge_eq third).2.2.1]

/-- What a catalog owes to the descriptors that were offered to it, one after another. -/
structure Precedence (offered : List Descriptor) (c : Catalog) : Prop where
  nonempty : ∀ id ∈ c.ids, id ≠ ""
  distinct : c.ids.Nodup
  /-- The index has the position of every entry, and nothing else. -/
  index : ∀ id position, c.index.get? id = some position ↔ c.ids[position]? = some id
  /-- A look-up finds what was offered first. -/
  first : ∀ id, c.get? id = offered.find? (·.id.text == id)
  contains : ∀ id, c.contains id = (c.get? id).isSome
  /-- The ids stand in the order of their first offer. -/
  order : c.ids = (idsOf offered).eraseDups
  register : ∀ d, (c.register d).1 = true ↔ d.id.text ∉ c.ids
  growth : ∀ other, c.size + (c.merge other).1 = (c.merge other).2.size
  /-- Merging a catalog once more changes nothing. -/
  again : ∀ other, (c.merge other).2.merge other = (0, (c.merge other).2)
  /-- Two catalogs may be merged with each other before. -/
  twice : ∀ other others third, Built other others →
    ((c.merge other).2.merge third).2.entries = (c.merge (other.merge third).2).2.entries

/-- The first registration wins, in every catalog that is made from documents, registered
descriptors and merged catalogs, in any order. -/
theorem precedence_of_built (h : c.Built offered) : c.Precedence offered := by
  obtain ⟨hindexed, hentries⟩ := h.indexed_entries
  constructor
  case nonempty =>
    intro id hid
    obtain ⟨d, -, rfl⟩ := List.mem_map.mp hid
    exact d.id.nonempty
  case distinct => exact hindexed.distinct
  case index => exact hindexed.get?_index
  case first => exact h.get?_eq
  case contains =>
    intro id
    rw [Bool.eq_iff_iff, hindexed.contains_iff, h.mem_ids, h.get?_eq, List.find?_isSome]
    simp [idsOf]
  case order => exact h.ids_eq
  case register =>
    intro d
    by_cases hd : d.id.text ∈ c.ids
    · simp [(hindexed.register_eq d).1 hd, hd]
    · simp [((hindexed.register_eq d).2 hd).1, hd]
  case growth =>
    intro other
    obtain ⟨hcount, -, hall, -⟩ := hindexed.merge_eq other
    rw [size, size, hcount, hall, List.length_append]
  case again =>
    intro other
    refine (hindexed.merge_eq other).2.2.2.registerAll_known fun id hid ↦ ?_
    exact (hindexed.mem_ids_merge other id).mpr (List.mem_append_left _ hid)
  case twice => exact fun other others third hother ↦ h.entries_merge_merge hother

/-- A document that names one resource twice, and one not at all. -/
def repeatedDocument : CatalogDocument where
  version := "1.2.0"
  resources := [
    { id := "hero", uri := "first.png", kind := "texture" },
    { id := "", uri := "nameless.png", kind := "texture" },
    { id := "hero", uri := "second.png", kind := "texture" }]

/-- Descriptors made by hand, the first of a resource that the document has. -/
def laterHero : Descriptor := { id := ⟨"hero", by decide⟩, uri := "third.png", kind := .texture }

def lonelyTree : Descriptor := { id := ⟨"tree", by decide⟩, uri := "tree.glb", kind := .mesh }

theorem precedence_of_repeatedDocument :
    ∃ read c offered, ofDocument repeatedDocument = .ok read ∧
      c = ((read.register laterHero).2.merge ((ofVersion ⟨2, 0, 0⟩).register lonelyTree).2).2 ∧
      c.Built offered ∧ c.Precedence offered ∧
      idsOf offered = ["hero", "hero", "hero", "tree"] ∧ c.ids = ["hero", "tree"] ∧
      (c.get? "hero").map (·.uri) = some "first.png" := by
  have hread : ofDocument repeatedDocument = .ok _ := rfl
  have hbuilt := ((Built.read hread).registered laterHero).merged
    ((Built.fresh ⟨2, 0, 0⟩).registered lonelyTree)
  exact ⟨_, _, _, hread, rfl, hbuilt, precedence_of_built hbuilt, by decide, by decide, by decide⟩

end Catalog

end Blueprint

import Blueprint.Proofs.Catalog.Precedence
import Blueprint.Proofs.Json.Values
import Blueprint.Proofs.Version

/-!
Writing a catalog loses nothing. What reading a document turns into typed settings, kinds and
versions is left alone when it is written and read once more (`Descriptor.Written`), and a written
document is read back field by field (`CatalogDocument.read_toJson`). Hence a catalog that was put
together from documents comes back from its own text as it was, each descriptor with the catalog's
version (`Catalog.writtenBack_of_gathered`).
-/

set_option autoImplicit false

namespace Blueprint

/-! ### Fields of an entry -/

theorem ResourceKind.ofTag_tag (tag : String) : ofTag (ofTag tag).tag = ofTag tag := by
  cases hkind : ofTag tag with
  | texture | mesh | blueprint | json => rfl
  | other written =>
    have hsame : written = tag := by
      unfold ofTag at hkind
      split at hkind <;> cases hkind
      rfl
    rw [ResourceKind.tag, hsame, hkind, hsame]

/-- Settings that were read are read from what writes them. -/
theorem ImportSettings.ofMetadata_toMetadata (kind : ResourceKind) (metadata : Json) :
    ofMetadata kind (ofMetadata kind metadata).toMetadata = ofMetadata kind metadata := by
  have hkept {kind : ResourceKind}
      (h : ∀ json, ofMetadata kind json = if json.isNull then .none else .raw json) :
      ofMetadata kind (ofMetadata kind metadata).toMetadata = ofMetadata kind metadata := by
    by_cases hnull : metadata.isNull = true
    · have hnone : ofMetadata kind metadata = .none := (h metadata).trans (if_pos hnull)
      rw [hnone]
      exact h .null
    · have hraw : ofMetadata kind metadata = .raw metadata := (h metadata).trans (if_neg hnull)
      rw [hraw, toMetadata, hraw]
  cases kind with
  | texture =>
    obtain ⟨srgb, hsettings⟩ : ∃ srgb, ofMetadata .texture metadata = .texture srgb := ⟨_, rfl⟩
    rw [hsettings]
    rfl
  | mesh =>
    obtain ⟨selector, hsettings⟩ : ∃ selector, ofMetadata .mesh metadata = .mesh selector :=
      ⟨_, rfl⟩
    rw [hsettings]
    cases selector <;> rfl
  | blueprint =>
    obtain ⟨version, hsettings⟩ : ∃ version, ofMetadata .blueprint metadata = .blueprint version :=
      ⟨_, rfl⟩
    rw [hsettings]
    cases version <;> rfl
  | json => exact hkept fun _ ↦ rfl
  | other tag => exact hkept fun _ ↦ rfl

/-! ### Reading a written document -/

/-- An entry as a JSON value. -/
def CatalogEntry.toJson (entry : CatalogEntry) : Json :=
  .object [
    ("id", .string entry.id),
    ("uri", .string entry.uri),
    ("type", .string entry.kind),
    ("hash", ImportSettings.ofText entry.hash),
    ("metadata", entry.metadata)]

/-- A document as a JSON value. -/
def CatalogDocument.toJson (doc : CatalogDocument) : Json :=
  .object [("version", .string doc.version), ("resources", .array (doc.resources.map (·.toJson)))]

theorem CatalogDocument.render_eq (doc : CatalogDocument) : doc.render = doc.toJson.indented := by
  have hitems (entries : List CatalogEntry) : entries.map (CatalogEntry.render 2) =
      Json.indentedItems 2 (entries.map (·.toJson)) := by
    induction entries with
    | nil => rfl
    | cons entry rest ih => rw [List.map_cons, ih]; rfl
  rw [render, hitems]
  rfl

/-- The deepest that an entry's metadata may nest, by what is left below it. -/
def metadataDepth : Nat := 125

/-- A member that is met for the first time is stored in its field. -/
theorem Source.readMembersOf_known {σ : Type} {fields : List (Field σ)} {field : Field σ}
    {depth : Nat} {key : String} {value : Source} {rest : List (Option String × Source)}
    {seen : List String} {before middle : σ} (hfield : fields.find? (·.name == key) = some field)
    (hnew : seen.contains key = false) (hstore : field.store depth value before = .ok middle) :
    readMembersOf fields depth ((some key, value) :: rest) seen before =
      readMembersOf fields depth rest (key :: seen) middle := by
  rw [readMembersOf, hfield]
  simp only [hnew, hstore, bind, Except.bind]
  rfl

theorem CatalogEntry.read_toJson {entry : CatalogEntry}
    (h : (Source.ofJson entry.metadata).toJson metadataDepth = .ok entry.metadata) :
    read 126 (Source.ofJson entry.toJson) = .ok entry := by
  have hhash : (Source.readOptional Source.readString
      (Source.ofJson (ImportSettings.ofText entry.hash)) >>= fun hash ↦
        .ok { id := entry.id, uri := entry.uri, kind := entry.kind, hash } : Reading CatalogEntry) =
      .ok { id := entry.id, uri := entry.uri, kind := entry.kind, hash := entry.hash } := by
    cases entry.hash <;> rfl
  have hmetadata : ((Source.ofJson entry.metadata).toJson metadataDepth >>= fun metadata ↦
      .ok { entry with metadata } : Reading CatalogEntry) = .ok entry := by
    rw [h]
    rfl
  have hmembers : Source.readMembersOf fields metadataDepth
      [(some "id", .string (some entry.id)), (some "uri", .string (some entry.uri)),
        (some "type", .string (some entry.kind)),
        (some "hash", Source.ofJson (ImportSettings.ofText entry.hash)),
        (some "metadata", Source.ofJson entry.metadata)] [] {} =
      .ok (["metadata", "hash", "type", "uri", "id"], entry) := by
    rw [Source.readMembersOf_known rfl rfl rfl, Source.readMembersOf_known rfl rfl rfl,
      Source.readMembersOf_known rfl rfl rfl,
      Source.readMembersOf_known rfl rfl hhash, Source.readMembersOf_known rfl rfl hmetadata]
    rfl
  exact Reading.bind_eq_ok_iff.mpr ⟨metadataDepth, rfl, Reading.bind_eq_ok_iff.mpr ⟨_, hmembers, rfl⟩⟩

theorem CatalogDocument.read_toJson {doc : CatalogDocument}
    (h : ∀ entry ∈ doc.resources,
      (Source.ofJson entry.metadata).toJson metadataDepth = .ok entry.metadata) :
    read Source.depthLimit (Source.ofJson doc.toJson) = .ok doc := by
  have hitems {entries : List CatalogEntry}
      (h : ∀ entry ∈ entries,
        (Source.ofJson entry.metadata).toJson metadataDepth = .ok entry.metadata) :
      (Source.ofItems (entries.map (·.toJson))).mapM (CatalogEntry.read 126) = .ok entries := by
    induction entries with
    | nil => rfl
    | cons entry rest ih =>
      obtain ⟨hentry, hrest⟩ := List.forall_mem_cons.mp h
      rw [List.map_cons, Source.ofItems, List.mapM_cons]
      exact Reading.bind_eq_ok_iff.mpr ⟨entry, CatalogEntry.read_toJson hentry,
        Reading.bind_eq_ok_iff.mpr ⟨rest, ih hrest, rfl⟩⟩
  have hresources : Source.readList CatalogEntry.read 127
      (.array (Source.ofItems (doc.resources.map (·.toJson))) true) = .ok doc.resources :=
    Reading.bind_eq_ok_iff.mpr ⟨126, rfl, Reading.bind_eq_ok_iff.mpr ⟨doc.resources, hitems h, rfl⟩⟩
  have hstored : (Source.readList CatalogEntry.read 127
      (.array (Source.ofItems (doc.resources.map (·.toJson))) true) >>= fun resources ↦
        .ok { doc with resources } : Reading CatalogDocument) = .ok doc := by
    rw [hresources]
    rfl
  have hmembers : Source.readMembersOf fields 127
      [(some "version", .string (some doc.version)),
        (some "resources", .array (Source.ofItems (doc.resources.map (·.toJson))) true)] [] {} =
      .ok (["resources", "version"], doc) := by
    rw [Source.readMembersOf_known rfl rfl rfl, Source.readMembersOf_known rfl rfl hstored]
    rfl
  exact Reading.bind_eq_ok_iff.mpr ⟨127, rfl, Reading.bind_eq_ok_iff.mpr ⟨_, hmembers, rfl⟩⟩

/-! ### What a document was read from -/

namespace Source

variable {σ : Type} {fields : List (Field σ)}

/-- What a field stores comes from a part of what the record is read from, one bracket further in. -/
def Stores (fields : List (Field σ)) (depth : Nat) (parts : List JsonNumber) (keeps : σ → Prop) :
    Prop :=
  ∀ field ∈ fields, ∀ (value : Source) (before after : σ), (∀ n ∈ value.numbers, n ∈ parts) →
    field.store depth value before = .ok after → keeps before → keeps after

theorem keeps_of_members {keeps : σ → Prop} {depth : Nat} {members : List (Option String × Source)}
    {seen later : List String} {before after : σ}
    (hstores : Stores fields depth (numbersOfMembers members) keeps)
    (h : readMembersOf fields depth members seen before = .ok (later, after))
    (hbefore : keeps before) : keeps after := by
  induction members generalizing seen before with
  | nil =>
    obtain ⟨-, rfl⟩ := Prod.mk.inj (Except.ok.inj h)
    exact hbefore
  | cons member rest ih =>
    obtain ⟨key, value⟩ := member
    have hrest : Stores fields depth (numbersOfMembers rest) keeps :=
      fun field hfield value before after hparts ↦
        hstores field hfield value before after fun n hn ↦ List.mem_append_right _ (hparts n hn)
    cases key with
    | none => cases h
    | some key =>
      rcases readMembersOf_cons_cases h with ⟨-, h⟩ | ⟨field, middle, hfield, -, hstore, h⟩
      · exact ih hrest h hbefore
      · exact ih hrest h (hstores field (List.mem_of_find?_eq_some hfield) value before middle
          (fun n hn ↦ List.mem_append_left _ hn) hstore hbefore)

theorem keeps_of_items {keeps : σ → Prop} {name : String} {count depth position : Nat} {closed : Bool}
    {items : List Source} {before after : σ}
    (hstores : Stores fields depth (numbersOfItems items) keeps)
    (h : readItemsOf name count depth position closed fields items before = .ok after)
    (hbefore : keeps before) : keeps after := by
  induction fields generalizing items position before with
  | nil =>
    cases items with
    | nil =>
      rw [readItemsOf] at h
      split at h
      · exact Except.ok.inj h ▸ hbefore
      · cases h
    | cons item rest => cases h
  | cons field fields ih =>
    have hfewer {parts : List JsonNumber} (hparts : ∀ n ∈ parts, n ∈ numbersOfItems items) :
        Stores fields depth parts keeps := fun other hother value before after hvalue ↦
      hstores other (List.mem_cons_of_mem _ hother) value before after
        fun n hn ↦ hparts n (hvalue n hn)
    obtain ⟨rfl, hrest⟩ | ⟨item, rest, middle, rfl, hstore, hrest⟩ := readItemsOf_cons_cases h
    · exact ih (hfewer fun n hn ↦ hn) hrest hbefore
    · exact ih (hfewer fun n hn ↦ List.mem_append_right _ hn) hrest
        (hstores field List.mem_cons_self item before middle
          (fun n hn ↦ List.mem_append_left _ hn) hstore hbefore)

/-- A record keeps what each of its fields keeps. -/
theorem keeps_of_readRecord (keeps : σ → Prop) {name : String} {depth : Nat} {source : Source}
    {start record : σ}
    (hstores : Stores fields (depth - 1) source.numbers keeps)
    (h : source.readRecord name fields start depth = .ok record) (hstart : keeps start) :
    keeps record := by
  obtain ⟨members, closed, seen, rfl, hread⟩ | ⟨items, closed, rfl, hread⟩ := readRecord_cases h
  · exact keeps_of_members hstores hread hstart
  · exact keeps_of_items hstores hread hstart

theorem readList_eq_ok {α : Type} {read : Nat → Source → Reading α} {depth : Nat} {source : Source}
    {values : List α} (h : readList read depth source = .ok values) :
    ∀ value ∈ values, ∃ item, (∀ n ∈ item.numbers, n ∈ source.numbers) ∧
      read (depth - 1) item = .ok value := by
  obtain ⟨items, inner, rfl, hinner, hread⟩ := readList_eq_ok_iff.mp h
  obtain rfl := deeper_eq_ok hinner
  clear h hinner
  rw [numbers]
  induction hread with
  | nil => exact nofun
  | @cons item first rest more hfirst _ ih =>
    refine List.forall_mem_cons.mpr
      ⟨⟨item, fun n hn ↦ List.mem_append_left _ hn, hfirst⟩, fun value hvalue ↦ ?_⟩
    obtain ⟨source, hnumbers, hread⟩ := ih value hvalue
    exact ⟨source, fun n hn ↦ List.mem_append_right _ (hnumbers n hn), hread⟩

end Source

/-- Metadata that can be read at its depth, and has no numbers but those of a text. -/
structure Traced (parts : List JsonNumber) (metadata : Json) : Prop where
  settled : (Source.ofJson metadata).toJson metadataDepth = .ok metadata
  numbers : ∀ n ∈ metadata.numbers, n ∈ parts

theorem CatalogEntry.traced_of_read {source : Source} {entry : CatalogEntry}
    (h : read 126 source = .ok entry) : Traced source.numbers entry.metadata := by
  refine Source.keeps_of_readRecord
    (fun entry : CatalogEntry ↦ Traced source.numbers entry.metadata) ?_ h ⟨rfl, nofun⟩
  intro field hfield value before after hparts hstore hbefore
  simp only [fields, List.mem_cons, List.not_mem_nil, or_false] at hfield
  rcases hfield with rfl | rfl | rfl | rfl | rfl
  case inr.inr.inr.inr =>
    obtain ⟨json, hjson, h⟩ := Reading.bind_eq_ok_iff.mp hstore
    rw [← Except.ok.inj h]
    exact ⟨Source.toJson_ofJson hjson, fun n hn ↦ hparts n (Source.numbers_toJson hjson n hn)⟩
  -- The other fields leave the metadata alone.
  all_goals
    obtain ⟨text, -, hafter⟩ := Reading.bind_eq_ok_iff.mp hstore
    rw [← Except.ok.inj hafter]
    exact hbefore

theorem CatalogDocument.traced_of_read {source : Source} {doc : CatalogDocument}
    (h : read Source.depthLimit source = .ok doc) :
    ∀ entry ∈ doc.resources, Traced source.numbers entry.metadata := by
  refine Source.keeps_of_readRecord (fun doc : CatalogDocument ↦
    ∀ entry ∈ doc.resources, Traced source.numbers entry.metadata) ?_ h nofun
  intro field hfield value before after hparts hstore hbefore
  simp only [fields, List.mem_cons, List.not_mem_nil, or_false] at hfield
  rcases hfield with rfl | rfl
  · obtain ⟨text, -, h⟩ := Reading.bind_eq_ok_iff.mp hstore
    rw [← Except.ok.inj h]
    exact hbefore
  · obtain ⟨resources, hresources, h⟩ := Reading.bind_eq_ok_iff.mp hstore
    rw [← Except.ok.inj h]
    intro entry hentry
    obtain ⟨item, hnumbers, hread⟩ := Source.readList_eq_ok hresources entry hentry
    have htraced := CatalogEntry.traced_of_read hread
    exact ⟨htraced.settled, fun n hn ↦ hparts n (hnumbers n (htraced.numbers n hn))⟩

/-! ### Catalogs that were written -/

/-- A descriptor that loses nothing by being written: each of its parts is read back from what is
written for it. -/
structure Descriptor.Written (d : Descriptor) : Prop where
  kind : ResourceKind.ofTag d.kind.tag = d.kind
  hash : d.hash ≠ some ""
  settings : ImportSettings.ofMetadata d.kind d.settings.toMetadata = d.settings
  metadata : (Source.ofJson d.settings.toMetadata).toJson metadataDepth = .ok d.settings.toMetadata
  sized : ∀ n ∈ d.settings.toMetadata.numbers, Source.Sized n

/-- Settings that were read are written as what has been there, or as a value of their own. -/
theorem ImportSettings.traced_toMetadata {parts : List JsonNumber} {metadata : Json}
    (h : Traced parts metadata) (kind : ResourceKind) :
    Traced parts (ofMetadata kind metadata).toMetadata := by
  have hkept (json : Json) (h : Traced parts json) :
      Traced parts (if json.isNull then ImportSettings.none else .raw json).toMetadata := by
    split
    · exact ⟨rfl, nofun⟩
    · exact h
  have htext (name : String) (text : Option String) :
      Traced parts (.object [(name, ofText text)]) := by
    cases text <;> exact ⟨rfl, nofun⟩
  cases kind with
  | texture => exact ⟨rfl, nofun⟩
  | mesh => exact htext "mesh" _
  | blueprint => exact htext "version" _
  | json => exact hkept metadata h
  | other tag => exact hkept metadata h

theorem CatalogEntry.descriptor?_eq_some {entry : CatalogEntry} {version : Version} {d : Descriptor}
    (h : entry.descriptor? version = some d) :
    d.kind = ResourceKind.ofTag entry.kind ∧ d.hash ≠ some "" ∧
      d.settings = ImportSettings.ofMetadata d.kind entry.metadata ∧
      d.schemaVersion = some version := by
  unfold descriptor? at h
  obtain ⟨id, -, h⟩ := Option.bind_eq_some_iff.mp h
  dsimp only at h
  split at h
  · rw [← Option.some.inj h]
    refine ⟨rfl, ?_, rfl, rfl⟩
    rw [Descriptor.withHash]
    dsimp only
    split
    · simp
    · rename_i hsome
      exact fun heq ↦ hsome (Option.some.inj heq)
  · rw [← Option.some.inj h]
    exact ⟨rfl, by simp, rfl, rfl⟩

theorem CatalogEntry.written_descriptor {entry : CatalogEntry} {version : Version} {d : Descriptor}
    {parts : List JsonNumber} (h : entry.descriptor? version = some d)
    (htraced : Traced parts entry.metadata) (hparts : ∀ n ∈ parts, Source.Sized n) : d.Written := by
  obtain ⟨hkind, hhash, hsettings, -⟩ := descriptor?_eq_some h
  have hmetadata := ImportSettings.traced_toMetadata htraced d.kind
  rw [← hsettings] at hmetadata
  refine ⟨?_, hhash, ?_, hmetadata.settled, fun n hn ↦ hparts n (hmetadata.numbers n hn)⟩
  · rw [hkind, ResourceKind.ofTag_tag]
  · rw [hsettings, ImportSettings.ofMetadata_toMetadata]

/-- The entry that writes a descriptor stands for it, but for the version. -/
theorem Descriptor.Written.descriptor?_ofDescriptor {d : Descriptor} (h : d.Written)
    (version : Version) : (CatalogEntry.ofDescriptor d).descriptor? version =
      some { d with schemaVersion := some version } := by
  obtain ⟨id, uri, hash, kind, settings, schemaVersion⟩ := d
  have hid : ResourceId.ofString? id.text = some id := dif_pos id.nonempty
  unfold CatalogEntry.descriptor? CatalogEntry.ofDescriptor
  simp only [hid, h.kind, h.settings]
  cases hash with
  | none => rfl
  | some text =>
    have hsome : text ≠ "" := fun heq ↦ h.hash (congrArg some heq)
    simp [Descriptor.withHash, hsome]

namespace Catalog

/-- The catalog with its own version on each descriptor. -/
def stamped (c : Catalog) : Catalog :=
  { c with entries := c.entries.map fun d ↦ { d with schemaVersion := some c.version } }

/-- The numbers in a catalog's import settings. -/
def numbers (c : Catalog) : List JsonNumber :=
  c.entries.flatMap fun d ↦ d.settings.toMetadata.numbers

/-- A catalog that was put together from documents. -/
inductive Gathered : Catalog → Prop
  | fresh (version : Version) : Gathered (ofVersion version)
  | read {text : String} {c : Catalog} (hread : ofText text = .ok c) : Gathered c
  | merged {c other : Catalog} (h : Gathered c) (hother : Gathered other) :
      Gathered (c.merge other).2

variable {c : Catalog}

theorem document_of_ofText {text : String} (h : ofText text = .ok c) :
    ∃ doc, ofDocument doc = .ok c ∧ ∀ d ∈ doc.descriptors c.version,
      d.Written ∧ d.schemaVersion = some c.version := by
  unfold ofText at h
  split at h
  · rename_i doc hdecode
    have hread := SourceText.read_of_decode hdecode
    refine ⟨doc, h, fun d hd ↦ ?_⟩
    obtain ⟨entry, hentry, hd⟩ := List.mem_filterMap.mp hd
    have htraced := CatalogDocument.traced_of_read hread entry hentry
    exact ⟨CatalogEntry.written_descriptor hd htraced (Source.sized_ofString text),
      (CatalogEntry.descriptor?_eq_some hd).2.2.2⟩
  · cases h

/-- Whatever was offered to such a catalog can be written. -/
theorem Gathered.built (h : c.Gathered) :
    ∃ offered, c.Built offered ∧ ∀ d ∈ offered, d.Written := by
  induction h with
  | fresh version => exact ⟨[], .fresh version, nofun⟩
  | read hread =>
    obtain ⟨doc, hdoc, hwritten⟩ := document_of_ofText hread
    exact ⟨_, .read hdoc, fun d hd ↦ (hwritten d hd).1⟩
  | merged h hother ih ihother =>
    obtain ⟨offered, hbuilt, hwritten⟩ := ih
    obtain ⟨others, hothers, hotherWritten⟩ := ihother
    refine ⟨_, hbuilt.merged hothers, fun d hd ↦ ?_⟩
    rcases List.mem_append.mp hd with hd | hd
    · exact hwritten d hd
    · rw [hothers.indexed_entries.2] at hd
      exact hotherWritten d (mem_of_mem_firsts hd)

theorem Gathered.indexed (h : c.Gathered) : c.Indexed := by
  obtain ⟨_, hbuilt, -⟩ := h.built
  exact hbuilt.indexed_entries.1

theorem Gathered.written (h : c.Gathered) : ∀ d ∈ c.entries, d.Written := by
  obtain ⟨offered, hbuilt, hwritten⟩ := h.built
  rw [hbuilt.indexed_entries.2]
  exact fun d hd ↦ hwritten d (mem_of_mem_firsts hd)

/-- What is read from a text has its version throughout. -/
theorem stamped_of_ofText {text : String} (h : ofText text = .ok c) : c.stamped = c := by
  obtain ⟨doc, hdoc, hwritten⟩ := document_of_ofText h
  have hentries := (Built.read hdoc).indexed_entries.2
  have hsame : ∀ d ∈ c.entries, { d with schemaVersion := some c.version } = d := by
    intro d hd
    rw [hentries] at hd
    rw [← (hwritten d (mem_of_mem_firsts hd)).2]
  rw [stamped, List.map_congr_left hsame, List.map_id']

theorem ids_stamped (c : Catalog) : idsOf c.stamped.entries = c.ids := by
  simp [stamped, idsOf, ids]

theorem ofDocument_toDocument (h : c.Gathered) : ofDocument c.toDocument = .ok c.stamped := by
  have hdescriptors : c.toDocument.resources.filterMap (·.descriptor? c.version) =
      c.stamped.entries := by
    rw [toDocument, stamped, List.filterMap_map, ← List.filterMap_eq_map]
    exact List.filterMap_congr fun d hd ↦ (h.written d hd).descriptor?_ofDescriptor c.version
  have hdistinct : (idsOf c.stamped.entries).Nodup := by
    rw [ids_stamped]
    exact h.indexed.distinct
  have hall : firsts (ofVersion c.version).ids c.stamped.entries = c.stamped.entries :=
    firsts_of_nodup hdistinct fun _ _ ↦ List.not_mem_nil
  obtain ⟨-, hversion, hentries, hindexed⟩ :=
    (indexed_ofVersion c.version).registerAll_eq c.stamped.entries
  have hsame : ((ofVersion c.version).registerAll c.stamped.entries).2 = c.stamped := by
    revert hversion hentries hindexed
    rcases ((ofVersion c.version).registerAll c.stamped.entries).2 with ⟨version, entries, ⟨index⟩⟩
    rintro rfl hentries hindexed
    obtain rfl : entries = c.stamped.entries := hentries.trans hall
    obtain rfl : index = c.index.entries := by
      rw [h.indexed.index_eq, ← ids_stamped]
      exact hindexed.index_eq
    rfl
  unfold ofDocument
  rw [show Version.ofString? c.toDocument.version = some c.version from
    Version.ofString?_render c.version]
  dsimp only
  rw [hdescriptors, hsame]

theorem numbers_toDocument (c : Catalog) : c.toDocument.toJson.numbers = c.numbers := by
  have hentry (d : Descriptor) :
      (CatalogEntry.ofDescriptor d).toJson.numbers = d.settings.toMetadata.numbers := by
    have hhash : (ImportSettings.ofText d.hash).numbers = [] := by cases d.hash <;> rfl
    simp [CatalogEntry.ofDescriptor, CatalogEntry.toJson, Json.numbers, Json.numbersOfMembers,
      hhash]
  have hitems (entries : List Descriptor) :
      Json.numbersOfItems ((entries.map CatalogEntry.ofDescriptor).map fun entry ↦ entry.toJson) =
        entries.flatMap fun d ↦ d.settings.toMetadata.numbers := by
    induction entries with
    | nil => rfl
    | cons d rest ih =>
      rw [List.map_cons, List.map_cons, Json.numbersOfItems, hentry, ih, List.flatMap_cons]
  rw [numbers, ← hitems]
  exact List.append_nil _

theorem ofText_toText (h : c.Gathered)
    (hreals : ∀ x : FiniteFloat, .real x ∈ c.numbers → (JsonNumber.real x).Legible) :
    ofText c.toText = .ok c.stamped := by
  have hlegible : ∀ n ∈ c.toDocument.toJson.numbers, n.Legible := by
    rw [numbers_toDocument]
    intro n hn
    cases n with
    | real x => exact hreals x hn
    | whole n =>
      obtain ⟨d, hd, hn⟩ := List.mem_flatMap.mp hn
      exact (h.written d hd).sized _ hn
  have hdecode : (SourceText.ofString c.toText).decode CatalogDocument.read = .ok c.toDocument := by
    rw [toText, CatalogDocument.render_eq, Source.ofString_indented hlegible]
    refine Reading.bind_eq_ok_iff.mpr ⟨c.toDocument, CatalogDocument.read_toJson ?_, rfl⟩
    intro entry hentry
    obtain ⟨d, hd, rfl⟩ := List.mem_map.mp hentry
    exact (h.written d hd).metadata
  rw [ofText, hdecode]
  exact ofDocument_toDocument h

/-- What writing a catalog owes to it. -/
structure WrittenBack (c : Catalog) : Prop where
  /-- Reading what was written gives the catalog, its version on each descriptor. -/
  reread : ofText c.toText = .ok c.stamped
  /-- Nothing is changed in a catalog that was read from one text. -/
  exact : ∀ text, ofText text = .ok c → ofText c.toText = .ok c
  /-- Writing what was read gives the same text. -/
  again : c.stamped.toText = c.toText

/-- Writing a catalog loses nothing, whatever documents it was put together from.

Assumes: the floating-point numbers in its import settings are read back from their own texts. -/
theorem writtenBack_of_gathered (h : c.Gathered)
    (hreals : ∀ x : FiniteFloat, .real x ∈ c.numbers →
      Json.ofString? (JsonNumber.real x).render = some (.number (.real x))) : c.WrittenBack := by
  have hreread := ofText_toText h hreals
  refine ⟨hreread, fun text hread ↦ ?_, ?_⟩
  · rw [hreread, stamped_of_ofText hread]
  · have hdocument : c.stamped.toDocument = c.toDocument := by
      simp [toDocument, stamped, CatalogEntry.ofDescriptor]
    rw [toText, hdocument, toText]

/-- Whether a floating-point number is read back from its own text. -/
def readsBack (x : FiniteFloat) : Bool :=
  match Json.ofString? (JsonNumber.real x).render with
  | some (.number (.real y)) => y.val = x.val
  | _ => false

theorem ofString?_of_readsBack {x : FiniteFloat} (h : readsBack x = true) :
    Json.ofString? (JsonNumber.real x).render = some (.number (.real x)) := by
  unfold readsBack at h
  split at h
  · rename_i y hread
    obtain ⟨y, hy⟩ := y
    obtain rfl : y = x.val := of_decide_eq_true h
    exact hread
  · cases h

/-- A document with an alias of a type, an empty hash, settings that do not fit their type, and
settings of a type that is not known. -/
def mixedDocument : String :=
  Json.compact (.object [("version", .string "v1.2"), ("resources", .array [
    .object [("id", .string "cave"), ("uri", .string "cave.json"), ("type", .string "GRAPH"),
      ("hash", .string ""), ("metadata", .object [("version", .number (.whole 7))])],
    .object [("id", .string "wind"), ("uri", .string "wind.ogg"), ("type", .string "Sound"),
      ("hash", .string "f0"), ("metadata", .object [("pan", .array [.number (.whole (-1)), .null]),
        ("gain", .number (.real ⟨0.5, by decide +kernel⟩))])]])])

/-- The document is merged into a catalog of another version. -/
theorem writtenBack_of_mixedDocument : ∃ other, ofText mixedDocument = .ok other ∧
    ((ofVersion ⟨2, 0, 0⟩).merge other).2.ids = ["cave", "wind"] ∧
    ((ofVersion ⟨2, 0, 0⟩).merge other).2.numbers.length = 2 ∧
    ((ofVersion ⟨2, 0, 0⟩).merge other).2.WrittenBack := by
  have hread : (match ofText mixedDocument with
      | .ok other =>
        let c := ((ofVersion ⟨2, 0, 0⟩).merge other).2
        c.ids == ["cave", "wind"] && c.numbers.length == 2 && c.numbers.all fun
          | .real x => readsBack x
          | .whole _ => true
      | .error _ => false) = true := by
    decide +kernel
  generalize hother : ofText mixedDocument = outcome at hread
  obtain e | other := outcome
  · cases hread
  · simp only [Bool.and_eq_true, beq_iff_eq] at hread
    obtain ⟨⟨hids, hnumbers⟩, hback⟩ := hread
    have hgathered := (Gathered.fresh ⟨2, 0, 0⟩).merged (.read hother)
    refine ⟨other, rfl, hids, hnumbers, writtenBack_of_gathered hgathered fun x hx ↦ ?_⟩
    exact ofString?_of_readsBack (List.all_eq_true.mp hback _ hx)

end Catalog

end Blueprint

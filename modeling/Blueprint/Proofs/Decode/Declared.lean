import Blueprint.Graph.Document
import Blueprint.Proofs.Json.Records

/-!
What a document declares. `Source.Declares` reads the version off the tree of the text, without any
record in mind. A reader of records whose first field is the version, and whose other fields leave
it alone, comes to what the document declares, whether the record is written as an object or as an
array (`Source.VersionFirst.declares`): a second member by that name is refused, and so no later
one can count. The header of a document and the whole document are read by two such readers, hence
they never differ on the version (`GraphDocument.version_eq_of_declaredVersion`).
-/

set_option autoImplicit false

namespace Blueprint

namespace Source

/-- The version field of a document: the first member by its name, or the first item. -/
def versionField : Source → Option Source
  | .object members _ => Table.find (some "version") members
  | .array items _ => items.head?
  | _ => none

theorem versionField_eq (source : Source) : source.versionField = source.fieldAt "version" 0 := by
  cases source with
  | array items closed => exact List.head?_eq_getElem?
  | _ => rfl

/-- What a document declares. A version that is missing or null is none. -/
inductive Declares (root : Source) : Option String → Prop
  | missing (hfield : root.versionField = none) : Declares root none
  | null (hfield : root.versionField = some .null) : Declares root none
  | text (written : String) (hfield : root.versionField = some (.string (some written))) :
      Declares root (some written)

theorem Declares.unique {root : Source} {first second : Option String}
    (hfirst : root.Declares first) (hsecond : root.Declares second) : first = second := by
  cases hfirst with
  | missing hfield | null hfield =>
    cases hsecond with
    | missing _ | null _ => rfl
    | text written hother => cases hfield.symm.trans hother
  | text written hfield =>
    cases hsecond with
    | missing hother | null hother => cases hfield.symm.trans hother
    | text other hother => cases hfield.symm.trans hother; rfl

/-- What is read of an optional text. -/
theorem readOptional_readString_cases {source : Source} {declared : Option String}
    (h : readOptional readString source = .ok declared) :
    (source = .null ∧ declared = none) ∨
      ∃ written, source = .string (some written) ∧ declared = some written := by
  unfold readOptional readString at h
  split at h
  · exact Or.inl ⟨rfl, (Except.ok.inj h).symm⟩
  · split at h
    · rename_i written _
      exact Or.inr ⟨written, rfl, (Except.ok.inj h).symm⟩
    · cases h

theorem declares_of_field {root field : Source} (hfield : root.versionField = some field)
    {declared : Option String} (hread : readOptional readString field = .ok declared) :
    root.Declares declared := by
  obtain ⟨rfl, rfl⟩ | ⟨written, rfl, rfl⟩ := readOptional_readString_cases hread
  · exact .null hfield
  · exact .text written hfield

/-- Records that hold a version: its field comes first, and no other field touches it. -/
structure VersionFirst {σ : Type} (version : σ → Option String) (first : Field σ)
    (others : List (Field σ)) : Prop where
  name_eq : first.name = "version"
  read_eq : ∀ depth source before record, first.store depth source before = .ok record →
    readOptional readString source = .ok (version record)
  other_name : ∀ field ∈ others, field.name ≠ "version"
  other_eq : ∀ field ∈ others, ∀ depth source before record,
    field.store depth source before = .ok record → version record = version before

namespace VersionFirst

variable {σ : Type} {version : σ → Option String} {first : Field σ} {others : List (Field σ)}
  (h : VersionFirst version first others)

include h

/-- What a record's version comes to is up to the version field. -/
theorem decides : Decides (first :: others) "version" 0 version (fun _ ↦ readOptional readString) := by
  have hothers : (others.map (·.name)).count "version" = 0 := by
    rw [List.count_eq_zero]
    intro hmem
    obtain ⟨field, hfield, hname⟩ := List.mem_map.mp hmem
    exact h.other_name field hfield hname
  refine ⟨by simp [h.name_eq], by simp [h.name_eq, hothers], ?_, ?_⟩
  · rintro field hfield hname depth source before record hstore
    obtain rfl | hother := List.mem_cons.mp hfield
    · exact h.read_eq depth source before record hstore
    · exact absurd hname (h.other_name field hother)
  · rintro field hfield hname depth source before record hstore
    obtain rfl | hother := List.mem_cons.mp hfield
    · exact absurd h.name_eq hname
    · exact h.other_eq field hother depth source before record hstore

/-- Assumes: a record without a version at the start. It comes to have the one declared. -/
theorem declares {name : String} {start record : σ} (hstart : version start = none) {depth : Nat}
    {source : Source} (hread : source.readRecord name (first :: others) start depth = .ok record) :
    source.Declares (version record) := by
  obtain ⟨hnone, hsame⟩ | ⟨field, hfield, hversion⟩ := h.decides.of_record hread
  · rw [hsame, hstart]
    exact .missing (source.versionField_eq.trans hnone)
  · exact declares_of_field (source.versionField_eq.trans hfield) hversion

end VersionFirst

end Source

/-! ### The two readers of a document -/

/-- The version that the header of a text has is declared there. -/
theorem declares_of_declaredVersion {text : String} {declared : Option String}
    (h : declaredVersion text = .ok declared) :
    (SourceText.ofString text).root.Declares declared := by
  let field : Source.Field (Option String) :=
    ⟨"version", fun _ s _ ↦ Source.readOptional Source.readString s, false⟩
  have hheader : Source.VersionFirst id field [] :=
    ⟨rfl, fun _ _ _ _ hstore ↦ hstore, nofun, nofun⟩
  exact hheader.declares rfl (SourceText.read_of_decode h)

namespace GraphDocument

theorem versionFirst_fields :
    ∃ first others, fields = first :: others ∧ Source.VersionFirst version first others := by
  refine ⟨_, _, rfl, rfl, ?_, ?_, ?_⟩
  · intro depth source before doc hstore
    obtain ⟨declared, hread, hdoc⟩ := Reading.bind_eq_ok_iff.mp hstore
    rw [hread, ← Except.ok.inj hdoc]
  · simp
  · intro field hfield depth source before doc hstore
    simp only [List.mem_cons, List.not_mem_nil, or_false] at hfield
    rcases hfield with rfl | rfl | rfl | rfl
    all_goals
      obtain ⟨_, -, hdoc⟩ := Reading.bind_eq_ok_iff.mp hstore
      rw [← Except.ok.inj hdoc]

/-- The version of a whole document is declared in its text. -/
theorem declares_version {text : String} {doc : GraphDocument} (h : ofText text = .ok doc) :
    (SourceText.ofString text).root.Declares doc.version := by
  obtain ⟨first, others, hfields, hfirst⟩ := versionFirst_fields
  have hread : (SourceText.ofString text).root.readRecord "GraphDocument" fields {}
      Source.depthLimit = .ok doc := SourceText.read_of_decode h
  rw [hfields] at hread
  exact hfirst.declares rfl hread

/-- Where both readers get through a text, they find the same version. -/
theorem version_eq_of_declaredVersion {text : String} {doc : GraphDocument}
    {declared : Option String} (hdoc : ofText text = .ok doc)
    (hheader : declaredVersion text = .ok declared) : doc.version = declared :=
  (declares_version hdoc).unique (declares_of_declaredVersion hheader)

end GraphDocument

end Blueprint

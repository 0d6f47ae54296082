import Blueprint.Decode.Blueprint
import Blueprint.Proofs.Decode.Declared
import Blueprint.Proofs.Graph.Wiring
import Mathlib

/-!
The version gate. A document reaches the interpreter exactly when it is text, its header reads, and
the version that counts for it, its own or else the one in its import settings, is written as a
version of the supported range. Every other document is refused and the world is as before
(`Decoder.gate_blueprint`).

What was let through was judged by its header, and is loaded by a reader of the whole document.
Both find the declared version, and a graph keeps the version of its document, so whatever is
decoded or dropped meanwhile, a graph at hand reports the version that was judged
(`Shelf.Vouched.after`). `Decoder.guarded` puts the two together.
-/

set_option autoImplicit false

namespace Blueprint

namespace Version

/-- The first part that differs is the smaller one, if any differs. -/
def Precedes (a b : Version) : Prop :=
  a.major < b.major ∨ a.major = b.major ∧
    (a.minor < b.minor ∨ a.minor = b.minor ∧ a.patch ≤ b.patch)

theorem le_iff {a b : Version} : a.le b = true ↔ a.Precedes b := by
  unfold le Precedes
  by_cases hmajor : a.major = b.major
  · by_cases hminor : a.minor = b.minor
    · simp [hmajor, hminor]
    · simp [hmajor, hminor]
  · simp [hmajor]

end Version

/-- A text writes a version between the ends of a range, both included. -/
def VersionRange.Holds (range : VersionRange) (written : String) : Prop :=
  ∃ version, Version.ofString? written = some version ∧
    range.min.Precedes version ∧ version.Precedes range.max

theorem VersionRange.holds_iff {range : VersionRange} {written : String} :
    range.Holds written ↔
      ∃ version, Version.ofString? written = some version ∧ range.contains version = true := by
  unfold Holds contains
  simp only [Bool.and_eq_true, Version.le_iff]

namespace Decoder

/-- A document is let through: it is a text with a readable header, and the version it declares, or
else the one of its settings, is supported. -/
structure Admits (supported : VersionRange) (d : Descriptor) (bytes : Bytes) (text : String)
    (declared : Option String) : Prop where
  text_eq : Text.ofUtf8 bytes = .ok text
  header_eq : declaredVersion text = .ok declared
  holds : ∃ written, declared.or d.settings.documentVersion = some written ∧
    supported.Holds written

/-- What decoding does in a world: it gives the text to the interpreter, or refuses it and leaves
all as it is. -/
inductive Gate (registry : Registry) (supported : VersionRange) (d : Descriptor) (bytes : Bytes)
    (world : World) : Except ResolveError GraphInstance × World → Prop
  | passed (text : String) (declared : Option String)
      (hadmits : Admits supported d bytes text declared)
      (hdeclares : (SourceText.ofString text).root.Declares declared) :
      Gate registry supported d bytes world (loadDocument registry d text world)
  | shut (error : ResolveError)
      (hadmits : ¬ ∃ text declared, Admits supported d bytes text declared) :
      Gate registry supported d bytes world (.error error, world)

/-- The check of a version passes for what is let through. -/
theorem checkVersion_ok_iff {supported : VersionRange} {d : Descriptor} {text : String} :
    (∃ version, checkVersion supported d text = .ok version) ↔
      ∃ declared written, declaredVersion text = .ok declared ∧
        declared.or d.settings.documentVersion = some written ∧ supported.Holds written := by
  simp only [VersionRange.holds_iff]
  unfold checkVersion
  constructor
  · rintro ⟨version, h⟩
    cases hheader : declaredVersion text with
    | error fault => simp only [hheader, reduceCtorEq] at h
    | ok declared =>
      cases hcounts : declared.or d.settings.documentVersion with
      | none => simp only [hheader, hcounts, reduceCtorEq] at h
      | some written =>
        cases hparse : Version.ofString? written with
        | none => simp only [hheader, hcounts, hparse, reduceCtorEq] at h
        | some found =>
          simp only [hheader, hcounts, hparse] at h
          split_ifs at h with hcontains
          exact ⟨declared, written, rfl, hcounts, found, hparse, hcontains⟩
  · rintro ⟨declared, written, hheader, hcounts, version, hparse, hcontains⟩
    exact ⟨version, by simp only [hheader, hcounts, hparse, hcontains, if_true]⟩

theorem gate_blueprint (registry : Registry) (supported : VersionRange) (d : Descriptor)
    (bytes : Bytes) (world : World) :
    Gate registry supported d bytes world (blueprint registry supported d bytes world) := by
  unfold blueprint
  cases htext : Text.ofUtf8 bytes with
  | error fault =>
    refine .shut _ ?_
    rintro ⟨text, declared, hadmits⟩
    cases htext.symm.trans hadmits.text_eq
  | ok text =>
    cases hcheck : checkVersion supported d text with
    | ok version =>
      obtain ⟨declared, written, hheader, hcounts⟩ := checkVersion_ok_iff.mp ⟨version, hcheck⟩
      simp only [hcheck]
      exact .passed text declared ⟨htext, hheader, written, hcounts⟩
        (declares_of_declaredVersion hheader)
    | error error =>
      simp only [hcheck]
      refine .shut error ?_
      rintro ⟨other, declared, hadmits⟩
      obtain rfl := Except.ok.inj (htext.symm.trans hadmits.text_eq)
      obtain ⟨written, hcounts, hholds⟩ := hadmits.holds
      obtain ⟨version, hpassed⟩ :=
        checkVersion_ok_iff.mpr ⟨declared, written, hadmits.header_eq, hcounts, hholds⟩
      cases hcheck.symm.trans hpassed

end Decoder

/-! ### Graphs at hand -/

/-- A document that is decoded, with its descriptor and the registry and versions it is decoded
with. -/
structure Decoding where
  registry : Registry
  supported : VersionRange
  descriptor : Descriptor
  bytes : Bytes

/-- A loaded graph that is at hand has its own handle; dropping it releases that. -/
inductive ShelfEvent where
  | decode (decoding : Decoding)
  | drop (handle : Nat)

/-- A world, and the decoded graphs that have not been dropped. -/
structure Shelf where
  world : World
  held : List (Decoding × GraphInstance) := []

namespace Shelf

/-- Takes what has been decoded. -/
def take (s : Shelf) (decoding : Decoding) : Except ResolveError GraphInstance × World → Shelf
  | (.ok g, world) => { world, held := (decoding, g) :: s.held }
  | (.error _, world) => { s with world }

def happen (s : Shelf) : ShelfEvent → Shelf
  | .decode decoding =>
    s.take decoding (Decoder.blueprint decoding.registry decoding.supported decoding.descriptor
      decoding.bytes s.world)
  | .drop handle =>
    { world := { s.world with interpreter := s.world.interpreter.release handle }
      held := s.held.filter fun entry ↦ entry.2.handle != handle }

def after (s : Shelf) (events : List ShelfEvent) : Shelf := events.foldl happen s

end Shelf

/-- A version that a graph may report: one that is supported, or none when the one of the settings
is supported. -/
def Decoding.Vouches (decoding : Decoding) : Option String → Prop
  | some written => decoding.supported.Holds written
  | none => ∃ written, decoding.descriptor.settings.documentVersion = some written ∧
      decoding.supported.Holds written

theorem Decoder.Admits.vouches {decoding : Decoding} {text : String} {declared : Option String}
    (h : Admits decoding.supported decoding.descriptor decoding.bytes text declared) :
    decoding.Vouches declared := by
  obtain ⟨written, hcounts, hholds⟩ := h.holds
  cases declared with
  | some own =>
    obtain rfl := Option.some.inj hcounts
    exact hholds
  | none => exact ⟨written, hcounts, hholds⟩

namespace Decoder

/-- A text that is given to the interpreter is refused there, or is loaded under the next handle,
with the version of its document. -/
theorem loadDocument_cases (registry : Registry) (d : Descriptor) (text : String) (world : World) :
    (∃ error, loadDocument registry d text world =
        (.error error, { world with loads := world.loads + 1 })) ∨
      ∃ doc graph g, GraphDocument.ofText text = .ok doc ∧ graph.version = doc.version ∧
        g.handle = world.interpreter.lastHandle + 1 ∧ loadDocument registry d text world =
          (.ok g, { world with
            loads := world.loads + 1
            interpreter := { world.interpreter with
              lastHandle := world.interpreter.lastHandle + 1
              graphs := world.interpreter.graphs.insert (world.interpreter.lastHandle + 1)
                graph } }) := by
  unfold loadDocument
  obtain ⟨error, hload⟩ | ⟨doc, graph, hdoc, hgraph, hload⟩ := Interpreter.load_cases registry text
  · exact Or.inl ⟨.engine error, by simp only [hload]⟩
  · simp only [hload]
    exact Or.inr ⟨doc, graph, _, hdoc, Graph.version_of_ofDocument hgraph, rfl, rfl⟩

end Decoder

namespace Shelf

variable {s : Shelf}

/-- Graphs at hand are loaded, with a version that is vouched for. -/
structure Vouched (s : Shelf) : Prop where
  handle_le : ∀ handle graph, s.world.interpreter.graphs.get? handle = some graph →
    handle ≤ s.world.interpreter.lastHandle
  held : ∀ decoding g, (decoding, g) ∈ s.held → ∃ graph,
    s.world.interpreter.graphs.get? g.handle = some graph ∧ decoding.Vouches graph.version

theorem Vouched.decode (h : s.Vouched) (decoding : Decoding) :
    (s.happen (.decode decoding)).Vouched := by
  have hgate := Decoder.gate_blueprint decoding.registry decoding.supported decoding.descriptor
    decoding.bytes s.world
  rw [happen]
  generalize Decoder.blueprint decoding.registry decoding.supported decoding.descriptor
    decoding.bytes s.world = result at hgate ⊢
  cases hgate with
  | shut error hadmits => exact ⟨h.handle_le, h.held⟩
  | passed text declared hadmits hdeclares =>
    obtain ⟨error, hload⟩ | ⟨doc, graph, g, hdoc, hversion, hhandle, hload⟩ :=
      Decoder.loadDocument_cases decoding.registry decoding.descriptor text s.world
    · rw [hload]
      exact ⟨h.handle_le, h.held⟩
    · rw [hload, take]
      -- The handle is fresh, so no graph at hand is written over.
      have hfresh {handle : Nat} (hle : handle ≤ s.world.interpreter.lastHandle) :
          s.world.interpreter.lastHandle + 1 ≠ handle := Nat.ne_of_gt (Nat.lt_succ_of_le hle)
      constructor
      case handle_le =>
        intro handle other hget
        dsimp only at hget ⊢
        rw [Table.get?_insert] at hget
        split_ifs at hget with hnew
        · exact Nat.le_of_eq hnew.symm
        · exact Nat.le_succ_of_le (h.handle_le handle other hget)
      case held =>
        intro other kept hmem
        obtain heq | hold := List.mem_cons.mp hmem
        · cases heq
          refine ⟨graph, by rw [hhandle, Table.get?_insert_self], ?_⟩
          rw [hversion, GraphDocument.version_eq_of_declaredVersion hdoc hadmits.header_eq]
          exact hadmits.vouches
        · obtain ⟨was, hwas, hvouches⟩ := h.held other kept hold
          refine ⟨was, ?_, hvouches⟩
          dsimp only
          rw [Table.get?_insert_of_ne _ (hfresh (h.handle_le kept.handle was hwas)), hwas]

theorem Vouched.drop (h : s.Vouched) (handle : Nat) : (s.happen (.drop handle)).Vouched := by
  constructor
  case handle_le =>
    intro other graph hget
    change (s.world.interpreter.graphs.erase handle).get? other = some graph at hget
    rw [Table.get?_erase] at hget
    split_ifs at hget
    exact h.handle_le other graph hget
  case held =>
    intro decoding g hmem
    obtain ⟨hold, hkept⟩ := List.mem_filter.mp hmem
    obtain ⟨graph, hgraph, hvouches⟩ := h.held decoding g hold
    refine ⟨graph, ?_, hvouches⟩
    change (s.world.interpreter.graphs.erase handle).get? g.handle = some graph
    have hne : handle ≠ g.handle := fun heq ↦ by simp [heq] at hkept
    rw [Table.get?_erase, if_neg hne, hgraph]

theorem Vouched.after (h : s.Vouched) (events : List ShelfEvent) : (s.after events).Vouched := by
  induction events generalizing s with
  | nil => exact h
  | cons event rest ih =>
    cases event with
    | decode decoding => exact ih (h.decode decoding)
    | drop handle => exact ih (h.drop handle)

/-- A shelf with nothing on it, before an interpreter with nothing loaded. -/
def fresh (world : World) : Shelf := { world := { world with interpreter := {} } }

theorem vouched_fresh (world : World) : (fresh world).Vouched where
  handle_le _ _ hget := by cases hget
  held _ _ hmem := by cases hmem

end Shelf

/-- The gate holds. A document whose version is not supported does not reach the interpreter and
changes nothing. The header of a document and the whole document, where both can be read, declare
one version, and graphs that were decoded report what was checked, whatever else was decoded or
dropped. -/
theorem Decoder.guarded :
    (∀ registry supported d bytes world,
        Gate registry supported d bytes world (blueprint registry supported d bytes world)) ∧
      (∀ text doc declared, GraphDocument.ofText text = .ok doc →
        declaredVersion text = .ok declared → doc.version = declared) ∧
      ∀ world events decoding g, (decoding, g) ∈ ((Shelf.fresh world).after events).held →
        decoding.Vouches
          (((Shelf.fresh world).after events).world.interpreter.version g.handle) := by
  refine ⟨gate_blueprint, fun text doc declared ↦ GraphDocument.version_eq_of_declaredVersion,
    fun world events decoding g hmem ↦ ?_⟩
  have hvouched := (Shelf.vouched_fresh world).after events
  obtain ⟨graph, hgraph, hvouches⟩ := hvouched.held decoding g hmem
  rw [Interpreter.version, hgraph]
  exact hvouches

/-- Three documents are decoded: one with a version of its own, one with that of its settings, and
one that is too new, which the interpreter does not see. -/
theorem Decoder.guarded_of_versions :
    let decoding (text : String) (version : Option String) : Decoding :=
      { registry := .standard
        supported := .standard
        descriptor :=
          { id := ⟨"gate", by decide⟩
            uri := "mem:gate"
            kind := .blueprint
            settings := .blueprint version }
        bytes := text.toUTF8.toList }
    let own := decoding "\x7b\"version\": \"v1.2-rc\", \"nodes\": []\x7d" (some "7")
    let settled := decoding "\x7b\"version\": null\x7d" (some "1.99.99")
    let late := decoding "[\"1.100\"]" (some "1.0")
    let shelf := (Shelf.fresh {}).after [.decode own, .decode settled, .decode late]
    (shelf.world.loads, shelf.held.map fun entry ↦
        shelf.world.interpreter.version entry.2.handle) = (2, [none, some "v1.2-rc"]) ∧
      (∀ g, (own, g) ∈ shelf.held →
        own.Vouches (shelf.world.interpreter.version g.handle)) ∧
      Gate .standard .standard late.descriptor late.bytes shelf.world
        (blueprint .standard .standard late.descriptor late.bytes shelf.world) :=
  ⟨by cbv, fun g ↦ guarded.2.2 {} _ _ g, guarded.1 ..⟩

end Blueprint

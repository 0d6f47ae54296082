import Blueprint.Decode.Basic

/-!
Decoding of blueprints. A document is loaded only after its header has been read: the version it
declares, or else the one in its import settings, has to lie in the range that is supported.
-/

set_option autoImplicit false

namespace Blueprint.Decoder

/-- The version that counts for a document, if it is one that is supported. -/
def checkVersion (supported : VersionRange) (d : Descriptor) (text : String) :
    Except ResolveError Version :=
  let refuse (found : String) : Except ResolveError Version :=
    .error (.unsupportedVersion d.id.text found supported)
  match declaredVersion text with
  | .error fault => .error (.decode d.id.text "blueprint" fault.message)
  | .ok declared =>
    match declared.or d.settings.documentVersion with
    | none => refuse "<none>"
    | some written =>
      match Version.ofString? written with
      | none => refuse written
      | some version => if supported.contains version then .ok version else refuse written

/-- Loads a document into the interpreter. -/
def loadDocument (registry : Registry) (d : Descriptor) (text : String) (world : World) :
    Except ResolveError GraphInstance × World :=
  let (outcome, interpreter) := world.interpreter.load registry text
  let world := { world with interpreter, loads := world.loads + 1 }
  match outcome with
  | .error e => (.error (.engine e), world)
  | .ok handle =>
    (.ok { id := d.id, handle, inputs := interpreter.inputs handle
           outputs := interpreter.outputs handle }, world)

/-- Makes a graph of a blueprint document. -/
def blueprint (registry : Registry) (supported : VersionRange) : Decoder GraphInstance :=
  fun d bytes world ↦
    match Text.ofUtf8 bytes with
    | .error fault => (.error (.decode d.id.text "blueprint" fault.message), world)
    | .ok text =>
      match checkVersion supported d text with
      | .error e => (.error e, world)
      | .ok _ => loadDocument registry d text world

end Blueprint.Decoder

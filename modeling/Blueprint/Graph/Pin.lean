import Blueprint.Asset
import Blueprint.Resource.Basic

/-!
Declared inputs and outputs of a graph, and the handle by which a loaded graph is held.
-/

set_option autoImplicit false

namespace Blueprint

/-- A declared input or output. -/
structure PinDecl where
  name : String
  kind : String := "any"
deriving DecidableEq, Repr

namespace PinDecl

def fields : List (Source.Field PinDecl) := [
  ⟨"name", fun _ s pin ↦ do return { pin with name := ← s.readString }, true⟩,
  ⟨"type", fun _ s pin ↦ do return { pin with kind := ← s.readString }, false⟩]

def read (depth : Nat) (source : Source) : Reading PinDecl :=
  source.readRecord "PinDecl" fields { name := "" } depth

def shown (pin : PinDecl) : String :=
  shownRecord "PinDecl" [("name", Text.quoted pin.name), ("kind", Text.quoted pin.kind)]

end PinDecl

/-- A loaded graph: the resource it came from, its handle in the interpreter, and its pins. -/
structure GraphInstance where
  id : ResourceId
  handle : Nat
  inputs : List PinDecl
  outputs : List PinDecl
deriving DecidableEq

def GraphInstance.shown (g : GraphInstance) : String :=
  shownRecord "GraphInstance" [("id", "ResourceId(" ++ Text.quoted g.id.text ++ ")"),
    ("handle", s!"GraphHandle({g.handle})"),
    ("outputs", "[" ++ String.intercalate ", " (g.outputs.map PinDecl.shown) ++ "]")]

end Blueprint

import Blueprint.Resource.Basic
import Blueprint.Table

/-!
Catalogs: descriptors in the order of their registration, and an index from ids to positions. The
first descriptor registered under an id stays; later ones are ignored.
-/

set_option autoImplicit false

namespace Blueprint

/-- An ordered set of descriptors. -/
structure Catalog where
  version : Version
  entries : List Descriptor := []
  index : Table String Nat := {}

namespace Catalog

/-- A catalog without entries. -/
def ofVersion (version : Version) : Catalog := { version }

instance : Inhabited Catalog := ⟨ofVersion ⟨1, 0, 0⟩⟩

def contains (c : Catalog) (id : String) : Bool := c.index.contains id

def get? (c : Catalog) (id : String) : Option Descriptor :=
  (c.index.get? id).bind fun position ↦ c.entries[position]?

def size (c : Catalog) : Nat := c.entries.length

def isEmpty (c : Catalog) : Bool := c.entries.isEmpty

/-- The ids in order. -/
def ids (c : Catalog) : List String := c.entries.map fun d ↦ d.id.text

/-- Adds a descriptor, and says whether its id was new. -/
def register (c : Catalog) (d : Descriptor) : Bool × Catalog :=
  if c.contains d.id.text then (false, c)
  else
    (true, { c with
      entries := c.entries ++ [d]
      index := c.index.insert d.id.text c.entries.length })

/-- Adds descriptors in order, and counts the new ones. -/
def registerAll (c : Catalog) : List Descriptor → Nat × Catalog
  | [] => (0, c)
  | d :: rest =>
    let (added, c) := c.register d
    let (count, c) := c.registerAll rest
    ((if added then 1 else 0) + count, c)

/-- Adds another catalog's descriptors; the version stays. -/
def merge (c other : Catalog) : Nat × Catalog := c.registerAll other.entries

end Catalog

end Blueprint

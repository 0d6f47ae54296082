import Blueprint.Json.Reading
import Blueprint.Text.Blank

/-!
Versions of catalogs and blueprint documents: one to three numbers between dots, an optional `v`
before them, and anything after a first `-` or `+`, which does not count. A range holds all
versions between its two ends.
-/

set_option autoImplicit false

namespace Blueprint

/-- A version; its parts are 64-bit words. -/
structure Version where
  major : UInt64
  minor : UInt64
  patch : UInt64
deriving DecidableEq, Repr, Inhabited

namespace Version

/-- The text between the dots, in order. -/
def pieces : List Char → List (List Char)
  | [] => [[]]
  | c :: rest =>
    if c == '.' then [] :: pieces rest
    else match pieces rest with
      | [] => [[c]]
      | piece :: more => (c :: piece) :: more

/-- The number that digits write. -/
def digitsValue (digits : List Char) : Nat :=
  digits.foldl (fun n c ↦ 10 * n + (c.toNat - 48)) 0

/-- One part: digits alone, at least one, below 2 ^ 64. -/
def component? (piece : List Char) : Option UInt64 :=
  if !piece.isEmpty && piece.all Char.isDigit && digitsValue piece < UInt64.size then
    some (UInt64.ofNat (digitsValue piece))
  else none

/-- The version of some pieces, missing parts being zero. -/
def ofPieces? : List (List Char) → Option Version
  | [major] => do return ⟨← component? major, 0, 0⟩
  | [major, minor] => do return ⟨← component? major, ← component? minor, 0⟩
  | [major, minor, patch] => do
    return ⟨← component? major, ← component? minor, ← component? patch⟩
  | _ => none

/-- The text without one leading `v`. -/
def stripMark : List Char → List Char
  | 'v' :: rest => rest
  | text => text

def endsCore (c : Char) : Bool := c == '-' || c == '+'

/-- Reads a version. -/
def ofChars? (text : List Char) : Option Version :=
  ofPieces? (pieces ((stripMark (Text.trimBlank text)).takeWhile fun c ↦ !endsCore c))

def ofString? (text : String) : Option Version := ofChars? text.toList

/-- Reads a version, or answers the text that is none. -/
def parse (text : String) : Except String Version :=
  match ofString? text with
  | some version => .ok version
  | none => .error text

/-- The three parts between dots. -/
def render (v : Version) : String :=
  toString v.major.toNat ++ "." ++ toString v.minor.toNat ++ "." ++ toString v.patch.toNat

/-- The order of versions: the first part that differs decides. -/
def le (a b : Version) : Bool :=
  if a.major ≠ b.major then a.major < b.major
  else if a.minor ≠ b.minor then a.minor < b.minor
  else a.patch ≤ b.patch

/-- Reads a version written as a JSON string. -/
def read (source : Source) : Reading Version := do
  match parse (← source.readString) with
  | .ok version => .ok version
  | .error text => .error (.shape s!"invalid version {Text.quoted text}")

end Version

/-- The versions from `min` to `max`. -/
structure VersionRange where
  min : Version
  max : Version
deriving DecidableEq, Repr

namespace VersionRange

instance : Inhabited VersionRange := ⟨⟨⟨1, 0, 0⟩, ⟨1, 99, 99⟩⟩⟩

/-- What is supported unless said otherwise: all of version 1. -/
def standard : VersionRange := ⟨⟨1, 0, 0⟩, ⟨1, 99, 99⟩⟩

def contains (range : VersionRange) (version : Version) : Bool :=
  range.min.le version && version.le range.max

/-- The fields of a written range. -/
def fields : List (Source.Field VersionRange) := [
  ⟨"min", fun _ source range ↦ do return { range with min := ← Version.read source }, true⟩,
  ⟨"max", fun _ source range ↦ do return { range with max := ← Version.read source }, true⟩]

def read (depth : Nat) (source : Source) : Reading VersionRange :=
  source.readRecord "VersionRange" fields standard depth

end VersionRange

end Blueprint

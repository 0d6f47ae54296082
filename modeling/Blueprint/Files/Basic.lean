import Blueprint.Asset
import Blueprint.Files.Path
import Blueprint.Table

/-!
A tree of files. Directories and files stand at places, a place being the names that lead to it from
the top; a path is walked to its place segment by segment, and every segment needs a directory to
stand in.
-/

set_option autoImplicit false

namespace Blueprint

/-- Why a file operation fails. -/
inductive FileError where
  | notFound
  | alreadyExists
  | notDirectory
  | isDirectory
  | nameTooLong
  /-- The path holds a NUL character. -/
  | nulByte
  /-- The content is no UTF-8 text. -/
  | notText
deriving DecidableEq

def FileError.message : FileError → String
  | .notFound => "No such file or directory (os error 2)"
  | .alreadyExists => "File exists (os error 17)"
  | .notDirectory => "Not a directory (os error 20)"
  | .isDirectory => "Is a directory (os error 21)"
  | .nameTooLong => "File name too long (os error 36)"
  | .nulByte => "file name contained an unexpected NUL byte"
  | .notText => "stream did not contain valid UTF-8"

/-- A place in the tree: names from the inside out, none for the top. -/
abbrev Place := List String

inductive FileEntry where
  | file (content : Bytes)
  | directory
deriving DecidableEq

structure Files where
  entries : Table Place FileEntry := {}
  /-- Where relative paths start. -/
  here : Place := []
  /-- The most bytes a name may have. -/
  longestName : Option Nat := some 255
  /-- The most bytes a path may have. -/
  longestPath : Option Nat := some 4095

namespace Files

instance : Inhabited Files := ⟨{}⟩

/-- What stands at a place; the top is always a directory. -/
def entry? (f : Files) : Place → Option FileEntry
  | [] => some .directory
  | place => f.entries.get? place

/-- Whether a text has more bytes than are allowed. -/
def exceeds (limit : Option Nat) (text : String) : Bool :=
  match limit with
  | some most => most < text.utf8ByteSize
  | none => false

/-- Walks segments from a place. The place reached need not hold anything. -/
def walk (f : Files) : Place → List String → Except FileError Place
  | place, [] => .ok place
  | place, segment :: rest =>
    match f.entry? place with
    | none => .error .notFound
    | some (.file _) => .error .notDirectory
    | some .directory =>
      if segment = "" ∨ segment = "." then f.walk place rest
      else if segment = ".." then f.walk place.tail rest
      else if exceeds f.longestName segment then .error .nameTooLong
      else f.walk (segment :: place) rest

/-- The place of a path. -/
def locate (f : Files) (p : Path) : Except FileError Place :=
  if p.segments.any (·.contains (Char.ofNat 0)) then .error .nulByte
  else if exceeds f.longestPath p.render then .error .nameTooLong
  else if p.isBlank then .error .notFound
  else f.walk (if p.absolute then [] else f.here) p.segments

/-- What stands at a path. -/
def lookup (f : Files) (p : Path) : Except FileError FileEntry := do
  let place ← f.locate p
  match f.entry? place with
  | some entry => .ok entry
  | none => .error .notFound

def holds (f : Files) (p : Path) : Bool :=
  match f.lookup p with
  | .ok _ => true
  | .error _ => false

def isDirectory (f : Files) (p : Path) : Bool :=
  match f.lookup p with
  | .ok .directory => true
  | _ => false

/-- The content of a file. -/
def read (f : Files) (p : Path) : Except FileError Bytes := do
  match ← f.lookup p with
  | .file content => .ok content
  | .directory => .error .isDirectory

/-- The content of a file that is text. -/
def readText (f : Files) (p : Path) : Except FileError String := do
  let content ← f.read p
  match String.fromUTF8? ⟨content.toArray⟩ with
  | some text => .ok text
  | none => .error .notText

/-- Puts an entry at a place. -/
def put (f : Files) (place : Place) (entry : FileEntry) : Files :=
  { f with entries := f.entries.insert place entry }

/-- Removes what stands at a place. -/
def drop (f : Files) (place : Place) : Files :=
  { f with entries := f.entries.erase place }

/-- The place of a path at which something can stand: the directory around it is there. -/
def locateNew (f : Files) (p : Path) : Except FileError Place := do
  let place ← f.locate p
  match f.entry? place.tail with
  | some .directory => .ok place
  | some (.file _) => .error .notDirectory
  | none => .error .notFound

/-- Writes a file, in place of an earlier one. -/
def write (f : Files) (p : Path) (content : Bytes) : Except FileError Files := do
  let place ← f.locateNew p
  match f.entry? place with
  | some .directory => .error .isDirectory
  | _ => .ok (f.put place (.file content))

def makeDirectory (f : Files) (p : Path) : Except FileError Files := do
  let place ← f.locateNew p
  match f.entry? place with
  | some _ => .error .alreadyExists
  | none => .ok (f.put place .directory)

/-- Makes a directory unless it is there. -/
def ensureDirectory (f : Files) (p : Path) : Except FileError Unit × Files :=
  match f.makeDirectory p with
  | .ok made => (.ok (), made)
  | .error e => (if f.isDirectory p then .ok () else .error e, f)

/-- Makes the directories around a path as far as they are missing, then its own, in as many rounds
as the path has segments. What was made stays when a later one fails. -/
def ensureAround (f : Files) : Nat → Path → Except FileError Unit × Files
  | 0, p => f.ensureDirectory p
  | rounds + 1, p =>
    if p.isBlank then (.ok (), f)
    else
      match f.makeDirectory p, p.parent? with
      | .error .notFound, some outer =>
        match f.ensureAround rounds outer with
        | (.ok (), made) => made.ensureDirectory p
        | (.error e, made) => (.error e, made)
      | _, _ => f.ensureDirectory p

/-- Makes a directory and those around it. -/
def makeDirectories (f : Files) (p : Path) : Except FileError Unit × Files :=
  f.ensureAround (p.segments.length + 1) p

/-- Moves a file over whatever file stands at the target. -/
def rename (f : Files) (source target : Path) : Except FileError Files := do
  let sourcePlace ← f.locate source
  let targetPlace ← f.locateNew target
  match f.entry? sourcePlace, f.entry? targetPlace with
  | none, _ => .error .notFound
  | some (.file _), some .directory => .error .isDirectory
  | some entry, _ => .ok ((f.drop sourcePlace).put targetPlace entry)

/-- Removes a file. -/
def remove (f : Files) (p : Path) : Except FileError Files := do
  let place ← f.locate p
  match f.entry? place with
  | some (.file _) => .ok (f.drop place)
  | some .directory => .error .isDirectory
  | none => .error .notFound

/-- Puts a file or a directory at a place, and directories around it. -/
def plant (f : Files) : Place → FileEntry → Files
  | [], _ => f
  | name :: outer, entry =>
    let f := if (f.entry? outer).isSome then f else plant f outer .directory
    f.put (name :: outer) entry

/-- The place that a path names where all its segments but the last are directories. -/
def placeOf (start : Place) (p : Path) : Place :=
  p.segments.foldl
    (fun place segment ↦
      if segment = "" ∨ segment = "." then place
      else if segment = ".." then place.tail
      else segment :: place)
    (if p.absolute then [] else start)

/-- The files below a place, with their names from there. -/
def filesBelow (f : Files) (place : Place) : List (List String × Bytes) :=
  f.entries.entries.filterMap fun (at_, entry) ↦
    match entry with
    | .file content =>
      if place.isSuffixOf at_ then some ((at_.take (at_.length - place.length)).reverse, content)
      else none
    | .directory => none

end Files

end Blueprint

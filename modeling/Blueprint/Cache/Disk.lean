import Blueprint.Cache.Basic
import Blueprint.Scope.Basic

/-!
The cache on disk. The entry of a hash is the file `<first two characters>/<hash>` below a root, so
only hashes of letters, digits, `-` and `_` are accepted. An entry is written beside its place and
moved there, so that no reader finds half of one.
-/

set_option autoImplicit false

namespace Blueprint.Cache

/-- A hash that is fit for a file name. -/
def isFileHash (hash : String) : Bool :=
  hash ≠ "" && hash.toList.all fun c ↦ c.isAlphanum || c == '-' || c == '_'

/-- The directory of a hash's entry. -/
def shard (hash : String) : String := String.ofList (hash.toList.take 2)

def entryPath (root : Path) (hash : String) : Path := (root.child (shard hash)).child hash

/-- The path beside an entry at which it is written first. -/
def temporaryPath (root : Path) (hash : String) (number : Nat) : Path :=
  (root.child (shard hash)).child s!"{hash}.tmp-{runName number}"

/-- Does some work while the lock of a hash is held, if the hash is accepted. -/
def locked {α : Type} (hash : String) (world : World)
    (work : World → CacheReply α × World) : CacheReply α × World :=
  if isFileHash hash then
    let (ticket, locks) := world.locks.enter hash
    let (reply, world) := work { world with locks := locks.acquire ticket }
    (reply, { world with locks := world.locks.leave ticket })
  else (.error (.invalidHash hash), world)

def readEntry (root : Path) (hash : String) (world : World) : CacheReply (Option Bytes) :=
  match world.files.read (entryPath root hash) with
  | .ok content => .ok (some content)
  | .error .notFound => .ok none
  | .error _ => .error (.read (entryPath root hash))

/-- Writes an entry into a tree; a temporary file that cannot be moved is removed again. -/
def writeEntry (root : Path) (hash : String) (content : Bytes) (number : Nat) (files : Files) :
    CacheReply Unit × Files :=
  let shard := root.child (shard hash)
  let entry := entryPath root hash
  let temporary := temporaryPath root hash number
  match files.makeDirectories shard with
  | (.error _, files) => (.error (.makeDirectory shard), files)
  | (.ok (), files) =>
    match files.write temporary content with
    | .error _ => (.error (.write temporary), files)
    | .ok files =>
      match files.rename temporary entry with
      | .ok files => (.ok (), files)
      | .error _ =>
        match files.remove temporary with
        | .ok files => (.error (.commit entry), files)
        | .error _ => (.error (.commit entry), files)

def removeEntry (root : Path) (hash : String) (files : Files) : CacheReply Unit × Files :=
  match files.remove (entryPath root hash) with
  | .ok files => (.ok (), files)
  | .error .notFound => (.ok (), files)
  | .error _ => (.error (.remove (entryPath root hash)), files)

/-- The cache below a root. Whether it has an entry is whether its path holds anything. -/
def disk (root : Path) : Cache where
  get hash world := locked hash world fun world ↦ (readEntry root hash world, world)
  put hash content world := locked hash world fun world ↦
    let (reply, files) := writeEntry root hash content world.temporaries world.files
    (reply, { world with files, temporaries := world.temporaries + 1 })
  remove hash world := locked hash world fun world ↦
    let (reply, files) := removeEntry root hash world.files
    (reply, { world with files })
  contains hash world :=
    if isFileHash hash then (.ok (world.files.holds (entryPath root hash)), world)
    else (.error (.invalidHash hash), world)

end Blueprint.Cache

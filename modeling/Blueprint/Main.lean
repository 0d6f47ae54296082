import Blueprint.CommandLine.Reads

/-!
The program. It takes into a tree what the command may read, has the command performed, and writes
what it left.
-/

set_option autoImplicit false

open Blueprint

namespace Blueprint.Program

/-- The error code of a system that is asked to read a directory as a file. -/
def isDirectoryCode : UInt32 := 21

/-- What stands at a path of the machine, if anything does. -/
def entryAt (path : Path) : IO (Option FileEntry) := do
  try return some (.file (← IO.FS.readBinFile path.render).toList)
  catch e =>
    match e with
    | .inappropriateType _ code _ =>
      return if code = isDirectoryCode then some .directory else none
    | _ => return none

/-- Takes in what stands at a path, and at the paths that lead there. -/
def takePath (files : Files) (path : Path) : IO Files := do
  let mut files := files
  for count in List.range path.segments.length do
    let part := { path with segments := path.segments.take (count + 1) }
    if let some entry ← entryAt part then
      files := files.plant (Files.placeOf files.here part) entry
  return files

/-- Takes in what a command may read: what names files, and then the files that it names. -/
def takeAll (around : Surroundings) (command : Command) (files : Files) : IO Files := do
  let mut files := files
  for _ in [(), (), ()] do
    for path in command.reads around files do
      files ← takePath files path
  return files

/-- Writes what is new or has changed. -/
def writeChanges (before after : Files) : IO Unit := do
  for (place, entry) in after.entries.entries do
    if before.entry? place ≠ some entry then
      let name (place : Place) : String := "/" ++ String.intercalate "/" place.reverse
      match entry with
      | .directory => IO.FS.createDirAll (name place)
      | .file content =>
        IO.FS.createDirAll (name place.tail)
        IO.FS.writeBinFile (name place) ⟨content.toArray⟩

/-- The root of a cache on disk that is usual on this machine. -/
def usualCacheRoot : IO Path := do
  let given := ((← IO.getEnv "XDG_CACHE_HOME").map Path.ofString).filter (·.absolute)
  let home := (← IO.getEnv "HOME").map fun home ↦ (Path.ofString home).child ".cache"
  return match given.or home with
    | some directory => directory.child "skein"
    | none => .ofString ".skein-cache"

/-- How many moves a run may take. -/
def patience : Nat := 1000000000

end Blueprint.Program

def main (words : List String) : IO UInt32 := do
  let around : Surroundings := { cacheRoot := ← Program.usualCacheRoot }
  let start : Files := { here := Files.placeOf [] (.ofString (toString (← IO.currentDir))) }
  let start := start.plant start.here .directory
  let files ← match Command.ofArguments words with
    | .ok command => Program.takeAll around command start
    | .error _ => pure start
  match Command.answer around Program.patience files words with
  | none => return 1
  | some done =>
    Program.writeChanges files done.files
    IO.print done.out
    IO.eprint done.err
    return UInt32.ofNat done.code

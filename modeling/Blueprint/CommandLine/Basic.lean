import Blueprint.CommandLine.Arguments
import Blueprint.Config.Document
import Blueprint.Provider.Configured
import Blueprint.Run.Execution

/-!
What commands do: the text that they print, the code that they end with, and the files that they
leave. A failure is told with its causes and ends with code 1; a run that fails tells so in its
report.
-/

set_option autoImplicit false

namespace Blueprint

/-- How a command ends. -/
structure CommandEnd where
  code : Nat := 0
  out : String := ""
  err : String := ""
  files : Files

namespace CommandEnd

def fail (files : Files) (failure : Failure) : CommandEnd :=
  { code := 1, err := s!"Error: {failure.report}\n", files }

/-- The end of a command whose work may have failed. -/
def ofExcept (files : Files) : Except Failure CommandEnd → CommandEnd
  | .ok done => done
  | .error failure => fail files failure

end CommandEnd

namespace Setup

/-- The engine of a library; none can be opened here. -/
def openLibrary (path : Path) : Except Failure Unit :=
  let reason :=
    s!"{path.render}: cannot open shared object file: No such file or directory"
  .error
    { message := s!"Failed to open {path.render}"
      causes := [(EngineError.library reason).message, reason] }

/-- The configuration, with the catalogs of the command line behind its own. -/
def configuration (s : Setup) (files : Files) : Except ConfigError Config := do
  let config ← match s.config with
    | some path => Config.load files path
    | none => .ok {}
  return { config with catalogs := config.catalogs ++ s.catalogs }

/-- Sets a provider up. -/
def provider (s : Setup) (around : Surroundings) (files : Files) :
    Except Failure (Config × Provider) := do
  let config ← (s.configuration files).mapError ConfigError.failure
  if let some path := s.library then openLibrary path
  let p ← (Provider.ofConfig config .standard around files).mapError ConfigError.failure
  return (config, p)

end Setup

namespace Command

/-- An input of the root graph: a name and a value, which is JSON or else a string. -/
def inputOf (word : String) : Except Failure (String × Value) :=
  let name := word.toList.takeWhile (· ≠ '=')
  match word.toList.drop name.length with
  | [] => .error { message := s!"Input '{word}' is not NAME=VALUE" }
  | _ :: text =>
    let text := String.ofList text
    .ok (String.ofList name, match Json.ofString? text with
      | some json => .ofJson json
      | none => .string text)

/-- What is told of a run. -/
def reportOf (result : RunResult) : Json :=
  .ofMembers [
    ("success", .bool result.success),
    ("instance_id", .string (runName result.run)),
    ("outputs", result.outputsJson),
    ("failed_branches", .ofInt result.failedBranches),
    ("error", (result.error.map Json.string).getD .null)]

/-- A text with blanks behind it up to a width. -/
def padded (width : Nat) (text : String) : String := text ++ Failure.padding width text.length

/-- A line of a list of resources. -/
def resourceLine (d : Descriptor) : String :=
  let columns := [padded 24 d.id.text, padded 10 d.kind.tag, padded 12 (d.hash.getD "-"), d.uri]
  String.intercalate " " columns ++ "\n"

def listing (c : Catalog) : String :=
  s!"catalog {c.version.render} ({c.size} resources)\n" ++
    String.join (c.entries.map resourceLine)

/-- Lists a catalog. -/
def list (file : Path) (files : Files) : Except Failure CommandEnd :=
  match Catalog.ofFile files file with
  | .ok c => .ok { out := listing c, files }
  | .error e => .error (ConfigError.catalog file e).failure

/-- Fetches all resources. -/
def fetchAll (setup : Setup) (around : Surroundings) (files : Files) :
    Except Failure CommandEnd := do
  let (_, p) ← setup.provider around files
  let (failures, world) := p.preloadAll { files }
  if failures.isEmpty then return { files := world.files }
  return .fail world.files
    { message := s!"{failures.length} of {p.ids.length} resources failed to preload" }

/-- Runs a blueprint; none if it does not end within some steps. -/
def execute (root : String) (setup : Setup) (words : List String) (around : Surroundings)
    (steps : Nat) (files : Files) : Except Failure (Option CommandEnd) := do
  let (config, provider) ← setup.provider around files
  let inputs ← words.mapM inputOf
  let m : Machine := { provider, world := { files } }
  match m.execute steps { inputs := .ofList inputs } root config.executionDeadline with
  | (.error _, _) => return none
  | (.ok result, m) =>
    return some
      { code := if result.success then 0 else 1
        out := (reportOf result).indented ++ "\n"
        files := m.world.files }

/-- Does what a command asks for; none if that does not end within some steps. -/
def perform (around : Surroundings) (steps : Nat) (files : Files) : Command → Option CommandEnd
  | .catalog file => some (.ofExcept files (list file files))
  | .preload setup => some (.ofExcept files (fetchAll setup around files))
  | .run root setup words =>
    match execute root setup words around steps files with
    | .ok done => done
    | .error failure => some (.fail files failure)

/-- What the program says of itself. -/
def about : String := "skein 0.1.0\n"

def usage : String :=
  "Usage: skein <COMMAND>\n\nCommands:\n" ++
  "  run      Execute a blueprint and print its outputs as JSON\n" ++
  "  preload  Download every catalogued resource into the cache\n" ++
  "  catalog  Validate a catalog file and list its resources\n"

/-- Answers a command line. -/
def answer (around : Surroundings) (steps : Nat) (files : Files) (words : List String) :
    Option CommandEnd :=
  match ofArguments words with
  | .ok command => command.perform around steps files
  | .error .help => some { out := usage, files }
  | .error .version => some { out := about, files }
  | .error .misuse => some { code := 2, err := usage, files }

end Command

end Blueprint

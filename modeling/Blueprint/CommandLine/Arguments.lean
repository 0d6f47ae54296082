import Blueprint.Files.Path

/-!
Command lines. A command takes options, each with a value behind it or attached to it, and operands;
`Command.ofArguments` reads the words of a command line, or tells why nothing is to be done.
-/

set_option autoImplicit false

namespace Blueprint

/-- Why a command line is no command. -/
inductive Halt where
  | help
  | version
  | misuse
deriving DecidableEq

/-- An option with a value. -/
structure OptionForm where
  /-- The name, with two dashes before it, or the letter, with one. -/
  name : String
  repeats : Bool := false
  /-- The value may not be blank. -/
  isPath : Bool := true

/-- What a command takes. -/
structure CommandForm where
  options : List OptionForm
  operands : Nat := 0

/-- What a command line gives. -/
structure Given where
  /-- The values of options, latest first. -/
  values : List (String × String) := []
  operands : List String := []

namespace Given

def has (g : Given) (name : String) : Bool := g.values.any (·.1 == name)

/-- The values of an option, in order. -/
def all (g : Given) (name : String) : List String :=
  (g.values.reverse.filter (·.1 == name)).map (·.2)

/-- The value of an option that does not repeat. -/
def one? (g : Given) (name : String) : Option String := (g.all name).head?

def path? (g : Given) (name : String) : Option Path := (g.one? name).map Path.ofString

/-- Takes a value of an option. -/
def take (g : Given) (o : OptionForm) (value : String) : Except Halt Given :=
  if (o.isPath && value == "") || (!o.repeats && g.has o.name) then .error .misuse
  else .ok { g with values := (o.name, value) :: g.values }

/-- Takes operands, of which there may be so many; an operand is a path. -/
def takeOperands (g : Given) (limit : Nat) (operands : List String) : Except Halt Given :=
  let all := g.operands ++ operands
  if limit < all.length || operands.contains "" then .error .misuse
  else .ok { g with operands := all }

end Given

/-- What one word of a command line is. -/
inductive Word where
  | operand
  /-- Only operands follow. -/
  | separator
  | help
  /-- An option whose value is attached. -/
  | attached (o : OptionForm) (value : String)
  /-- An option whose value follows. -/
  | wanting (o : OptionForm)
  | unknown

/-- Words that can be values and operands. -/
def isPlainWord (word : String) : Bool := !word.startsWith "-" || word == "-"

namespace CommandForm

def option? (form : CommandForm) (name : String) : Option OptionForm :=
  form.options.find? fun o ↦ o.name == name

/-- Tells what a word is. A value is attached to a name behind an equals sign, and to a letter
with or without one. -/
def wordOf (form : CommandForm) (word : String) : Word :=
  match word.toList with
  | ['-', '-'] => .separator
  | '-' :: '-' :: text =>
    let name := text.takeWhile (· ≠ '=')
    match form.option? (String.ofList ('-' :: '-' :: name)), text.drop name.length with
    | some o, _ :: value => .attached o (String.ofList value)
    | some o, [] => .wanting o
    | none, _ => if word == "--help" then .help else .unknown
  | '-' :: letter :: text =>
    match form.option? (String.ofList ['-', letter]), text with
    | some o, [] => .wanting o
    | some o, '=' :: value => .attached o (String.ofList value)
    | some o, value => .attached o (String.ofList value)
    | none, _ => if letter == 'h' then .help else .unknown
  | _ => .operand

/-- Reads the words behind a command's name. -/
def read (form : CommandForm) : List String → Given → Except Halt Given
  | [], g => .ok g
  | word :: rest, g =>
    match form.wordOf word with
    | .operand => (g.takeOperands form.operands [word]).bind (form.read rest)
    | .separator => g.takeOperands form.operands rest
    | .help => .error .help
    | .unknown => .error .misuse
    | .attached o value => (g.take o value).bind (form.read rest)
    | .wanting o =>
      match rest with
      | [] => .error .misuse
      | value :: rest =>
        if isPlainWord value then (g.take o value).bind (form.read rest) else .error .misuse

end CommandForm

/-- What a provider is set up from. -/
structure Setup where
  config : Option Path := none
  /-- Catalogs to register after those of the configuration. -/
  catalogs : List Path := []
  /-- A foreign library to use as the engine. -/
  library : Option Path := none

inductive Command where
  /-- Runs a blueprint and tells its outputs. -/
  | run (root : String) (setup : Setup) (inputs : List String)
  /-- Fetches every resource of the catalogs into the cache. -/
  | preload (setup : Setup)
  /-- Lists the resources of a catalog. -/
  | catalog (file : Path)

namespace Command

def names : List String := ["run", "preload", "catalog"]

def setupOptions : List OptionForm :=
  [{ name := "--config" }, { name := "--catalog", repeats := true }, { name := "--native" }]

def setupOf (g : Given) : Setup :=
  { config := g.path? "--config"
    catalogs := (g.all "--catalog").map Path.ofString
    library := g.path? "--native" }

def runForm : CommandForm where
  options := [{ name := "--root", isPath := false },
    { name := "-D", repeats := true, isPath := false }] ++ setupOptions

def preloadForm : CommandForm where
  options := setupOptions

def catalogForm : CommandForm where
  options := []
  operands := 1

/-- Reads the words of a command line. -/
def ofArguments : List String → Except Halt Command
  | [] => .error .misuse
  | "run" :: words => do
    let g ← runForm.read words {}
    match g.one? "--root" with
    | some root => return .run root (setupOf g) (g.all "-D")
    | none => throw .misuse
  | "preload" :: words => return .preload (setupOf (← preloadForm.read words {}))
  | "catalog" :: words => do
    match (← catalogForm.read words {}).operands with
    | [file] => return .catalog (.ofString file)
    | _ => throw .misuse
  | ["help"] => .error .help
  | ["help", name] => .error (if ("help" :: names).contains name then .help else .misuse)
  | word :: _ =>
    if word == "--version" || word.startsWith "-V" then .error .version
    else if word == "--help" || word.startsWith "-h" then .error .help
    else .error .misuse

end Command

end Blueprint

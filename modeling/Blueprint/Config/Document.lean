import Blueprint.Config.Basic
import Blueprint.Yaml.Node

/-!
Configurations as YAML documents. A group of settings is a mapping by name or a sequence in order of
declaration; what is left out has its default, and names that are unknown do not count. A catalog's
relative path starts where the configuration's file is.
-/

set_option autoImplicit false

namespace Blueprint

namespace Yaml.Document

/-- What a scalar says. -/
def text? (d : Document) (n : Node) : Option String :=
  match d.deref n with
  | .scalar _ _ text => some text
  | _ => none

def isNullText (text : String) : Bool := text ∈ ["null", "Null", "NULL", "~"]

/-- A number of 64 bits, in base 10 or behind `0x`, `0o` and `0b`. -/
def wordOf? (text : String) : Option Nat :=
  let read (base : Nat) (digits : List Char) : Option Nat :=
    let n := Text.numberOf base digits
    let allowed (c : Char) : Bool := (Text.hexValue? c).any (· < base)
    if !digits.isEmpty && digits.all allowed && n < UInt64.size then
      some n
    else none
  let digits := match text.toList with
    | '+' :: digits => digits
    | digits => digits
  match digits with
  | '0' :: 'x' :: digits => read 16 digits
  | '0' :: 'o' :: digits => read 8 digits
  | '0' :: 'b' :: digits => read 2 digits
  | '0' :: _ :: _ => none
  | digits => read 10 digits

/-- The number that a plain scalar writes. -/
def word? (d : Document) (n : Node) : Option Nat :=
  match d.deref n with
  | .scalar true _ text => wordOf? text
  | _ => none

/-- What a node says that may be left open, by nothing or by a word for nothing. -/
def optional? {α : Type} (d : Document) (read : Node → Option α) (n : Node) : Option (Option α) :=
  let given : Option (Option α) := (read n).map some
  match d.deref n with
  | .scalar true none text => if text == "" || isNullText text then some none else given
  | .scalar true (some "tag:yaml.org,2002:null") text => if isNullText text then some none else none
  | _ => given

/-- Whether nothing is written for a node. -/
def isBlank : Node → Bool
  | .scalar true _ "" => true
  | _ => false

def items? (d : Document) (n : Node) : Option (List Node) :=
  match d.deref n with
  | .sequence _ items => some items
  | n => if isBlank n then some [] else none

/-- The fields of these names that are given, each at most once. -/
def fields? (d : Document) (names : List String) (n : Node) : Option (List (String × Node)) :=
  match d.deref n with
  | .mapping _ entries => do
    let entries ← entries.mapM fun (key, value) ↦ do return (← d.text? key, value)
    let known := entries.filter fun (name, _) ↦ names.contains name
    if (known.map (·.1)).Nodup then some known else none
  | .sequence _ items => if items.length ≤ names.length then some (names.zip items) else none
  | n => if isBlank n then some [] else none

/-- The name that a scalar chooses, by its text or by a tag in front of nothing. -/
def choice? (d : Document) (n : Node) : Option String :=
  match d.deref n with
  | .scalar _ none text => some text
  | .scalar true (some tag) text =>
    if text == "" || isNullText text then
      some (String.ofList (match tag.toList with | '!' :: name => name | name => name))
    else none
  | _ => none

end Yaml.Document

namespace Config

open Yaml (Document Node)

/-- Reads a field if it is given. -/
def field {α : Type} (fields : List (String × Node)) (name : String) (default : α)
    (read : Node → Option α) : Option α :=
  match fields.lookup name with
  | some n => read n
  | none => some default

def cacheOf? (d : Document) (n : Node) : Option CacheSettings := do
  let fields ← d.fields? ["kind", "path", "url", "prefix"] n
  return {
    kind := ← field fields "kind" .memory fun n ↦ (d.choice? n).bind CacheKind.ofName?
    path := (← field fields "path" none (d.optional? d.text?)).map Path.ofString
    url := ← field fields "url" none (d.optional? d.text?)
    keyStart := ← field fields "prefix" "skein:blob" d.text? }

def downloadOf? (d : Document) (n : Node) : Option DownloadSettings := do
  let fields ← d.fields? ["timeout_secs", "user_agent", "file_root"] n
  return {
    timeoutSeconds := ← field fields "timeout_secs" none (d.optional? d.word?)
    userAgent := ← field fields "user_agent" none (d.optional? d.text?)
    fileRoot := (← field fields "file_root" none (d.optional? d.text?)).map Path.ofString }

/-- Both ends of a range have to be given. -/
def rangeOf? (d : Document) (n : Node) : Option VersionRange := do
  let fields ← d.fields? ["min", "max"] n
  let version (name : String) : Option Version := do
    Version.ofString? (← d.text? (← fields.lookup name))
  return { min := ← version "min", max := ← version "max" }

def ofDocument? (d : Document) : Option Config := do
  let fields ← d.fields? ["catalogs", "cache", "download", "versions", "resolve_timeout_secs",
    "execution_timeout_secs"] d.root
  return {
    catalogs := (← field fields "catalogs" [] fun n ↦ do (← d.items? n).mapM d.text?).map
      Path.ofString
    cache := ← field fields "cache" {} (cacheOf? d)
    download := ← field fields "download" {} (downloadOf? d)
    versions := ← field fields "versions" .standard (rangeOf? d)
    resolveSeconds := ← field fields "resolve_timeout_secs" none (d.optional? d.word?)
    executionSeconds := ← field fields "execution_timeout_secs" none (d.optional? d.word?) }

/-- Reads a configuration's text. -/
def ofText? (text : String) : Option Config := (Document.ofText? text).bind ofDocument?

/-- The configuration of a file, whose relative catalogs are beside it. -/
def beside (path : Path) (c : Config) : Config :=
  match path.parent? with
  | some base => { c with catalogs := c.catalogs.map base.join }
  | none => c

/-- Reads a configuration's file. -/
def load (files : Files) (path : Path) : Except ConfigError Config :=
  match files.readText path with
  | .error e => .error (.unreadable path e)
  | .ok text =>
    match ofText? text with
    | some c => .ok (c.beside path)
    | none => .error (.malformed path)

end Config

end Blueprint

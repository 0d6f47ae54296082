/-!
Paths of files as text writes them. A path keeps its segments as they stand, blank ones included,
so that `Path.render` gives back the text that was read.
-/

set_option autoImplicit false

namespace Blueprint

structure Path where
  /-- The path starts at the top. -/
  absolute : Bool := false
  /-- What stands between slashes, after a first slash if any. -/
  segments : List String
deriving DecidableEq

namespace Path

/-- Cuts a text at slashes. -/
def split : List Char → List Char × List (List Char)
  | [] => ([], [])
  | '/' :: rest =>
    let (segment, more) := split rest
    ([], segment :: more)
  | c :: rest =>
    let (segment, more) := split rest
    (c :: segment, more)

def ofString (text : String) : Path :=
  let cut (chars : List Char) : List String :=
    let (segment, more) := split chars
    (segment :: more).map String.ofList
  match text.toList with
  | '/' :: rest => { absolute := true, segments := cut rest }
  | chars => { segments := cut chars }

def render (p : Path) : String :=
  (if p.absolute then "/" else "") ++ String.intercalate "/" p.segments

/-- A relative path without a segment to follow. -/
def isBlank (p : Path) : Bool := !p.absolute && p.segments.all (· == "")

/-- The segments without a blank one at the end. -/
def stem (segments : List String) : List String :=
  if segments.getLast? == some "" then segments.dropLast else segments

/-- A path below another one; an absolute path stays as it is. -/
def join (base p : Path) : Path :=
  if p.absolute then p else { base with segments := stem base.segments ++ p.segments }

/-- The path of a name below this one. -/
def child (base : Path) (name : String) : Path := base.join { segments := [name] }

/-- Drops segments that lead nowhere from the end, given inside out. A dot that starts a relative
path stays. -/
def trimEnd (absolute : Bool) : List String → List String
  | [] => []
  | segment :: outer =>
    if segment == "" || (segment == "." && (absolute || !outer.isEmpty)) then
      trimEnd absolute outer
    else segment :: outer

/-- The path without its last name; the top has none. -/
def parent? (p : Path) : Option Path :=
  match trimEnd p.absolute p.segments.reverse with
  | [] => none
  | _ :: outer => some { p with segments := (trimEnd p.absolute outer).reverse }

end Path

end Blueprint

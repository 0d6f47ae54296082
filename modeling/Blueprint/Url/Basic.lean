import Blueprint.Files.Path
import Blueprint.Url.Host

/-!
URLs, as far as fetching needs them: whether a text is one, its scheme, and the file that a `file`
URL names.

A text is read by the URL standard. Blanks around it and line breaks in it do not count. The schemes
`http`, `https`, `ws`, `wss` and `ftp` need a host; other schemes take any text behind a colon, but
what follows `//` must be an authority. `Url.ofString?` answers none exactly for texts that the
standard refuses without a base.
-/

set_option autoImplicit false

namespace Blueprint

structure Url where
  scheme : String
  host : Option String := none
  /-- The path behind an authority as it is written; of a `file` URL with its dots resolved. -/
  path : List Char := []
deriving DecidableEq

namespace Url

/-! ### Authorities -/

/-- Schemes that need a host. -/
def needsHost (scheme : String) : Bool :=
  scheme ∈ ["http", "https", "ws", "wss", "ftp"]

/-- Ends an authority. -/
def endsAuthority (special : Bool) (c : Char) : Bool :=
  c == '/' || c == '?' || c == '#' || (special && c == '\\')

/-- The text before the last occurrence of a character, and the text behind it. -/
def cutLast? (mark : Char) (text : List Char) : Option (List Char × List Char) :=
  let backwards := text.reverse
  match backwards.dropWhile (· ≠ mark) with
  | [] => none
  | _ :: before => some (before.reverse, (backwards.takeWhile (· ≠ mark)).reverse)

/-- Whether the text before an at sign says anything. -/
def saysUser (info : List Char) : Bool :=
  info ≠ [] && info ≠ [':']

/-- The text of a host, up to a colon outside brackets. -/
def hostText : Bool → List Char → List Char
  | _, [] => []
  | inside, c :: rest =>
    if c == ':' && !inside then []
    else c :: hostText ((inside || c == '[') && c != ']') rest

/-- A port is a number below 65536, or nothing. -/
def isPort (text : List Char) : Bool :=
  text.all Char.isDigit && Text.numberOf 10 text < 65536

/-- What follows the text of a host: nothing, or a colon and a port. -/
def isPortSuffix : List Char → Bool
  | [] => true
  | _ :: port => isPort (port.takeWhile (· ≠ '\\'))

/-- The host of an authority, if it is one; it may be blank unless the scheme needs one. -/
def authorityHost? (special : Bool) (authority : List Char) (more : Bool) : Option String :=
  let (info, rest) := (cutLast? '@' authority).getD ([], authority)
  let marked := authority.contains '@'
  let text := hostText false rest
  if marked && info.isEmpty && rest.isEmpty && more then none
  else if text.isEmpty && (special || rest ≠ [] || saysUser info) then none
  else if !isPortSuffix (rest.drop text.length) then none
  else if special then host? text else opaqueHost? text

/-- Reads an authority off a text. -/
def ofAuthority? (scheme : String) (text : List Char) : Option Url :=
  let special := needsHost scheme
  let authority := text.takeWhile fun c ↦ !endsAuthority special c
  let more := authority.length < text.length
  let path := (text.drop authority.length).takeWhile fun c ↦ c ≠ '?' && c ≠ '#'
  (authorityHost? special authority more).map fun host ↦ { scheme, host := some host, path }

/-! ### Paths of file URLs -/

def isDriveLetter : List Char → Bool
  | [letter, mark] => isLetter letter && (mark == ':' || mark == '|')
  | _ => false

def isSlash (c : Char) : Bool := c == '/' || c == '\\'

def endsFileHost (c : Char) : Bool := isSlash c || c == '?' || c == '#'

/-- One dot, written out or by its number. -/
def isDot (segment : List Char) : Bool :=
  String.ofList (segment.map Char.toLower) ∈ [".", "%2e"]

def isDoubleDot (segment : List Char) : Bool :=
  String.ofList (segment.map Char.toLower) ∈ ["..", "%2e%2e", "%2e.", ".%2e"]

/-- A path that is being read. Its parts are kept backwards. -/
structure Trail where
  /-- The closed segments, with their slashes. -/
  done : List Char := []
  /-- The segment being read. -/
  segment : List Char := []
  /-- The host still counts. -/
  hasHost : Bool := false

namespace Trail

/-- Takes the last closed segment away, unless it is a drive letter or there is none. -/
def up (done : List Char) : List Char :=
  match done with
  | '/' :: before =>
    let last := before.takeWhile (· ≠ '/')
    if last.length < before.length && !isDriveLetter last.reverse then before.drop last.length
    else done
  | _ => done

/-- Closes the segment, by a slash or at the end. -/
def close (t : Trail) (slash : Bool) : Trail :=
  let segment := t.segment.reverse
  let mark := if slash then ['/'] else []
  if isDoubleDot segment then { t with done := up t.done, segment := [] }
  else if isDot segment then { t with segment := [] }
  else if t.done == ['/'] && isDriveLetter segment then
    { done := mark ++ ':' :: t.segment.drop 1 ++ t.done, segment := [], hasHost := false }
  else { t with done := mark ++ t.segment ++ t.done, segment := [] }

/-- Reads one character into the segment; a slash goes behind a drive letter that has none. -/
def push (t : Trail) (c : Char) : Trail :=
  match t.segment with
  | [':', letter] =>
    if t.done == ['/'] && isLetter letter then { t with segment := c :: '/' :: t.segment }
    else { t with segment := c :: t.segment }
  | segment => { t with segment := c :: segment }

/-- Reads a path up to a query or a fragment. -/
def read (t : Trail) : List Char → Trail
  | [] => t.close false
  | c :: rest =>
    if c == '?' || c == '#' then t.close false
    else if isSlash c then (t.close true).read rest
    else (t.push c).read rest

/-- The path, with one slash in front. -/
def path (t : Trail) : List Char := '/' :: t.done.reverse.dropWhile (· == '/')

end Trail

/-- The URL of a file path behind a host. -/
def fileUrl (host : Option String) (start : List Char) (text : List Char) : Url :=
  let trail := Trail.read { done := start, hasHost := host.isSome } text
  { scheme := "file", host := if trail.hasHost then host else none, path := trail.path }

/-- A path without its first slash. -/
def dropSlash : List Char → List Char
  | c :: rest => if isSlash c then rest else c :: rest
  | [] => []

/-- Reads what follows `file:` and two slashes. -/
def ofFileHost? (text : List Char) : Option Url :=
  let name := text.takeWhile fun c ↦ !endsFileHost c
  let rest := text.drop name.length
  if isDriveLetter name then some (fileUrl none ['/'] text)
  else if name.isEmpty then some (fileUrl none [] rest)
  else
    match host? name with
    | none => none
    | some "localhost" => some (fileUrl none [] rest)
    | some host => some (fileUrl (some host) ['/'] (dropSlash rest))

/-- Reads what follows `file:`. -/
def ofFile? (text : List Char) : Option Url :=
  let plain := fileUrl none (if text.head?.any isSlash then [] else ['/']) text
  match text with
  | a :: b :: rest => if isSlash a && isSlash b then ofFileHost? rest else some plain
  | _ => some plain

/-- The file that a `file` URL names; none where the URL names a host. -/
def filePath? (url : Url) : Option Path :=
  match url.host with
  | some _ => none
  | none =>
    let bytes := percentDecode url.path
    let text := match String.fromUTF8? ⟨bytes.toArray⟩ with
      | some text => text
      | none => String.ofList (bytes.map fun b ↦
          if b < 0x80 then Char.ofNat b.toNat else Char.ofNat 0xfffd)
    let drive := 2 < text.length && isDriveLetter (text.toList.drop (text.length - 2))
    some (Path.ofString (if drive then text ++ "/" else text))

/-! ### Texts -/

def isSchemeChar (c : Char) : Bool :=
  isLetter c || c.isDigit || c == '+' || c == '-' || c == '.'

/-- The text that counts: without blanks and control characters around it, or line breaks and
tabs in it. -/
def clean (text : String) : List Char :=
  let drop (chars : List Char) : List Char := chars.dropWhile (· ≤ ' ')
  (drop (drop text.toList).reverse).reverse.filter fun c ↦ c ≠ '\t' && c ≠ '\n' && c ≠ '\r'

/-- Reads what follows the scheme. -/
def ofScheme? (scheme : String) (rest : List Char) : Option Url :=
  if scheme = "file" then ofFile? rest
  else if needsHost scheme then ofAuthority? scheme (rest.dropWhile isSlash)
  else
    match rest with
    | '/' :: '/' :: rest => ofAuthority? scheme rest
    | _ => some { scheme }

/-- The URL that a text is, if it is one. -/
def ofString? (text : String) : Option Url :=
  let chars := clean text
  let scheme := chars.takeWhile isSchemeChar
  match scheme, chars.drop scheme.length with
  | first :: _, ':' :: rest =>
    if isLetter first then ofScheme? (String.ofList (scheme.map Char.toLower)) rest else none
  | _, _ => none

/-- The scheme of a URI in lower case. A text that is no URL, or whose scheme is one letter, is a
plain path. -/
def schemeOf? (uri : String) : Option String :=
  match ofString? uri with
  | some url => if 1 < url.scheme.length then some url.scheme else none
  | none => none

end Url

end Blueprint

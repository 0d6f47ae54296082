import Blueprint.Yaml.Scalar

/-!
The tokens of a YAML text. The lines' indentation becomes tokens that open and close blocks, and a
key is marked before its first token once its colon is met. `Token.ofText?` gives all tokens, or
none if the text cannot be read so far.
-/

set_option autoImplicit false

namespace Blueprint.Yaml

inductive Token where
  | yamlVersion (major minor : Nat)
  | tagHandle (handle expansion : String)
  | documentStart
  | documentEnd
  | blockSequence
  | blockMapping
  | blockEnd
  | flowSequence
  | flowSequenceEnd
  | flowMapping
  | flowMappingEnd
  /-- The dash before an item. -/
  | entry
  /-- The comma between items in brackets. -/
  | comma
  | key
  | value
  | anchor (name : String)
  | reference (name : String)
  | tag (handle suffix : String)
  | scalar (plain : Bool) (text : String)
deriving DecidableEq, Repr

/-- A place where a key may have started; a later colon decides. -/
structure KeyPlace where
  /-- How many tokens come before it. -/
  tokens : Nat
  /-- Nothing else than a key can stand there. -/
  required : Bool
  cursor : Cursor

/-- How far a text has been cut into tokens. -/
structure Layout where
  cursor : Cursor
  /-- The tokens so far, latest first. -/
  tokens : List Token := []
  /-- The columns of the open blocks, innermost first. -/
  indents : List Nat := []
  /-- The place of a key inside the innermost brackets. -/
  key : Option KeyPlace := none
  /-- The places of keys outside of them, one for each open bracket. -/
  outerKeys : List (Option KeyPlace) := []
  /-- A key may start here. -/
  keyAllowed : Bool := true

namespace Layout

def inFlow (s : Layout) : Bool := !s.outerKeys.isEmpty

/-- The column of the innermost block, `-1` outside of all. -/
def indent (s : Layout) : Int := (s.indents.head?.map Int.ofNat).getD (-1)

def push (s : Layout) (token : Token) : Layout := { s with tokens := token :: s.tokens }

/-- Puts a token behind a number of tokens. -/
def insert (s : Layout) (count : Nat) (token : Token) : Layout :=
  let (later, earlier) := s.tokens.splitAt (s.tokens.length - count)
  { s with tokens := later ++ token :: earlier }

/-- Opens a block at a column, behind a number of tokens, unless one is open there. -/
def openBlock (s : Layout) (column count : Nat) (token : Token) : Layout :=
  if !s.inFlow && s.indent < column then
    { s.insert count token with indents := column :: s.indents }
  else s

/-- Closes the blocks to the right of a column. -/
def closeBlocks (s : Layout) (column : Int) : Layout :=
  if s.inFlow then s
  else
    let closed := s.indents.takeWhile fun (indent : Nat) ↦ column < indent
    { s with
      indents := s.indents.drop closed.length
      tokens := List.replicate closed.length .blockEnd ++ s.tokens }

/-- Gives up a place of a key; one that was required cannot be. -/
def dropKey (s : Layout) : Option Layout :=
  if s.key.any (·.required) then none else some { s with key := none }

/-- Notes that a key may start here. -/
def saveKey (s : Layout) : Option Layout :=
  if s.keyAllowed then do
    let s ← s.dropKey
    return { s with
      key := some
        { tokens := s.tokens.length
          required := !s.inFlow && s.indent == s.cursor.column
          cursor := s.cursor } }
  else some s

/-- Gives up the places from which a colon is too far: a key ends on its line, and within 1024
characters. -/
def forgetFarKeys (s : Layout) : Option Layout :=
  let far (place : KeyPlace) : Bool :=
    place.cursor.line < s.cursor.line || place.cursor.index + 1024 < s.cursor.index
  if (s.key :: s.outerKeys).any fun key ↦ key.any fun place ↦ far place && place.required then
    none
  else
    let keep (key : Option KeyPlace) : Option KeyPlace := key.filter fun place ↦ !far place
    some { s with key := keep s.key, outerKeys := s.outerKeys.map keep }

/-- Moves over blanks, comments and line breaks. Where a key may start, a tab is no blank. -/
def skipBetween : Nat → Layout → Layout
  | 0, s => s
  | fuel + 1, s =>
    let c := s.cursor.skipWhile fun x ↦ x == ' ' || (x == '\t' && (s.inFlow || !s.keyAllowed))
    let c := if c.rest.head? == some '#' then c.skipText else c
    if c.rest.head?.any isBreak then
      skipBetween fuel { s with cursor := c.nextLine.1, keyAllowed := s.keyAllowed || !s.inFlow }
    else { s with cursor := c }

/-- Takes a mark of some width as a token. -/
def take (s : Layout) (width : Nat) (token : Token) (keyAllowed : Bool) : Layout :=
  { s.push token with cursor := s.cursor.skip width, keyAllowed }

/-! ### Directives, tags and names -/

def isNameChar (c : Char) : Bool := c.isAlphanum || c == '_' || c == '-'

/-- A character of a tag; brackets and commas only where no list can end. -/
def isTagChar (wide : Bool) (c : Char) : Bool :=
  isNameChar c || ";/?:@&=+$.!~*'()%".toList.contains c || (wide && ",[]".toList.contains c)

/-- The text that a tag writes, in which a percent sign and two digits stand for a byte. -/
def tagText (chars : List Char) : Option String := do
  String.fromUTF8? ⟨(← bytes chars).toArray⟩
where
  bytes : List Char → Option (List UInt8)
    | [] => some []
    | '%' :: a :: b :: rest => do
      if Text.isHexDigit a && Text.isHexDigit b then
        return UInt8.ofNat (Text.numberOf 16 [a, b]) :: (← bytes rest)
      none
    | c :: rest => do
      if c == '%' then none
      return (String.singleton c).toUTF8.toList ++ (← bytes rest)

/-- A handle: an exclamation mark, or a name between two. -/
def handle (rest : List Char) : List Char :=
  match rest with
  | '!' :: more =>
    let name := more.takeWhile isNameChar
    '!' :: name ++ (more.drop name.length).takeWhile (· == '!') |>.take (name.length + 2)
  | _ => []

/-- A handle that ends as it starts. -/
def isClosedHandle (handle : List Char) : Bool :=
  handle.length ≥ 2 && handle.getLast? == some '!'

/-- Reads a tag's handle and suffix. -/
def readTag (c : Cursor) : Option (Cursor × Token) := do
  match c.rest with
  | '!' :: '<' :: rest =>
    let suffix := rest.takeWhile (isTagChar true)
    let c := c.skip (2 + suffix.length)
    if suffix.isEmpty || c.rest.head? != some '>' then none
    return (c.skip 1, .tag "" (← tagText suffix))
  | rest =>
    let start := handle rest
    if isClosedHandle start then
      let suffix := (rest.drop start.length).takeWhile (isTagChar false)
      if suffix.isEmpty then none
      return (c.skip (start.length + suffix.length),
        .tag (String.ofList start) (← tagText suffix))
    else
      let suffix := (rest.drop 1).takeWhile (isTagChar false)
      let c := c.skip (1 + suffix.length)
      if suffix.isEmpty then return (c, .tag "" "!")
      return (c, .tag "!" (← tagText suffix))

/-- Reads the number of a version. -/
def readNumber (c : Cursor) : Option (Cursor × Nat) :=
  let digits := c.rest.takeWhile Char.isDigit
  if digits.isEmpty || digits.length > 9 then none
  else some (c.skip digits.length, Text.numberOf 10 digits)

/-- Reads a line that starts with a percent sign. -/
def readDirective (c : Cursor) : Option (Cursor × Token) := do
  let c := c.skip 1
  let name := c.rest.takeWhile isNameChar
  let c := c.skip name.length
  if !endsWord c.rest then none
  let c := c.skipWhile isGap
  if name == "YAML".toList then
    let (c, major) ← readNumber c
    if c.rest.head? != some '.' then none
    let (c, minor) ← readNumber (c.skip 1)
    return (← c.restOfLine, .yamlVersion major minor)
  else if name == "TAG".toList then
    let start := handle c.rest
    if start ≠ ['!'] && !isClosedHandle start then none
    let c := c.skip start.length
    if !c.rest.head?.any isGap then none
    let c := c.skipWhile isGap
    let expansion := c.rest.takeWhile (isTagChar true)
    let c := c.skip expansion.length
    if expansion.isEmpty || !endsWord c.rest then none
    return (← c.restOfLine, .tagHandle (String.ofList start) (← tagText expansion))
  else none

/-- Reads the name behind an ampersand or a star. -/
def readName (c : Cursor) : Option (Cursor × String) :=
  let c := c.skip 1
  let name := c.rest.takeWhile isNameChar
  let c := c.skip name.length
  if name.isEmpty || !(endsWord c.rest || "?:,]\x7d%@\x60".toList.any (c.rest.head? == some ·)) then
    none
  else some (c, String.ofList name)

/-! ### The next token -/

/-- A mark that starts or ends a document, or a directive. -/
def border (s : Layout) : Option Layout := do
  let s ← (s.closeBlocks (-1)).dropKey
  if s.cursor.rest.head? == some '%' then
    let (cursor, token) ← readDirective s.cursor
    return { s.push token with cursor, keyAllowed := false }
  else
    let token := if s.cursor.rest.head? == some '-' then Token.documentStart else .documentEnd
    return s.take 3 token false

/-- A bracket that opens a list. -/
def openBracket (s : Layout) (token : Token) : Option Layout := do
  let s ← s.saveKey
  return { s.take 1 token true with key := none, outerKeys := s.key :: s.outerKeys }

/-- A bracket that closes a list. -/
def closeBracket (s : Layout) (token : Token) : Option Layout := do
  let s ← s.dropKey
  let s := s.take 1 token false
  return { s with key := s.outerKeys.head?.getD none, outerKeys := s.outerKeys.drop 1 }

/-- A dash before an item, or a question mark before a key. -/
def explicit (s : Layout) (block token : Token) : Option Layout := do
  if !s.inFlow && !s.keyAllowed then none
  let s ← (s.openBlock s.cursor.column s.tokens.length block).dropKey
  return s.take 1 token (token == .entry || !s.inFlow)

/-- A colon behind a key. -/
def colon (s : Layout) : Option Layout :=
  match s.key with
  | some place =>
    let s := s.insert place.tokens .key
    let s := s.openBlock place.cursor.column place.tokens .blockMapping
    some ({ s with key := none }.take 1 .value false)
  | none =>
    if !s.inFlow && !s.keyAllowed then none
    else
      let s := s.openBlock s.cursor.column s.tokens.length .blockMapping
      some (s.take 1 .value !s.inFlow)

def named (s : Layout) (token : String → Token) : Option Layout := do
  let s ← s.saveKey
  let (cursor, name) ← readName s.cursor
  return { s.push (token name) with cursor, keyAllowed := false }

def tagged (s : Layout) : Option Layout := do
  let s ← s.saveKey
  let (cursor, token) ← readTag s.cursor
  if !(endsWord cursor.rest || (s.inFlow && cursor.rest.head? == some ',')) then none
  return { s.push token with cursor, keyAllowed := false }

def blockScalar (s : Layout) : Option Layout := do
  let s ← s.dropKey
  let (cursor, text) ← readBlock s.indent s.cursor
  return { s.push (.scalar false (String.ofList text)) with cursor, keyAllowed := true }

def quotedScalar (s : Layout) : Option Layout := do
  let s ← s.saveKey
  let (cursor, text) ← readQuoted s.cursor
  return { s.push (.scalar false (String.ofList text)) with cursor, keyAllowed := false }

def plainScalar (s : Layout) : Option Layout := do
  let s ← s.saveKey
  let (cursor, text, broken) ← readPlain s.inFlow (s.indent + 1) s.cursor
  return { s.push (.scalar true (String.ofList text)) with cursor, keyAllowed := broken }

/-- Takes the token that starts at the cursor. -/
def next (s : Layout) (x : Char) (rest : List Char) : Option Layout :=
  let wordEnds := endsWord rest
  if (s.cursor.column == 0 && x == '%') || s.cursor.atDocumentMark then s.border
  else if x == '[' then s.openBracket .flowSequence
  else if x == '{' then s.openBracket .flowMapping
  else if x == ']' then s.closeBracket .flowSequenceEnd
  else if x == '}' then s.closeBracket .flowMappingEnd
  else if x == ',' then do
    let s ← s.dropKey
    return s.take 1 .comma true
  else if x == '-' && wordEnds then s.explicit .blockSequence .entry
  else if x == '?' && (s.inFlow || wordEnds) then s.explicit .blockMapping .key
  else if x == ':' && (s.inFlow || wordEnds) then s.colon
  else if x == '*' then s.named .reference
  else if x == '&' then s.named .anchor
  else if x == '!' then s.tagged
  else if (x == '|' || x == '>') && !s.inFlow then s.blockScalar
  else if x == '\'' || x == '"' then s.quotedScalar
  else if "#|>%@\x60".toList.contains x || isGap x then none
  else s.plainScalar

/-- Takes all tokens that are left. -/
def run : Nat → Layout → Option (List Token)
  | 0, _ => none
  | fuel + 1, s => do
    let s ← (skipBetween (s.cursor.rest.length + 1) s).forgetFarKeys
    match s.cursor.rest with
    | [] => return (← (s.closeBlocks (-1)).dropKey).tokens.reverse
    | x :: rest =>
      let s ← (s.closeBlocks s.cursor.column).next x rest
      run fuel s

end Layout

/-- The tokens of a text. A byte order mark at its start is skipped. -/
def Token.ofText? (text : String) : Option (List Token) :=
  let chars := match text.toList with
    | '\uFEFF' :: chars => chars
    | chars => chars
  if chars.all isAllowed then
    Layout.run (chars.length + 1) { cursor := { rest := chars } }
  else none

end Blueprint.Yaml

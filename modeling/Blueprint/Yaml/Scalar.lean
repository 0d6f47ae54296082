import Blueprint.Text.Hex
import Blueprint.Yaml.Cursor

/-!
Scalars of a YAML text: plain, quoted and block ones. Each reader starts at the scalar's first
character and ends behind its last one.
-/

set_option autoImplicit false

namespace Blueprint.Yaml

/-! ### Plain scalars -/

def isFlowMark (c : Char) : Bool := c == ',' || c == '[' || c == ']' || c == '{' || c == '}'

/-- The word of a plain scalar at the start of a text. Inside brackets it ends at their marks, and
a colon may not touch one. -/
def plainWord (inFlow : Bool) : List Char → Option (List Char)
  | [] => some []
  | x :: rest =>
    if isGap x || isBreak x then some []
    else if inFlow && x == ':' && rest.head?.any (fun y ↦ isFlowMark y || y == '?') then none
    else if (x == ':' && endsWord rest) || (inFlow && isFlowMark x) then some []
    else (plainWord inFlow rest).map (x :: ·)

/-- Reads words and the gaps between them; `margin` is the least column of a line that goes on.
Tells also whether the scalar ended with a line. -/
def plainWords (inFlow : Bool) (margin : Int) :
    Nat → Cursor → Gap → List Char → Option (Cursor × List Char × Bool)
  | 0, c, g, text => some (c, text, g.broken)
  | fuel + 1, c, g, text =>
    if c.atDocumentMark || c.rest.head? == some '#' then some (c, text, g.broken)
    else do
      let word ← plainWord inFlow c.rest
      let c := c.skip word.length
      let (g, text) := if word.isEmpty then (g, text) else ({}, text ++ g.folded ++ word)
      if c.rest.isEmpty || !endsWord c.rest then return (c, text, g.broken)
      let (c, g) ← Gap.read margin c.rest.length c g
      if !inFlow && c.column < margin then return (c, text, g.broken)
      plainWords inFlow margin fuel c g text

def readPlain (inFlow : Bool) (margin : Int) (c : Cursor) :
    Option (Cursor × List Char × Bool) :=
  plainWords inFlow margin (c.rest.length + 1) c {} []

/-! ### Quoted scalars -/

/-- The character that an escape of one letter stands for. -/
def escaped? : Char → Option Char
  | '0' => some '\x00'
  | 'a' => some '\x07'
  | 'b' => some '\x08'
  | 't' => some '\t'
  | '\t' => some '\t'
  | 'n' => some '\n'
  | 'v' => some '\x0b'
  | 'f' => some '\x0c'
  | 'r' => some '\r'
  | 'e' => some '\x1b'
  | ' ' => some ' '
  | '"' => some '"'
  | '/' => some '/'
  | '\\' => some '\\'
  | 'N' => some '\x85'
  | '_' => some '\xa0'
  | 'L' => some '\u2028'
  | 'P' => some '\u2029'
  | _ => none

/-- How many hexadecimal digits follow an escape's letter. -/
def escapeWidth? : Char → Option Nat
  | 'x' => some 2
  | 'u' => some 4
  | 'U' => some 8
  | _ => none

/-- The character of a number written in hexadecimal digits. -/
def hexChar? (digits : List Char) (width : Nat) : Option Char :=
  let code := Text.numberOf 16 digits
  if digits.length = width && digits.all Text.isHexDigit && Nat.isValidChar code then
    some (Char.ofNat code)
  else none

/-- Reads on behind the opening quote. -/
def quotedText (double : Bool) : Nat → Cursor → List Char → Option (Cursor × List Char)
  | 0, _, _ => none
  | fuel + 1, c, text =>
    let afterGap (c : Cursor) (g : Gap) : Option (Cursor × List Char) := do
      let (c, g) ← Gap.read 0 c.rest.length c g
      if c.atDocumentMark then none else quotedText double fuel c (text ++ g.folded)
    match c.rest with
    | [] => none
    | '\'' :: rest =>
      if double then quotedText double fuel (c.skip 1) (text ++ ['\''])
      else if rest.head? == some '\'' then quotedText double fuel (c.skip 2) (text ++ ['\''])
      else some (c.skip 1, text)
    | '"' :: _ =>
      if double then some (c.skip 1, text)
      else quotedText double fuel (c.skip 1) (text ++ ['"'])
    | x :: rest =>
      if isGap x || isBreak x then afterGap c {}
      else if double && x == '\\' then
        match rest with
        | [] => none
        | y :: digits =>
          if isBreak y then afterGap (c.skip 1).nextLine.1 { broken := true }
          else
            match escapeWidth? y with
            | some width => do
              let z ← hexChar? (digits.take width) width
              quotedText double fuel (c.skip (2 + width)) (text ++ [z])
            | none => do quotedText double fuel (c.skip 2) (text ++ [← escaped? y])
      else quotedText double fuel (c.skip 1) (text ++ [x])

/-- Reads a scalar between single or double quotes. -/
def readQuoted (c : Cursor) : Option (Cursor × List Char) :=
  quotedText (c.rest.head? == some '"') (c.rest.length + 1) (c.skip 1) []

/-! ### Block scalars -/

/-- What a block scalar does with the line breaks at its end. -/
inductive Chomping where
  | clip
  | strip
  | keep
deriving DecidableEq

/-- The signs after a block scalar's mark: one for chomping and one digit for indentation, in
either order. -/
def blockSigns (c : Cursor) : Option (Cursor × Chomping × Nat) :=
  let chomping? : Char → Option Chomping
    | '+' => some .keep
    | '-' => some .strip
    | _ => none
  let indent? (x : Char) : Option Nat := if x.isDigit then some (x.toNat - '0'.toNat) else none
  let signs : Cursor × Chomping × Option Nat :=
    match c.rest with
    | [] => (c, .clip, none)
    | x :: rest =>
      match chomping? x, indent? x, rest.head? with
      | some chomping, _, next =>
        match next.bind indent? with
        | some n => (c.skip 2, chomping, some n)
        | none => (c.skip 1, chomping, none)
      | none, some n, next =>
        match next.bind chomping? with
        | some chomping => (c.skip 2, chomping, some n)
        | none => (c.skip 1, .clip, some n)
      | none, none, _ => (c, .clip, none)
  match signs with
  | (_, _, some 0) => none
  | (c, chomping, indent) => some (c, chomping, indent.getD 0)

/-- Reads the blank lines before a line of a block scalar. Its indentation, if zero, is still to be
found: the widest of the blank lines, and more than that of the block around. -/
def blankLines : Nat → Nat → Nat → Cursor → List Char → Option (Cursor × Nat × List Char)
  | 0, _, _, _, _ => none
  | fuel + 1, indent, widest, c, breaks =>
    let margin := if indent = 0 then c.column + c.rest.length else indent
    let blanks := (c.rest.takeWhile (· == ' ')).take (margin - c.column)
    let c := c.skip blanks.length
    let widest := max widest c.column
    match c.rest with
    | [] => some (c, widest, breaks)
    | x :: _ =>
      if x == '\t' && (indent = 0 || c.column < indent) then none
      else if isBreak x then
        let (below, kept) := c.nextLine
        blankLines fuel indent widest below (breaks ++ kept)
      else some (c, widest, breaks)

structure BlockText where
  text : List Char := []
  /-- The break that ended the last line. -/
  lastBreak : List Char := []
  /-- The breaks of the blank lines after it. -/
  moreBreaks : List Char := []
  /-- The last line started with a blank. -/
  startedBlank : Bool := false

/-- Reads the lines of a block scalar. -/
def blockLines (folds : Bool) (indent : Nat) :
    Nat → Cursor → BlockText → Option (Cursor × BlockText)
  | 0, c, b => some (c, b)
  | fuel + 1, c, b =>
    if c.column ≠ indent || c.rest.isEmpty then some (c, b)
    else do
      let startsBlank := c.rest.head?.any isGap
      let between :=
        if folds && b.lastBreak == ['\n'] && !b.startedBlank && !startsBlank then
          if b.moreBreaks.isEmpty then [' '] else b.moreBreaks
        else b.lastBreak ++ b.moreBreaks
      let line := c.rest.takeWhile fun x ↦ !isBreak x
      let (c, lastBreak) := c.skipText.nextLine
      let (c, _, moreBreaks) ← blankLines (c.rest.length + 1) indent 0 c []
      blockLines folds indent fuel c
        { text := b.text ++ between ++ line, lastBreak, moreBreaks, startedBlank := startsBlank }

/-- Reads a block scalar inside a block of an indentation, which is `-1` at the top. -/
def readBlock (outer : Int) (c : Cursor) : Option (Cursor × List Char) := do
  let folds := c.rest.head? == some '>'
  let (c, chomping, given) ← blockSigns (c.skip 1)
  let c ← c.restOfLine
  let indent := if given = 0 then 0 else outer.toNat + given
  let (c, widest, breaks) ← blankLines (c.rest.length + 1) indent 0 c []
  let indent := if indent = 0 then max (max widest (outer + 1).toNat) 1 else indent
  let (c, b) ← blockLines folds indent (c.rest.length + 1) c { moreBreaks := breaks }
  return (c, b.text ++ match chomping with
    | .strip => []
    | .clip => b.lastBreak
    | .keep => b.lastBreak ++ b.moreBreaks)

end Blueprint.Yaml

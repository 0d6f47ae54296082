/-!
Places in a YAML text, and the characters that decide how its lines are laid out.
-/

set_option autoImplicit false

namespace Blueprint.Yaml

/-- Ends a line. -/
def isBreak (c : Char) : Bool :=
  c == '\n' || c == '\r' || c == '\x85' || c == '\u2028' || c == '\u2029'

/-- Separates words within a line. -/
def isGap (c : Char) : Bool := c == ' ' || c == '\t'

/-- What comes next is no part of a word. -/
def endsWord : List Char → Bool
  | [] => true
  | c :: _ => isGap c || isBreak c

/-- A character that a text may hold. -/
def isAllowed (c : Char) : Bool :=
  let n := c.toNat
  n == 0x9 || n == 0xA || n == 0xD || (0x20 ≤ n && n ≤ 0x7E) || n == 0x85 ||
    (0xA0 ≤ n && n ≤ 0xD7FF) || (0xE000 ≤ n && n ≤ 0xFFFD) || 0x10000 ≤ n

/-- What is left of a text, and where that starts. -/
structure Cursor where
  rest : List Char
  index : Nat := 0
  line : Nat := 0
  column : Nat := 0

namespace Cursor

/-- Moves on within the line. -/
def skip (c : Cursor) (count : Nat) : Cursor :=
  { c with rest := c.rest.drop count, index := c.index + count, column := c.column + count }

/-- Moves to the start of the next line, and tells how the break is kept: each common one as a
line feed. -/
def nextLine (c : Cursor) : Cursor × List Char :=
  let below (rest : List Char) (width : Nat) : Cursor :=
    { rest, index := c.index + width, line := c.line + 1, column := 0 }
  match c.rest with
  | '\r' :: '\n' :: rest => (below rest 2, ['\n'])
  | x :: rest =>
    if x == '\u2028' || x == '\u2029' then (below rest 1, [x])
    else if isBreak x then (below rest 1, ['\n'])
    else (c, [])
  | [] => (c, [])

/-- Moves over the characters of a kind. -/
def skipWhile (c : Cursor) (p : Char → Bool) : Cursor := c.skip (c.rest.takeWhile p).length

/-- Moves over the rest of the line. -/
def skipText (c : Cursor) : Cursor := c.skipWhile fun x ↦ !isBreak x

/-- A line of this text and nothing more on its word. -/
def startsLineWith (c : Cursor) (mark : List Char) : Bool :=
  c.column == 0 && mark.isPrefixOf c.rest && endsWord (c.rest.drop mark.length)

/-- A line that starts or ends a document. -/
def atDocumentMark (c : Cursor) : Bool :=
  c.startsLineWith ['-', '-', '-'] || c.startsLineWith ['.', '.', '.']

/-- Moves over blanks and a comment to the end of the line, where nothing else may stand. -/
def restOfLine (c : Cursor) : Option Cursor :=
  let c := c.skipWhile isGap
  let c := if c.rest.head? == some '#' then c.skipText else c
  if c.rest.head?.all isBreak then some c.nextLine.1 else none

end Cursor

/-- The blanks and line breaks between two words of a scalar. -/
structure Gap where
  /-- The blanks before the first line break. -/
  blanks : List Char := []
  /-- A line ended. -/
  broken : Bool := false
  firstBreak : List Char := []
  moreBreaks : List Char := []

namespace Gap

/-- What a scalar keeps of a gap: one line break is a space, and of more the first is dropped. -/
def folded (g : Gap) : List Char :=
  if !g.broken then g.blanks
  else if g.firstBreak == ['\n'] then (if g.moreBreaks.isEmpty then [' '] else g.moreBreaks)
  else g.firstBreak ++ g.moreBreaks

/-- Reads a gap on. A tab may not stand to the left of `margin` on a new line. -/
def read (margin : Int) : Nat → Cursor → Gap → Option (Cursor × Gap)
  | 0, c, g => some (c, g)
  | fuel + 1, c, g =>
    match c.rest with
    | [] => some (c, g)
    | x :: _ =>
      if isGap x then
        if g.broken then
          if x == '\t' && c.column < margin then none else read margin fuel (c.skip 1) g
        else read margin fuel (c.skip 1) { g with blanks := g.blanks ++ [x] }
      else if isBreak x then
        let (below, kept) := c.nextLine
        read margin fuel below <|
          if g.broken then { g with moreBreaks := g.moreBreaks ++ kept }
          else { g with blanks := [], broken := true, firstBreak := kept }
      else some (c, g)

end Gap

end Blueprint.Yaml

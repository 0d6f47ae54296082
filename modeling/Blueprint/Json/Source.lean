import Blueprint.Json.Basic

/-!
A JSON text as far as it reads. Typed reading stops at the first fault of the text, whether a
misspelt token or a value of the wrong shape, so a text is first taken apart into a `Source`: the
tree of its tokens, which ends in `broken` or in an unclosed bracket where the text stops being
JSON. What only matters to a reader of the value, such as a number beyond the range or an escape
that names no character, is kept in the leaf.
-/

set_option autoImplicit false

namespace Blueprint

/-- The tree of a text's tokens. -/
inductive Source where
  | null
  | bool (b : Bool)
  /-- A well-formed number, absent when it is beyond the range of numbers. -/
  | number (value : Option JsonNumber)
  /-- A well-formed string, absent when its content is not text. -/
  | string (value : Option String)
  /-- The items before the closing bracket, or before the text breaks. -/
  | array (items : List Source) (closed : Bool)
  /-- The members before the closing bracket, or before the text breaks. -/
  | object (members : List (Option String × Source)) (closed : Bool)
  /-- No value can be read here. -/
  | broken

instance : Inhabited Source := ⟨.broken⟩

namespace Source

/-- The code of an ASCII character. -/
def code (c : Char) : UInt8 := UInt8.ofNat c.toNat

def isBlankByte (b : UInt8) : Bool := b == 32 || b == 10 || b == 9 || b == 13

def skipBlanks (text : List UInt8) : List UInt8 := text.dropWhile isBlankByte

def isDigit (b : UInt8) : Bool := 48 ≤ b && b ≤ 57

/-! ### Numbers -/

/-- Powers of ten that have a floating-point number of their own magnitude. -/
def largestPower : Nat := 308

/-- `significand * 10 ^ exponent`, computed by one rounded product or quotient, after as many
quotients by `10 ^ 308` as bring the exponent into range. Absent when the result is infinite. -/
def scaleFloat : (steps : Nat) → (x : Float) → (exponent : Int) → Option Float
  | 0, x, _ => some x
  | steps + 1, x, exponent =>
    if exponent.natAbs ≤ largestPower then
      if 0 ≤ exponent then
        let y := x * Float.ofScientific 1 false exponent.natAbs
        if y.isInf then none else some y
      else some (x / Float.ofScientific 1 false exponent.natAbs)
    else if x == 0 then some x
    else if 0 ≤ exponent then none
    else scaleFloat steps (x / Float.ofScientific 1 false largestPower) (exponent + (largestPower : Int))

/-- The digits of a number literal. -/
structure Literal where
  negative : Bool
  whole : List Nat
  fraction : Option (List Nat)
  exponent : Option (Bool × List Nat)

/-- Takes digits while they fit in 64 bits; answers the number and how many were left. -/
def takeWord : Nat → List Nat → Nat × Nat
  | n, [] => (n, 0)
  | n, d :: rest =>
    if n * 10 + d < UInt64.size then takeWord (n * 10 + d) rest else (n, rest.length + 1)

/-- A number with a fraction or an exponent, or a whole number beyond 64 bits. -/
def Literal.toFloat? (l : Literal) : Option Float :=
  let (whole, excess) := takeWord 0 l.whole
  let fraction := l.fraction.getD []
  let (significand, left) := takeWord whole fraction
  let shift : Int := (excess : Int) - ((fraction.length - left : Nat) : Int)
  let sign (x : Float) : Float := if l.negative then -x else x
  let written := (l.exponent.map (·.2)).getD []
  let power : Nat := written.foldl (fun n d ↦ 10 * n + d) 0
  let upward := (l.exponent.map (·.1)).getD true
  if power < Nat.pow 2 31 then
    let exponent : Int := if upward then shift + (power : Int) else shift - (power : Int)
    (scaleFloat 4 (UInt64.ofNat significand).toFloat exponent).map sign
  else if significand != 0 && upward then none
  else some (sign 0)

/-- The number a literal names: a whole number of at most 64 bits stays one, except minus zero. -/
def Literal.value (l : Literal) : Option JsonNumber :=
  let real := do
    let x ← l.toFloat?
    if h : x.isFinite = true then some (JsonNumber.real ⟨x, h⟩) else none
  match l.fraction, l.exponent with
  | none, none =>
    let (n, excess) := takeWord 0 l.whole
    if excess != 0 then real
    else if !l.negative then some (.whole n)
    else if n == 0 || Nat.pow 2 63 < n then real
    else some (.whole (-n))
  | _, _ => real

def takeDigits (text : List UInt8) : List Nat × List UInt8 :=
  ((text.takeWhile isDigit).map fun b ↦ b.toNat - 48, text.dropWhile isDigit)

/-- The digits after a point, of which there has to be one. -/
def readFraction (text : List UInt8) : Option (Option (List Nat) × List UInt8) :=
  match text with
  | 46 :: rest =>
    let (digits, rest) := takeDigits rest
    if digits.isEmpty then none else some (some digits, rest)
  | _ => some (none, text)

/-- An exponent, of at least one digit, and whether it points upwards. -/
def readExponent (text : List UInt8) : Option (Option (Bool × List Nat) × List UInt8) :=
  let signed (rest : List UInt8) : Bool × List UInt8 :=
    match rest with
    | 43 :: rest => (true, rest)
    | 45 :: rest => (false, rest)
    | _ => (true, rest)
  let digits (rest : List UInt8) :=
    let (upward, rest) := signed rest
    let (digits, rest) := takeDigits rest
    if digits.isEmpty then none else some (some (upward, digits), rest)
  match text with
  | 101 :: rest => digits rest
  | 69 :: rest => digits rest
  | _ => some (none, text)

/-- A number literal: no leading zeros, digits on both sides of a point. -/
def readLiteral (text : List UInt8) : Option (Literal × List UInt8) := do
  let (negative, text) := match text with
    | 45 :: rest => (true, rest)
    | _ => (false, text)
  let (whole, rest) := takeDigits text
  if whole.isEmpty || (whole.length > 1 && whole.head? == some 0) then none
  let (fraction, rest) ← readFraction rest
  let (exponent, rest) ← readExponent rest
  some (⟨negative, whole, fraction, exponent⟩, rest)

def readNumber (text : List UInt8) : Source × List UInt8 :=
  match readLiteral text with
  | some (l, rest) => (.number l.value, rest)
  | none => (.broken, [])

/-! ### Strings -/

def hexDigit? (b : UInt8) : Option Nat :=
  if 48 ≤ b && b ≤ 57 then some (b.toNat - 48)
  else if 65 ≤ b && b ≤ 70 then some (b.toNat - 55)
  else if 97 ≤ b && b ≤ 102 then some (b.toNat - 87)
  else none

/-- Four hexadecimal digits. -/
def readUnit : List UInt8 → Option (Nat × List UInt8)
  | a :: b :: c :: d :: rest => do
    let a ← hexDigit? a
    let b ← hexDigit? b
    let c ← hexDigit? c
    let d ← hexDigit? d
    some (((a * 16 + b) * 16 + c) * 16 + d, rest)
  | _ => none

def isHighSurrogate (n : Nat) : Bool := 0xD800 ≤ n && n ≤ 0xDBFF

def isLowSurrogate (n : Nat) : Bool := 0xDC00 ≤ n && n ≤ 0xDFFF

/-- The character of an escape by number, which may take two units; no character when a unit of a
pair stands alone. -/
def readNumbered (text : List UInt8) : Option (Option Char × List UInt8) := do
  let (first, rest) ← readUnit text
  if isLowSurrogate first then some (none, rest)
  else if isHighSurrogate first then
    match rest with
    | 92 :: 117 :: after =>
      match readUnit after with
      | some (second, after) =>
        if isLowSurrogate second then
          some (some (Char.ofNat (0x10000 + (first - 0xD800) * 0x400 + (second - 0xDC00))), after)
        else some (none, rest)
      | none => some (none, rest)
    | _ => some (none, rest)
  else some (some (Char.ofNat first), rest)

/-- The bytes of one character. -/
def encodeChar (c : Char) : List UInt8 := (String.singleton c).toUTF8.toList

/-- The character of a short escape. -/
def shortEscape? (b : UInt8) : Option Char :=
  if b == code '"' then some '"'
  else if b == code '\\' then some '\\'
  else if b == code '/' then some '/'
  else if b == code 'b' then some (Char.ofNat 8)
  else if b == code 'f' then some (Char.ofNat 12)
  else if b == code 'n' then some '\n'
  else if b == code 'r' then some '\r'
  else if b == code 't' then some '\t'
  else none

/-- The content of a string after its opening quote. `done` holds the bytes so far, the last first;
`sound` is lost at an escape that names no character. -/
def readContent : Nat → List UInt8 → Bool → List UInt8 → Option (Option String × List UInt8)
  | 0, _, _, _ => none
  | fuel + 1, done, sound, text =>
    match text with
    | [] => none
    | 34 :: rest =>
      some (if sound then String.fromUTF8? done.reverse.toByteArray else none, rest)
    | 92 :: 117 :: rest =>
      match readNumbered rest with
      | none => none
      | some (some c, rest) => readContent fuel ((encodeChar c).reverse ++ done) sound rest
      | some (none, rest) => readContent fuel done false rest
    | 92 :: b :: rest =>
      match shortEscape? b with
      | none => none
      | some c => readContent fuel ((encodeChar c).reverse ++ done) sound rest
    | b :: rest => if b < 32 || b == 92 then none else readContent fuel (b :: done) sound rest

/-! ### Values -/

/-- A keyword whose first letter has been seen. -/
def readWord (word : String) (value : Source) (text : List UInt8) : Source × List UInt8 :=
  let letters := word.toList.map code
  if text.take letters.length == letters then (value, text.drop letters.length) else (.broken, [])

mutual

/-- The value at the start of the text, and the text after it. -/
def readValue : Nat → List UInt8 → Source × List UInt8
  | 0, _ => (.broken, [])
  | fuel + 1, text =>
    match skipBlanks text with
    | [] => (.broken, [])
    | b :: rest =>
      if b == code 'n' then readWord "null" .null (b :: rest)
      else if b == code 't' then readWord "true" (.bool true) (b :: rest)
      else if b == code 'f' then readWord "false" (.bool false) (b :: rest)
      else if b == code '"' then
        match readContent fuel [] true rest with
        | some (value, rest) => (.string value, rest)
        | none => (.broken, [])
      else if b == code '[' then
        match skipBlanks rest with
        | 93 :: rest => (.array [] true, rest)
        | rest =>
          let (items, closed, rest) := readItems fuel rest
          (.array items closed, rest)
      else if b == 123 then
        match skipBlanks rest with
        | 125 :: rest => (.object [] true, rest)
        | rest =>
          let (members, closed, rest) := readMembers fuel rest
          (.object members closed, rest)
      else readNumber (b :: rest)

/-- The items of an array from one of them on, whether it closes, and the text after it. -/
def readItems : Nat → List UInt8 → List Source × Bool × List UInt8
  | 0, _ => ([], false, [])
  | fuel + 1, text =>
    let (item, rest) := readValue fuel text
    match skipBlanks rest with
    | 93 :: rest => ([item], true, rest)
    | 44 :: rest =>
      match skipBlanks rest with
      | 93 :: _ => ([item], false, [])
      | rest =>
        let (items, closed, rest) := readItems fuel rest
        (item :: items, closed, rest)
    | _ => ([item], false, [])

/-- The members of an object from a key on, whether it closes, and the text after it. -/
def readMembers : Nat → List UInt8 → List (Option String × Source) × Bool × List UInt8
  | 0, _ => ([], false, [])
  | fuel + 1, text =>
    match skipBlanks text with
    | 34 :: rest =>
      match readContent fuel [] true rest with
      | none => ([], false, [])
      | some (key, rest) =>
        match skipBlanks rest with
        | 58 :: rest =>
          let (value, rest) := readValue fuel rest
          match skipBlanks rest with
          | 125 :: rest => ([(key, value)], true, rest)
          | 44 :: rest =>
            let (members, closed, rest) := readMembers fuel rest
            ((key, value) :: members, closed, rest)
          | _ => ([(key, value)], false, [])
        | _ => ([(key, .broken)], false, [])
    | _ => ([], false, [])

end

mutual

/-- A value as the text that writes it would read. -/
def ofJson : Json → Source
  | .null => .null
  | .bool b => .bool b
  | .number n => .number (some n)
  | .string s => .string (some s)
  | .array items => .array (ofItems items) true
  | .object members => .object (ofMembers members) true

def ofItems : List Json → List Source
  | [] => []
  | item :: rest => ofJson item :: ofItems rest

def ofMembers : List (String × Json) → List (Option String × Source)
  | [] => []
  | (key, value) :: rest => (some key, ofJson value) :: ofMembers rest

end

end Source

/-- A whole text: its tree, and whether only blanks follow it. -/
structure SourceText where
  root : Source
  ends : Bool

/-- Takes a text apart. -/
def SourceText.ofBytes (bytes : List UInt8) : SourceText :=
  let (root, rest) := Source.readValue (2 * bytes.length + 2) bytes
  ⟨root, (Source.skipBlanks rest).isEmpty⟩

def SourceText.ofString (text : String) : SourceText := .ofBytes text.toUTF8.toList

end Blueprint

import Blueprint.Asset
import Blueprint.Text.Hex

/-!
Hosts of URLs: domains, IPv4 and IPv6 addresses. Only whether a text is a host matters here, and
which domain it is.
-/

set_option autoImplicit false

namespace Blueprint.Url

open Text (isHexDigit numberOf)

/-- A character without accent from A to Z, in either case. -/
def isLetter (c : Char) : Bool := c.isAlpha

/-- The bytes of a text in which a percent sign and two digits stand for a byte. -/
def percentDecode : List Char → Bytes
  | '%' :: a :: b :: rest =>
    if isHexDigit a && isHexDigit b then
      UInt8.ofNat (numberOf 16 [a, b]) :: percentDecode rest
    else 0x25 :: percentDecode (a :: b :: rest)
  | c :: rest => (String.singleton c).toUTF8.toList ++ percentDecode rest
  | [] => []

/-- Cuts a text at every occurrence of a character. -/
def cut (mark : Char) : List Char → List (List Char)
  | [] => [[]]
  | c :: rest =>
    if c = mark then [] :: cut mark rest
    else
      match cut mark rest with
      | [] => [[c]]
      | first :: more => (c :: first) :: more

/-! ### IPv4 -/

/-- A part of an IPv4 address in hexadecimal, octal or decimal digits. -/
def ipv4Number? (text : List Char) : Option Nat :=
  let read (base : Nat) (allowed : Char → Bool) (digits : List Char) : Option Nat :=
    if digits.all allowed then some (numberOf base digits) else none
  match text with
  | [] => none
  | '0' :: 'x' :: digits | '0' :: 'X' :: digits => read 16 isHexDigit digits
  | '0' :: c :: digits => read 8 (fun c ↦ '0' ≤ c && c ≤ '7') (c :: digits)
  | digits => read 10 Char.isDigit digits

/-- The parts of a domain, without a blank one at the end. -/
def domainParts (domain : List Char) : List (List Char) :=
  let parts := cut '.' domain
  if parts.getLast? == some [] then parts.dropLast else parts

/-- A domain whose last part is a number has to be an IPv4 address. -/
def endsInNumber (domain : List Char) : Bool :=
  match (domainParts domain).getLast? with
  | none => false
  | some last => (!last.isEmpty && last.all Char.isDigit) || (ipv4Number? last).isSome

/-- One to four numbers; all but the last are bytes, and the last fills what is left. -/
def isIpv4 (domain : List Char) : Bool :=
  let parts := domainParts domain
  match parts.mapM ipv4Number? with
  | none => false
  | some numbers =>
    match numbers.reverse with
    | [] => false
    | last :: others =>
      numbers.length ≤ 4 && others.all (· ≤ 255) && last < Nat.pow 256 (4 - others.length)

/-! ### IPv6 -/

/-- Four decimal bytes without leading zeros. -/
def isDottedQuad (text : List Char) : Bool :=
  let parts := cut '.' text
  parts.length == 4 && parts.all fun part ↦
    !part.isEmpty && part.all Char.isDigit && numberOf 10 part ≤ 255 &&
      (part.length == 1 || part.head? != some '0')

/-- Groups of up to four digits, as many as are left; a doubled colon, once, stands for those that
are missing. -/
def isGroups : Nat → Bool → List Char → Bool
  | left, compressed, [] => compressed || left == 0
  | 0, _, _ => false
  | left + 1, compressed, ':' :: rest => !compressed && isGroups left true rest
  | left + 1, compressed, text =>
    let digits := (text.take 4).takeWhile isHexDigit
    match text.drop digits.length with
    | [] => compressed || left == 0
    | [':'] => false
    | ':' :: rest => isGroups left compressed rest
    | '.' :: _ => !digits.isEmpty && isDottedQuad text && (left == 1 || (compressed && 1 < left))
    | _ => false

def isIpv6 : List Char → Bool
  | ':' :: ':' :: rest => isGroups 7 true rest
  | ':' :: _ => false
  | text => 2 ≤ text.length && isGroups 8 false text

/-! ### Hosts -/

/-- Characters that no domain has. -/
def forbiddenInDomain (c : Char) : Bool :=
  c ≤ ' ' || c == Char.ofNat 0x7f || "%#/:<>?@[\\]^|".toList.contains c

/-- Characters that no host has where domains are not interpreted. -/
def forbiddenInOpaque (c : Char) : Bool :=
  c == Char.ofNat 0 || " #/:<>?@[\\]^|".toList.contains c

/-- A label in the ASCII form of other letters, but without any. -/
def isHollowLabel : List Char → Bool
  | 'x' :: 'n' :: '-' :: '-' :: rest => rest.isEmpty || rest.getLast? == some '-'
  | _ => false

/-- An address in brackets. -/
def bracketed? : List Char → Option Bool
  | '[' :: rest => some (rest.getLast? == some ']' && isIpv6 rest.dropLast)
  | _ => none

/-- The host that a text names where domains are interpreted: in lower case, with percent signs
resolved. -/
def host? (text : List Char) : Option String :=
  match bracketed? text with
  | some valid => if valid then some (String.ofList text) else none
  | none =>
    match String.fromUTF8? ⟨(percentDecode text).toArray⟩ with
    | none => none
    | some decoded =>
      let domain := decoded.toList.map Char.toLower
      if domain.isEmpty || domain.any forbiddenInDomain ||
          (cut '.' domain).any isHollowLabel then none
      else if endsInNumber domain && !isIpv4 domain then none
      else some (String.ofList domain)

/-- The host that a text names where domains are not interpreted; it may be blank. -/
def opaqueHost? (text : List Char) : Option String :=
  match bracketed? text with
  | some valid => if valid then some (String.ofList text) else none
  | none => if text.any forbiddenInOpaque then none else some (String.ofList text)

end Blueprint.Url

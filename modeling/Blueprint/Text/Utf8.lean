/-!
Where bytes stop being UTF-8 text. A byte that no character can go on with is part of a bad
sequence; the bytes of a character that is cut off at the end are an incomplete one.
-/

set_option autoImplicit false

namespace Blueprint.Text

/-- The first fault of bytes that are no text. -/
inductive Utf8Fault where
  /-- So many bytes at a position belong to no character. -/
  | bad (length position : Nat)
  /-- The character at a position is cut off by the end. -/
  | incomplete (position : Nat)
deriving DecidableEq

def Utf8Fault.message : Utf8Fault → String
  | .bad length position => s!"invalid utf-8 sequence of {length} bytes from index {position}"
  | .incomplete position => s!"incomplete utf-8 byte sequence from index {position}"

/-- A byte after the first of a character. -/
def isTail (b : UInt8) : Bool := 0x80 ≤ b && b ≤ 0xbf

/-- How many bytes follow a first byte, and which of them can come second; absent when no character
starts so. -/
def follow? (first : UInt8) : Option (Nat × (UInt8 → Bool)) :=
  if first < 0x80 then some (0, isTail)
  else if 0xc2 ≤ first && first ≤ 0xdf then some (1, isTail)
  else if first == 0xe0 then some (2, fun b ↦ 0xa0 ≤ b && b ≤ 0xbf)
  else if first == 0xed then some (2, fun b ↦ 0x80 ≤ b && b ≤ 0x9f)
  else if 0xe1 ≤ first && first ≤ 0xef then some (2, isTail)
  else if first == 0xf0 then some (3, fun b ↦ 0x90 ≤ b && b ≤ 0xbf)
  else if first == 0xf4 then some (3, fun b ↦ 0x80 ≤ b && b ≤ 0x8f)
  else if 0xf1 ≤ first && first ≤ 0xf3 then some (3, isTail)
  else none

/-- Takes the bytes that a character still needs; `taken` of it are there. -/
def takeTail (position : Nat) : (taken needed : Nat) → (UInt8 → Bool) → List UInt8 →
    Except Utf8Fault (List UInt8)
  | _, 0, _, rest => .ok rest
  | _, _ + 1, _, [] => .error (.incomplete position)
  | taken, needed + 1, allowed, b :: rest =>
    if allowed b then takeTail position (taken + 1) needed isTail rest
    else .error (.bad taken position)

/-- The first fault from a position on, in as many rounds as there are bytes. -/
def faultFrom : Nat → Nat → List UInt8 → Option Utf8Fault
  | 0, _, _ => none
  | _, _, [] => none
  | rounds + 1, position, first :: rest =>
    match follow? first with
    | none => some (.bad 1 position)
    | some (needed, allowed) =>
      match takeTail position 1 needed allowed rest with
      | .error fault => some fault
      | .ok more => faultFrom rounds (position + 1 + needed) more

/-- The text that bytes are, or their first fault. -/
def ofUtf8 (bytes : List UInt8) : Except Utf8Fault String :=
  match String.fromUTF8? ⟨bytes.toArray⟩ with
  | some text => .ok text
  | none => .error ((faultFrom bytes.length 0 bytes).getD (.incomplete bytes.length))

/-- The bytes with the replacement character in place of every bad sequence. -/
def mended : Nat → List UInt8 → List UInt8
  | 0, bytes => bytes
  | rounds + 1, bytes =>
    match faultFrom bytes.length 0 bytes with
    | none => bytes
    | some (.bad length position) =>
      bytes.take position ++ [0xef, 0xbf, 0xbd] ++ mended rounds (bytes.drop (position + length))
    | some (.incomplete position) => bytes.take position ++ [0xef, 0xbf, 0xbd]

/-- The text that bytes are as far as they are one. -/
def ofUtf8Mended (bytes : List UInt8) : String :=
  (String.fromUTF8? ⟨(mended bytes.length bytes).toArray⟩).getD ""

end Blueprint.Text

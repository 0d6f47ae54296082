import Blueprint.Image.Basic

/-!
PNG files of eight-bit samples that are stored as they are: the deflate stream has stored blocks
only, and no row is filtered.
-/

set_option autoImplicit false

namespace Blueprint.Png

open Picture

def signature : Bytes := [0x89, 0x50, 0x4e, 0x47, 0x0d, 0x0a, 0x1a, 0x0a]

/-- One byte in the checksum of a chunk. -/
def crcByte (crc : UInt32) (b : UInt8) : UInt32 :=
  (List.range 8).foldl
    (fun crc _ ↦ if crc &&& 1 == 1 then (crc >>> 1) ^^^ 0xedb88320 else crc >>> 1)
    (crc ^^^ b.toUInt32)

/-- The checksum of a chunk. -/
def crc (bytes : Bytes) : UInt32 := bytes.foldl crcByte 0xffffffff ^^^ 0xffffffff

/-- A part of the file: a name of four bytes, and data. -/
structure Chunk where
  name : Bytes
  data : Bytes

/-- The chunks up to the first that is broken or ends the file. -/
def chunks : Nat → Bytes → List Chunk
  | 0, _ => []
  | rounds + 1, bytes =>
    let chunk? : Option (Chunk × Bytes) := do
      let (length, rest) ← takeExactly? 4 bytes
      let (name, rest) ← takeExactly? 4 rest
      let (data, rest) ← takeExactly? (bigEndian length) rest
      let (sum, rest) ← takeExactly? 4 rest
      if bigEndian sum = (crc (name ++ data)).toNat then some (⟨name, data⟩, rest) else none
    match chunk? with
    | some (chunk, rest) => chunk :: chunks rounds rest
    | none => []

def named (name : String) (chunk : Chunk) : Bool := chunk.name == name.toUTF8.toList

/-- The content of stored blocks. -/
def stored? : Nat → Bytes → Option Bytes
  | 0, _ => none
  | rounds + 1, bytes => do
    let (header, rest) ← takeExactly? 5 bytes
    match header with
    | [flags, a, b, c, d] =>
      let length := littleEndian [a, b]
      if flags &&& 6 ≠ 0 ∨ length + littleEndian [c, d] ≠ 0xffff then none
      else
        let (data, rest) ← takeExactly? length rest
        if flags &&& 1 = 1 then some data
        else return data ++ (← stored? rounds rest)
    | _ => none

/-- The content of a compressed stream with its header. -/
def unpack? : Bytes → Option Bytes
  | method :: flags :: rest =>
    if method &&& 15 = 8 ∧ (256 * method.toNat + flags.toNat) % 31 = 0 ∧ flags &&& 32 = 0 then
      stored? (rest.length + 1) rest
    else none
  | _ => none

/-- How many samples a pixel has, by the kind of colour. -/
def channels? : UInt8 → Option Nat
  | 0 => some 1
  | 2 => some 3
  | 4 => some 2
  | 6 => some 4
  | _ => none

/-- A row without the byte that names its filter. -/
def unfiltered? : Bytes → Option Bytes
  | 0 :: row => some row
  | _ => none

def decode? (bytes : Bytes) : Option Picture := do
  let (_, rest) ← takeExactly? 8 bytes
  match chunks bytes.length rest with
  | header :: more =>
    if !named "IHDR" header then none
    else
      let (width, data) ← takeExactly? 4 header.data
      let (height, data) ← takeExactly? 4 data
      match data with
      | [8, colour, 0, 0, 0] =>
        let width := bigEndian width
        let height := bigEndian height
        let channels ← channels? colour
        if width = 0 ∨ height = 0 then none
        else
          let packed := (more.filter (named "IDAT")).flatMap (·.data)
          let rows ← rows? (1 + width * channels) height (← unpack? packed)
          let rows ← rows.mapM unfiltered?
          return { width, height, pixels := ← ofChannels? channels rows.flatten }
      | _ => none
  | [] => none

end Blueprint.Png

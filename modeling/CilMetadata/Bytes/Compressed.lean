import CilMetadata.Bytes.Cursor
import CilMetadata.Bytes.Output

/-!
# Compressed integers and counted strings

Unsigned numbers below `2 ^ 29` take one, two or four bytes, high byte first, with the width in the
top bits of the first byte: `0`, `10` or `110`. A signed number is rotated so that its sign stands
in the lowest bit, and then written like an unsigned one of the same width.

A counted string is a compressed length with that many bytes of UTF-8; the single byte `0xFF`,
which no length starts with, stands for the absence of a string.

* `Width.ofUnsigned?` and `Width.ofSigned?` choose the width, `Width.write` writes a payload;
* `Decoder.compressed`, `Decoder.compressedSigned`, `Decoder.serString` read;
* `Encoder.compressed`, `Encoder.compressedSigned`, `Encoder.serString` write.
-/

namespace CilMetadata

/-- How many bytes a compressed integer takes. -/
inductive Width
  | one | two | four
  deriving DecidableEq, Repr, Inhabited

namespace Width

/-- The number of bytes of a width. -/
def size : Width → Nat
  | .one => 1
  | .two => 2
  | .four => 4

/-- The number of bits that are left for the payload. -/
def bits : Width → Nat
  | .one => 7
  | .two => 14
  | .four => 29

/-- The least width for an unsigned number. -/
def ofUnsigned? (value : Nat) : Option Width :=
  if value ≤ 0x7F then some .one
  else if value ≤ 0x3FFF then some .two
  else if value ≤ 0x1FFFFFFF then some .four
  else none

/-- The least width for a signed number. -/
def ofSigned? (value : Int) : Option Width :=
  if -0x40 ≤ value ∧ value < 0x40 then some .one
  else if -0x2000 ≤ value ∧ value < 0x2000 then some .two
  else if -0x10000000 ≤ value ∧ value < 0x10000000 then some .four
  else none

/-- The bytes of a payload, with the width in the top bits of the first one. -/
def write : Width → Nat → List UInt8
  | .one, payload => [UInt8.ofNat payload]
  | .two, payload => Bytes.toBE 2 (0x8000 + payload)
  | .four, payload => Bytes.toBE 4 (0xC0000000 + payload)

/-- How many payloads a width has. -/
def payloads (width : Width) : Int := (1 <<< width.bits : Nat)

/-- A signed number in as many bits as the width has, its sign in the lowest one. -/
def rotate (width : Width) (value : Int) : Nat :=
  ((2 * value + if value < 0 then 1 else 0) % width.payloads).toNat

/-- The signed number that a rotated payload stands for. -/
def unrotate (width : Width) (payload : Nat) : Int :=
  if payload % 2 = 0 then (payload / 2 : Nat)
  else (payload / 2 : Nat) - width.payloads / 2

end Width

namespace Bytes

/-- How many bytes the compressed form of a number takes; of a number too large, four. -/
def compressedSize (value : Nat) : Nat :=
  if value ≤ 0x7F then 1 else if value ≤ 0x3FFF then 2 else 4

end Bytes

namespace Decoder

/-- A compressed integer's payload and width. -/
def payload : Decoder (Nat × Width) := do
  let lead ← byte
  if lead < 0x80 then return (lead.toNat, .one)
  else if lead < 0xC0 then
    let low ← byte
    return (lead.toNat % 0x40 * 0x100 + low.toNat, .two)
  else if lead < 0xE0 then
    let low ← take 3
    return (lead.toNat % 0x20 * 0x1000000 + Bytes.ofBE low.toList, .four)
  else throw (.malformed (.reservedLead lead))

/-- A compressed unsigned integer. -/
def compressed : Decoder Nat := restoring do return (← payload).1

/-- A compressed signed integer. -/
def compressedSigned : Decoder Int := restoring do
  let (raw, width) ← payload
  return width.unrotate raw

/-- A counted string, or nothing for the single byte `0xFF`. -/
def serString : Decoder (Option String) := do
  if (← peekByte) = 0xFF then
    skip 1
    return none
  else
    let bytes ← take (← compressed)
    match String.fromUTF8? ⟨bytes⟩ with
    | some text => return some text
    | none => throw (.malformed .serStringEncoding)

end Decoder

namespace Encoder

/-- Append a compressed unsigned integer. -/
def compressed (value : Nat) : Encoder Unit :=
  match Width.ofUnsigned? value with
  | some width => emit (width.write value)
  | none => throw (.malformed (.uncompressible value))

/-- Append a compressed signed integer. -/
def compressedSigned (value : Int) : Encoder Unit :=
  match Width.ofSigned? value with
  | some width => emit (width.write (width.rotate value))
  | none => throw (.malformed (.uncompressibleSigned value))

/-- Append a counted string, or the single byte `0xFF` for the absence of one. -/
def serString : Option String → Encoder Unit
  | none => byte 0xFF
  | some text => do
    let bytes := text.toByteArray.data
    if bytes.size < 0x100000000 then
      compressed bytes.size
      emitArray bytes
    else throw (.malformed (.serStringLength bytes.size))

end Encoder

end CilMetadata

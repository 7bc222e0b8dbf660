import CilMetadata.Bytes.Fixed
import CilMetadata.Fault

/-!
# Writing bytes

An encoder appends to the bytes written so far. When it fails, the bytes it has already written
stay.

* `Encoder.emit` appends bytes; the other encoders are made of it;
* `Encoder.bytes?` is the outcome on an empty output.
-/

namespace CilMetadata

/-- A writer of bytes: it appends to an output, and fails with a fault. -/
abbrev Encoder := EStateM Fault (Array UInt8)

namespace Encoder

/-- Append bytes. -/
def emit (bytes : List UInt8) : Encoder Unit := fun out => .ok () (out ++ bytes)

/-- Append an array of bytes. -/
def emitArray (bytes : Array UInt8) : Encoder Unit := fun out => .ok () (out ++ bytes)

/-- Append one byte. -/
def byte (byte : UInt8) : Encoder Unit := fun out => .ok () (out.push byte)

/-- How many bytes have been written. -/
def position : Encoder Nat := fun out => .ok out.size out

/-- Append the low `width` bytes of a number, low byte first. -/
def number (width n : Nat) : Encoder Unit := emit (Bytes.toLE width n)

/-- Append two bytes, low byte first. -/
def u16 (n : UInt16) : Encoder Unit := number 2 n.toNat

/-- Append four bytes, low byte first. -/
def u32 (n : UInt32) : Encoder Unit := number 4 n.toNat

/-- Append eight bytes, low byte first. -/
def u64 (n : UInt64) : Encoder Unit := number 8 n.toNat

/-- Append a column of two or four bytes; a value too large for two bytes is refused. -/
def column (large : Bool) (value : Nat) : Encoder Unit :=
  if large then number 4 value
  else if value ≤ 0xFFFF then number 2 value
  else throw (.malformed (.narrowColumn value))

/-- Append `fill` until the number of bytes is a multiple of `alignment`. -/
def align (alignment : Nat) (fill : UInt8) : Encoder Unit := fun out =>
  .ok () (out ++ List.replicate ((alignment - out.size % alignment) % alignment) fill)

/-- Encode every item of a list in turn. -/
def each {α : Type} (encode : α → Encoder Unit) : List α → Encoder Unit
  | [] => return ()
  | item :: rest => do
    encode item
    each encode rest

/-- The bytes that an encoder writes to an empty output. -/
def bytes? (e : Encoder Unit) : Except Fault (Array UInt8) :=
  match e #[] with
  | .ok _ out => .ok out
  | .error fault _ => .error fault

end Encoder

end CilMetadata

import CilMetadata.Bytes.Output

/-!
# The GUID heap

Identifiers of 16 bytes, counted from 1.

* `GuidHeap.get` reads an identifier, `GuidHeap.append` adds one behind the bytes of a heap;
* `GuidHeap.text` is the text form of an identifier, whose first three groups are numbers with the
  low byte first.
-/

namespace CilMetadata

/-- A heap of identifiers. -/
structure GuidHeap where
  bytes : Array UInt8 := #[]
  deriving DecidableEq, Repr, Inhabited

namespace GuidHeap

/-- A heap of existing bytes, which have to be a whole number of identifiers. -/
def ofBytes (bytes : Array UInt8) : Except Fault GuidHeap :=
  if bytes.size % 16 = 0 then .ok { bytes } else .error (.malformed (.guidHeap bytes.size))

/-- How many identifiers a heap holds. -/
def count (heap : GuidHeap) : Nat := heap.bytes.size / 16

/-- The identifier with a number, counted from 1. -/
def get (heap : GuidHeap) (index : Nat) : Except Fault (Array UInt8) :=
  if index = 0 ∨ heap.bytes.size < 16 * index then .error .outOfBounds
  else .ok (heap.bytes.extract (16 * (index - 1)) (16 * index))

/-- Add an identifier behind the bytes of a heap; the identifier's number, which has to fit 32
bits. -/
def append (guid : Array UInt8) : Encoder Nat := do
  let number := (← Encoder.position) / 16 + 1
  if number < 0x100000000 then
    Encoder.emitArray guid
    return number
  else throw (.malformed .guidCount)

/-- Bytes as hexadecimal digits, two to each. -/
def digits (bytes : List UInt8) : String :=
  String.join (bytes.map fun byte => Text.hexPadded 2 byte.toNat)

/-- An identifier in text. -/
def text (guid : Array UInt8) : String :=
  let bytes := guid.toList
  let group (start size : Nat) := (bytes.drop start).take size
  "-".intercalate
    [digits (group 0 4).reverse, digits (group 4 2).reverse, digits (group 6 2).reverse,
     digits (group 8 2), digits (group 10 6)]

end GuidHeap

end CilMetadata

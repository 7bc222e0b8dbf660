import CilMetadata.Bytes.Compressed
import CilMetadata.Heap.Strings
import CilMetadata.Text.Utf16

/-!
# The user string heap

Texts in UTF-16, each after its compressed length in bytes and before a flag byte, which tells
whether any unit needs more than plain comparison. A text is named by the place of its length.

* `UserStringHeap.get` reads a text, `UserStringHeap.append` adds one behind the bytes of a heap;
* `raisesFlag` decides on the flag.
-/

namespace CilMetadata

/-- A heap of texts for use by code. -/
structure UserStringHeap where
  bytes : Array UInt8 := #[0]
  deriving DecidableEq, Repr, Inhabited

namespace UserStringHeap

/-- A heap of existing bytes, which have to start with the empty entry. -/
def ofBytes (bytes : Array UInt8) : Except Fault UserStringHeap :=
  if bytes[0]? = some 0 then .ok { bytes } else .error (.malformed .userStringHeap)

/-- The units that bytes hold, low byte first; an odd byte at the end is left out. -/
def unitsOfBytes : List UInt8 → List UInt16
  | low :: high :: rest => UInt16.ofNat (Bytes.ofLE [low, high]) :: unitsOfBytes rest
  | _ => []

/-- The bytes of an entry behind its length, the flag among them. -/
def entry : Decoder (Array UInt8) := do Decoder.take (← Decoder.compressed)

/-- The text at a place. -/
def get (heap : UserStringHeap) (index : Nat) : Except Fault String :=
  if heap.bytes.size ≤ index then .error .outOfBounds
  else
    match entry { bytes := heap.bytes, pos := index } with
    | .error fault _ => .error fault
    | .ok bytes _ =>
      match Text.ofUnits? (unitsOfBytes bytes.toList) with
      | some text => .ok (String.ofList text)
      | none => .error (.malformed (.userStringEntry index))

/-- Whether a unit makes the flag of its text necessary. -/
def raisesFlag (unit : UInt16) : Bool :=
  0xFF < unit || (0x01 ≤ unit && unit ≤ 0x08) || (0x0E ≤ unit && unit ≤ 0x1F)
    || unit == 0x27 || unit == 0x2D || unit == 0x7F

/-- The bytes of a text behind its length. -/
def payload (units : List UInt16) : List UInt8 :=
  units.flatMap (fun unit => Bytes.toLE 2 unit.toNat) ++ [if units.any raisesFlag then 1 else 0]

/-- Add a text behind the bytes of a heap; the text's place, which has to fit a token. -/
def append (text : String) : Encoder Nat := do
  let units := Text.units text.toList
  let size := 2 * units.length + 1
  if 0x100000000 ≤ size then throw (.malformed (.userStringLength units.length))
  else
    let index ← nextPlace
    if 0xFFFFFF < index then throw (.malformed .userStringRange)
    else
      Encoder.compressed size
      Encoder.emit (payload units)
      return index

/-- Whether a heap holds nothing but the empty entry. -/
def isEmpty (heap : UserStringHeap) : Bool := heap.bytes.size ≤ 1

end UserStringHeap

end CilMetadata

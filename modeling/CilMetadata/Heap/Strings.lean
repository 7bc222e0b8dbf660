import CilMetadata.Bytes.Output

/-!
# The strings heap

Texts in UTF-8, each ended by a zero byte; a text is named by the place of its first byte. Place 0
holds the empty text.

* `StringsHeap.get` reads a text, `StringsHeap.append` adds one behind the bytes of a heap;
* `StringsHeap.ofBytes` takes over existing bytes.
-/

namespace CilMetadata

/-- The place behind the bytes of a heap, which has to fit 32 bits. -/
def nextPlace : Encoder Nat := do
  let size ← Encoder.position
  if size < 0x100000000 then return size else throw (.malformed (.heapSize size))

/-- A heap of texts. -/
structure StringsHeap where
  bytes : Array UInt8 := #[0]
  deriving DecidableEq, Repr, Inhabited

namespace StringsHeap

/-- A heap of existing bytes, which have to start with the empty text. -/
def ofBytes (bytes : Array UInt8) : Except Fault StringsHeap :=
  if bytes[0]? = some 0 then .ok { bytes } else .error (.malformed .stringsHeap)

/-- The place of the first zero byte from a place onwards. -/
def zeroFrom? (bytes : Array UInt8) (place : Nat) : Option Nat :=
  if h : place < bytes.size then
    if bytes[place] = 0 then some place else zeroFrom? bytes (place + 1)
  else none
termination_by bytes.size - place

/-- The text at a place. -/
def get (heap : StringsHeap) (index : Nat) : Except Fault String :=
  if heap.bytes.size ≤ index then .error .outOfBounds
  else
    match zeroFrom? heap.bytes index with
    | none => .error (.malformed (.stringEntry index))
    | some stop =>
      match String.fromUTF8? ⟨heap.bytes.extract index stop⟩ with
      | some text => .ok text
      | none => .error (.malformed (.stringEntry index))

/-- Add a text behind the bytes of a heap; the text's place. -/
def append (text : String) : Encoder Nat := do
  if text.isEmpty then return 0
  else if text.toList.contains '\x00' then throw (.malformed (.stringNul text))
  else
    let index ← nextPlace
    Encoder.emitArray text.toByteArray.data
    Encoder.byte 0
    return index

/-- Whether a heap holds nothing but the empty text. -/
def isEmpty (heap : StringsHeap) : Bool := heap.bytes.size ≤ 1

end StringsHeap

end CilMetadata

import CilMetadata.Bytes.Compressed
import CilMetadata.Heap.Strings

/-!
# The blob heap

Runs of bytes, each after its compressed length; a blob is named by the place of its length. Place
0 holds the empty blob.

* `BlobHeap.get?` reads a blob, `BlobHeap.append` adds one behind the bytes of a heap;
* `BlobHeap.next?` is one step through a heap, and `BlobHeap.entries` goes all the way from the
  first place behind the empty blob.
-/

namespace CilMetadata

/-- A heap of byte runs. -/
structure BlobHeap where
  bytes : Array UInt8 := #[0]
  deriving DecidableEq, Repr, Inhabited

namespace BlobHeap

/-- A heap of existing bytes, which have to start with the empty blob. -/
def ofBytes (bytes : Array UInt8) : Except Fault BlobHeap :=
  if bytes[0]? = some 0 then .ok { bytes } else .error (.malformed .blobHeap)

/-- The blob behind the length at a cursor. -/
def entry : Decoder (Array UInt8) := do Decoder.take (← Decoder.compressed)

/-- The blob at a place, if there is one. -/
def get? (heap : BlobHeap) (index : Nat) : Option (Array UInt8) :=
  if index = 0 ∨ heap.bytes.size ≤ index then none
  else
    match entry { bytes := heap.bytes, pos := index } with
    | .ok blob _ => some blob
    | .error _ _ => none

/-- Add a blob behind the bytes of a heap; the blob's place. -/
def append (blob : Array UInt8) : Encoder Nat := do
  if blob.isEmpty then return 0
  else if 0x100000000 ≤ blob.size then throw (.malformed (.blobLength blob.size))
  else
    let index ← nextPlace
    Encoder.compressed blob.size
    Encoder.emitArray blob
    return index

/-- The blob at a place that fits 32 bits, and the place behind it. -/
def next? (heap : BlobHeap) (place : Nat) : Option (Array UInt8 × Nat) :=
  if place < 0x100000000 then
    match heap.get? place, Decoder.compressed { bytes := heap.bytes, pos := place } with
    | some blob, .ok _ behind => some (blob, behind.pos + blob.size)
    | _, _ => none
  else none

/-- The blobs from a place onwards, with their places, up to the first one that is cut off. -/
def entriesFrom (heap : BlobHeap) (place : Nat) : List (Nat × Array UInt8) :=
  match heap.next? place with
  | some (blob, behind) =>
    if place < behind ∧ place < heap.bytes.size then (place, blob) :: heap.entriesFrom behind
    else []
  | none => []
termination_by heap.bytes.size - place

/-- The blobs behind the empty one, with their places. -/
def entries (heap : BlobHeap) : List (Nat × Array UInt8) := heap.entriesFrom 1

/-- Whether a heap holds nothing but the empty blob. -/
def isEmpty (heap : BlobHeap) : Bool := heap.bytes.size ≤ 1

end BlobHeap

end CilMetadata

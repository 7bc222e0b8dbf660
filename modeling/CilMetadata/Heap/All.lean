import CilMetadata.Heap.Blobs
import CilMetadata.Heap.Guids
import CilMetadata.Heap.UserStrings

/-!
# The heaps of a module

* `Heaps` holds the four heaps, and `HeapKind` names them;
* `Heaps.sizeFlags` is the flag byte for heaps whose places need four bytes;
* `Heaps.addString`, `addUserString`, `addBlob`, `addGuid` add an entry behind the bytes of a heap;
* `Heaps.load` takes over existing bytes, and leaves the heaps as they are when it fails.
-/

namespace CilMetadata

/-- The heaps of a module. -/
structure Heaps where
  strings : StringsHeap := {}
  blobs : BlobHeap := {}
  guids : GuidHeap := {}
  userStrings : UserStringHeap := {}
  deriving DecidableEq, Repr, Inhabited

/-- The four heaps. -/
inductive HeapKind
  | strings | blobs | guids | userStrings
  deriving DecidableEq, Repr, Inhabited

/-- The heap with the given name, if there is one. -/
def HeapKind.ofName? : String → Option HeapKind
  | "strings" => some .strings
  | "blobs" => some .blobs
  | "guids" => some .guids
  | "us" => some .userStrings
  | _ => none

/-- A step on the heaps: it changes them, and may fail. -/
abbrev HeapStep := EStateM Fault Heaps

/-- The flags of the heaps whose places need four bytes. -/
def Heaps.sizeFlags (heaps : Heaps) : Nat :=
  (if 0xFFFF < heaps.strings.bytes.size then 1 else 0)
    + (if 0xFFFF < heaps.guids.count then 2 else 0)
    + (if 0xFFFF < heaps.blobs.bytes.size then 4 else 0)

namespace Heaps

/-- The bytes of one of the heaps. -/
def bytes (heaps : Heaps) : HeapKind → Array UInt8
  | .strings => heaps.strings.bytes
  | .blobs => heaps.blobs.bytes
  | .guids => heaps.guids.bytes
  | .userStrings => heaps.userStrings.bytes

/-- Put bytes in the place of those of one of the heaps. -/
def withBytes (heaps : Heaps) : HeapKind → Array UInt8 → Heaps
  | .strings, bytes => { heaps with strings := { bytes } }
  | .blobs, bytes => { heaps with blobs := { bytes } }
  | .guids, bytes => { heaps with guids := { bytes } }
  | .userStrings, bytes => { heaps with userStrings := { bytes } }

/-- Write behind the bytes of one of the heaps. -/
def extend {α : Type} (kind : HeapKind) (write : Encoder α) : HeapStep α := fun heaps =>
  match write (heaps.bytes kind) with
  | .ok a bytes => .ok a (heaps.withBytes kind bytes)
  | .error fault bytes => .error fault (heaps.withBytes kind bytes)

/-- Add a text to the strings heap; its place. -/
def addString (text : String) : HeapStep Nat := extend .strings (StringsHeap.append text)

/-- Add a text to the user string heap; its place. -/
def addUserString (text : String) : HeapStep Nat :=
  extend .userStrings (UserStringHeap.append text)

/-- Add a blob; its place. -/
def addBlob (blob : Array UInt8) : HeapStep Nat := extend .blobs (BlobHeap.append blob)

/-- Add an identifier; its number. -/
def addGuid (guid : Array UInt8) : HeapStep Nat := extend .guids (GuidHeap.append guid)

/-- Take over existing bytes as one of the heaps. -/
def load (kind : HeapKind) (bytes : Array UInt8) : HeapStep Unit := fun heaps =>
  let loaded : Except Fault Heaps := do
    match kind with
    | .strings => return { heaps with strings := ← StringsHeap.ofBytes bytes }
    | .blobs => return { heaps with blobs := ← BlobHeap.ofBytes bytes }
    | .guids => return { heaps with guids := ← GuidHeap.ofBytes bytes }
    | .userStrings => return { heaps with userStrings := ← UserStringHeap.ofBytes bytes }
  match loaded with
  | .ok heaps => .ok () heaps
  | .error fault => .error fault heaps

@[simp] theorem withBytes_bytes (heaps : Heaps) (kind : HeapKind) :
    heaps.withBytes kind (heaps.bytes kind) = heaps := by
  cases kind <;> rfl

@[simp] theorem bytes_withBytes_self (heaps : Heaps) (kind : HeapKind) (bytes : Array UInt8) :
    (heaps.withBytes kind bytes).bytes kind = bytes := by
  cases kind <;> rfl

theorem bytes_withBytes_of_ne (heaps : Heaps) {kind other : HeapKind} (bytes : Array UInt8)
    (h : other ≠ kind) : (heaps.withBytes kind bytes).bytes other = heaps.bytes other := by
  cases kind <;> cases other <;> first | rfl | exact absurd rfl h

end Heaps

end CilMetadata

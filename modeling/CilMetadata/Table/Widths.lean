import CilMetadata.Table.CodedIndex

/-!
# Column widths

An index column takes two or four bytes, depending on how much it has to tell apart: the rows of a
table, the rows of all candidate tables of a coded index, or the size of a heap.

* `Widths` holds the row counts, the three heap flags and a flag for each kind of coded index, which
  is found out once;
* `Widths.isWide` and `Widths.isWideCoded` decide on four bytes.
-/

namespace CilMetadata

/-- What the widths of index columns depend on. -/
structure Widths where
  rows : TableKind → Nat
  wideStrings : Bool
  wideGuids : Bool
  wideBlobs : Bool
  /-- Which kinds of coded index take four bytes, in the order of all kinds. -/
  wideKinds : Array Bool := (CodedKind.all.map (·.isWide rows)).toArray

namespace Widths

/-- The widths for given row counts and the flag byte for the sizes of the heaps. -/
def ofFlags (rows : TableKind → Nat) (heapFlags : Nat) : Widths where
  rows := rows
  wideStrings := heapFlags.testBit 0
  wideGuids := heapFlags.testBit 1
  wideBlobs := heapFlags.testBit 2

/-- Whether an index into a table takes four bytes. -/
def isWide (w : Widths) (table : TableKind) : Bool := decide (0xFFFF < w.rows table)

/-- Whether a coded index takes four bytes. -/
def isWideCoded (w : Widths) (kind : CodedKind) : Bool := w.wideKinds.getD kind.ctorIdx false

end Widths

/-- The size in bytes of an index. -/
def indexBytes (large : Bool) : Nat := if large then 4 else 2

end CilMetadata

import CilMetadata.Relocation.Basic
import CilMetadata.Table.Store

/-!
# Row buffers

A buffer collects the rows of one table. A flush puts them in the place of the rows of the table
and empties the buffer; it tells where the tokens that were handed out have gone.

* `RowBuffer.add`, `get?`, `set`, `clear` edit a buffer;
* `RowBuffer.flush` appends rows in the order of insertion, or sorts them first; rows with equal
  keys stay in the order of insertion.
-/

namespace CilMetadata

/-- How the rows of a buffer are ordered by a flush. -/
inductive FlushOrder
  | insertion | sortKey
  deriving DecidableEq, Repr, Inhabited

/-- A row in a buffer, under the number that it was handed out with. -/
structure BufferedRow (kind : RowKind) where
  row : Row kind
  /-- The number of the row in the module it comes from, or 0. -/
  sourceRid : Nat

/-- A buffer of rows, in the order of insertion. -/
structure RowBuffer (kind : RowKind) where
  order : FlushOrder
  entries : Array (BufferedRow kind) := #[]

namespace RowBuffer

variable {kind : RowKind}

/-- Add a row; the buffer and the row's token. -/
def add (buffer : RowBuffer kind) (row : Row kind) (sourceRid : Nat) :
    RowBuffer kind × Token :=
  let rid := buffer.entries.size + 1
  let entry := { row := { row with rid }, sourceRid }
  ({ buffer with entries := buffer.entries.push entry }, Token.ofRow kind.table rid)

/-- The row with a number. -/
def get? (buffer : RowBuffer kind) (rid : Nat) : Option (Row kind) :=
  if rid = 0 then none else buffer.entries[rid - 1]?.map BufferedRow.row

/-- Put a row in the place of an earlier one; the buffer and the earlier row. -/
def set (buffer : RowBuffer kind) (rid : Nat) (row : Row kind) :
    RowBuffer kind × Option (Row kind) :=
  match buffer.get? rid with
  | none => (buffer, none)
  | some previous =>
    let replaced := buffer.entries.modify (rid - 1) fun entry =>
      { entry with row := { row with rid } }
    ({ buffer with entries := replaced }, some previous)

/-- Drop all rows. -/
def clear (buffer : RowBuffer kind) : RowBuffer kind := { buffer with entries := #[] }

/-- The rows in the order in which a flush writes them. -/
def ordered (buffer : RowBuffer kind) : List (BufferedRow kind) :=
  match buffer.order with
  | .insertion => buffer.entries.toList
  | .sortKey => buffer.entries.toList.mergeSort fun a b => a.row.comesBefore b.row

/-- Where the tokens of rows go that get the numbers from `rid` on, added to what is known. -/
def relocationFrom : (rid : Nat) → List (BufferedRow kind) → Relocation → Relocation
  | _, [], known => known
  | rid, entry :: rest, known =>
    let final := Token.ofRow kind.table rid
    let issued := known.issued.insert entry.row.token final
    let source :=
      if entry.sourceRid = 0 then known.source
      else known.source.insert (Token.ofRow kind.table entry.sourceRid) final
    relocationFrom (rid + 1) rest { issued, source }

/-- Replace the rows of the table by those of the buffer and empty it. -/
def flush (buffer : RowBuffer kind) (tables : Tables) : RowBuffer kind × Tables × Relocation :=
  let rows := buffer.ordered
  (buffer.clear, tables.set kind (RowArray.ofList (rows.map BufferedRow.row)),
    relocationFrom 1 rows {})

end RowBuffer

end CilMetadata

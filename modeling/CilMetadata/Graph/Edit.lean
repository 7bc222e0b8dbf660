import CilMetadata.Graph.Basic
import CilMetadata.Relocation.Buffer

/-!
# Changing a module

The tables of a graph change by single rows and by the flush of whole buffers. What has been kept
of members is dropped as far as the change says: of one member, of all, or of none.

* `replaceRow` drops what has been kept of the member of the row;
* `flush` drops everything that has been kept, `flushTables` nothing.
-/

namespace CilMetadata.Graph

variable {kind : RowKind}

/-- Put a row in the place of an existing one and drop what has been kept of its member; the
previous row. -/
def replaceRow (rid : Nat) (row : Row kind) : GraphM (Option (Row kind)) := do
  match (← get).tables.replace rid row with
  | (tables, some previous) =>
    modify fun g => { g with tables, slots := g.slots.erase (Token.ofRow kind.table rid) }
    return some previous
  | (_, none) => return none

/-- Flush a buffer into the tables, whatever has been kept; the empty buffer and where tokens have
gone. -/
def flushTables (buffer : RowBuffer kind) : GraphM (RowBuffer kind × Relocation) := do
  let (buffer, tables, moves) := buffer.flush (← get).tables
  modify fun g => { g with tables }
  return (buffer, moves)

/-- Flush a buffer into the tables and drop everything that has been kept. -/
def flush (buffer : RowBuffer kind) : GraphM (RowBuffer kind × Relocation) := do
  let flushed ← flushTables buffer
  modify clearKept
  return flushed

end CilMetadata.Graph

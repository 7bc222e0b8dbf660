import CilMetadata.Table.Row

/-!
# Stored tables

The rows of a module. Rows are numbered from 1, and a stored row knows its number. Of tables
without a layout only the row count is kept.

* `RowArray` is the operations on the rows of one table: `push`, `replace`, `row?`, `read`, `write`;
* `Tables` holds all tables, and `Tables.count` is the row count of any of them;
* `Tables.validate` looks for the first reference past the end of its table.
-/

namespace CilMetadata

/-- The rows of one table, in the order of their numbers. -/
abbrev RowArray (kind : RowKind) := Array (Row kind)

namespace RowArray

/-- The row with a number, counted from 1. -/
def row? {kind : RowKind} (rows : RowArray kind) (rid : Nat) : Option (Row kind) :=
  if rid = 0 then none else rows[rid - 1]?

theorem row?_succ {kind : RowKind} (rows : RowArray kind) (place : Nat) :
    rows.row? (place + 1) = rows[place]? := by
  simp [row?]

/-- Append a row under the next number. -/
def append {kind : RowKind} (rows : RowArray kind) (row : Row kind) : RowArray kind :=
  rows.push { row with rid := rows.size + 1 }

/-- Put a row in the place of an existing one; it takes over the number. -/
def replace {kind : RowKind} (rows : RowArray kind) (rid : Nat) (row : Row kind) :
    RowArray kind :=
  if rid = 0 then rows else rows.setIfInBounds (rid - 1) { row with rid }

theorem replace_succ {kind : RowKind} (rows : RowArray kind) (place : Nat) (row : Row kind) :
    rows.replace (place + 1) row = rows.setIfInBounds place { row with rid := place + 1 } := by
  simp [replace]

/-- Rows in order, numbered from 1. -/
def ofList {kind : RowKind} (rows : List (Row kind)) : RowArray kind :=
  rows.foldl append #[]

/-- Read `n` rows, the first of which has the number `rid`. -/
def readFrom (w : Widths) (kind : RowKind) : (n rid : Nat) → Decoder (List (Row kind))
  | 0, _ => return []
  | n + 1, rid => do
    let cells ← Cells.read w kind.columns
    return { rid, cells } :: (← readFrom w kind n (rid + 1))

/-- Read a table of `n` rows from the start of some bytes. -/
def read? (w : Widths) (kind : RowKind) (n : Nat) (bytes : Array UInt8) :
    Except Fault (RowArray kind) :=
  return (← (readFrom w kind n 1).value? bytes).toArray

/-- Write the rows one after the other. -/
def write? (w : Widths) {kind : RowKind} (rows : RowArray kind) : Except Fault (Array UInt8) :=
  (Encoder.each (fun row : Row kind => Cells.write w kind.columns row.cells) rows.toList).bytes?

/-- Change the tokens in the coded columns of the row with a number. -/
def mapTokensAt (f : Token → Token) {kind : RowKind} (rows : RowArray kind) (rid : Nat) :
    RowArray kind :=
  match rows.row? rid with
  | some row => rows.replace rid (row.mapTokens f)
  | none => rows

/-- Change the tokens in the coded columns of every row, one row after the other. -/
def mapTokens (f : Token → Token) {kind : RowKind} (rows : RowArray kind) : RowArray kind :=
  (List.range' 1 rows.size).foldl (mapTokensAt f) rows

end RowArray

/-- The tables of a module: rows where there is a layout, otherwise row counts. -/
structure Tables where
  typeRef : RowArray .typeRef := #[]
  typeDef : RowArray .typeDef := #[]
  field : RowArray .field := #[]
  methodDef : RowArray .methodDef := #[]
  interfaceImpl : RowArray .interfaceImpl := #[]
  memberRef : RowArray .memberRef := #[]
  declSecurity : RowArray .declSecurity := #[]
  standAloneSig : RowArray .standAloneSig := #[]
  eventMap : RowArray .eventMap := #[]
  event : RowArray .event := #[]
  propertyPtr : RowArray .propertyPtr := #[]
  property : RowArray .property := #[]
  methodImpl : RowArray .methodImpl := #[]
  typeSpec : RowArray .typeSpec := #[]
  exportedType : RowArray .exportedType := #[]
  nestedClass : RowArray .nestedClass := #[]
  genericParam : RowArray .genericParam := #[]
  methodSpec : RowArray .methodSpec := #[]
  external : TableKind → Nat := fun _ => 0

namespace Tables

/-- The rows of one table. -/
def rows (tables : Tables) : (kind : RowKind) → RowArray kind
  | .typeRef => tables.typeRef
  | .typeDef => tables.typeDef
  | .field => tables.field
  | .methodDef => tables.methodDef
  | .interfaceImpl => tables.interfaceImpl
  | .memberRef => tables.memberRef
  | .declSecurity => tables.declSecurity
  | .standAloneSig => tables.standAloneSig
  | .eventMap => tables.eventMap
  | .event => tables.event
  | .propertyPtr => tables.propertyPtr
  | .property => tables.property
  | .methodImpl => tables.methodImpl
  | .typeSpec => tables.typeSpec
  | .exportedType => tables.exportedType
  | .nestedClass => tables.nestedClass
  | .genericParam => tables.genericParam
  | .methodSpec => tables.methodSpec

/-- Put rows in the place of the rows of one table. -/
def set (tables : Tables) : (kind : RowKind) → RowArray kind → Tables
  | .typeRef, rows => { tables with typeRef := rows }
  | .typeDef, rows => { tables with typeDef := rows }
  | .field, rows => { tables with field := rows }
  | .methodDef, rows => { tables with methodDef := rows }
  | .interfaceImpl, rows => { tables with interfaceImpl := rows }
  | .memberRef, rows => { tables with memberRef := rows }
  | .declSecurity, rows => { tables with declSecurity := rows }
  | .standAloneSig, rows => { tables with standAloneSig := rows }
  | .eventMap, rows => { tables with eventMap := rows }
  | .event, rows => { tables with event := rows }
  | .propertyPtr, rows => { tables with propertyPtr := rows }
  | .property, rows => { tables with property := rows }
  | .methodImpl, rows => { tables with methodImpl := rows }
  | .typeSpec, rows => { tables with typeSpec := rows }
  | .exportedType, rows => { tables with exportedType := rows }
  | .nestedClass, rows => { tables with nestedClass := rows }
  | .genericParam, rows => { tables with genericParam := rows }
  | .methodSpec, rows => { tables with methodSpec := rows }

/-- Change the rows of every table. -/
def map (f : (kind : RowKind) → RowArray kind → RowArray kind) (tables : Tables) : Tables where
  typeRef := f .typeRef tables.typeRef
  typeDef := f .typeDef tables.typeDef
  field := f .field tables.field
  methodDef := f .methodDef tables.methodDef
  interfaceImpl := f .interfaceImpl tables.interfaceImpl
  memberRef := f .memberRef tables.memberRef
  declSecurity := f .declSecurity tables.declSecurity
  standAloneSig := f .standAloneSig tables.standAloneSig
  eventMap := f .eventMap tables.eventMap
  event := f .event tables.event
  propertyPtr := f .propertyPtr tables.propertyPtr
  property := f .property tables.property
  methodImpl := f .methodImpl tables.methodImpl
  typeSpec := f .typeSpec tables.typeSpec
  exportedType := f .exportedType tables.exportedType
  nestedClass := f .nestedClass tables.nestedClass
  genericParam := f .genericParam tables.genericParam
  methodSpec := f .methodSpec tables.methodSpec
  external := tables.external

@[simp] theorem rows_set_self (tables : Tables) (kind : RowKind) (rows : RowArray kind) :
    (tables.set kind rows).rows kind = rows := by
  cases kind <;> rfl

theorem rows_set_of_ne (tables : Tables) {kind other : RowKind} (stored : RowArray kind)
    (h : other ≠ kind) : (tables.set kind stored).rows other = tables.rows other := by
  cases kind <;> cases other <;> simp_all [set, rows]

@[simp] theorem external_set (tables : Tables) (kind : RowKind) (rows : RowArray kind) :
    (tables.set kind rows).external = tables.external := by
  cases kind <;> rfl

@[simp] theorem rows_map (f : (kind : RowKind) → RowArray kind → RowArray kind)
    (tables : Tables) (kind : RowKind) : (tables.map f).rows kind = f kind (tables.rows kind) := by
  cases kind <;> rfl

/-- Announce the row count of a table; it counts only where there is no layout. -/
def setExternal (tables : Tables) (table : TableKind) (count : Nat) : Tables :=
  { tables with
    external := fun other => if other = table then count else tables.external other }

/-- The row count of a table. -/
def count (tables : Tables) (table : TableKind) : Nat :=
  match RowKind.ofTable? table with
  | some kind => (tables.rows kind).size
  | none => tables.external table

/-- The row of a table with a number. -/
def row? (tables : Tables) (kind : RowKind) (rid : Nat) : Option (Row kind) :=
  (tables.rows kind).row? rid

/-- The row that a token of the table names. -/
def rowOf? (tables : Tables) (kind : RowKind) (token : Token) : Option (Row kind) :=
  if token.isIn kind.table then tables.row? kind token.row else none

/-- Whether a token names an existing row. -/
def contains (tables : Tables) (token : Token) : Bool :=
  match token.decode with
  | some (table, row) => row != 0 && row ≤ tables.count table
  | none => false

/-- Append a row; the tables and the row's token. -/
def push (tables : Tables) {kind : RowKind} (row : Row kind) : Tables × Token :=
  let rows := (tables.rows kind).append row
  (tables.set kind rows, Token.ofRow kind.table rows.size)

/-- Put a row in the place of an existing one; the tables and the previous row. -/
def replace (tables : Tables) {kind : RowKind} (rid : Nat) (row : Row kind) :
    Tables × Option (Row kind) :=
  match tables.row? kind rid with
  | some previous => (tables.set kind ((tables.rows kind).replace rid row), some previous)
  | none => (tables, none)

/-- The widths of columns for the current row counts. -/
def widths (tables : Tables) (heapFlags : Nat) : Widths := Widths.ofFlags tables.count heapFlags

/-- The tokens in the coded columns of all rows, in the order in which they are checked. -/
def references (tables : Tables) : List Token :=
  tables.typeRef.toList.map Row.typeRefScope
    ++ tables.typeDef.toList.map Row.typeDefExtends
    ++ tables.interfaceImpl.toList.map Row.implementedInterface
    ++ tables.memberRef.toList.map Row.memberRefParent
    ++ tables.declSecurity.toList.map Row.securityParent
    ++ tables.methodImpl.toList.flatMap (fun row => [row.overrideBody, row.overrideDeclaration])
    ++ tables.exportedType.toList.map Row.exportedImplementation
    ++ tables.event.toList.map Row.eventType
    ++ tables.genericParam.toList.map Row.genericOwner
    ++ tables.methodSpec.toList.map Row.methodSpecMethod

/-- The fault of a token whose row lies past the end of its table. -/
def dangling? (tables : Tables) (token : Token) : Option Fault :=
  match token.decode with
  | some (table, row) =>
    if tables.count table < row then some (.rowOutOfRange table row (tables.count table))
    else none
  | none => none

/-- Check every coded column; the first reference past the end of its table is reported. -/
def validate (tables : Tables) : Except Fault Unit :=
  match tables.references.findSome? tables.dangling? with
  | some fault => .error fault
  | none => .ok ()

/-- Change the tokens in the coded columns of all rows. -/
def mapTokens (f : Token → Token) (tables : Tables) : Tables :=
  tables.map fun _ rows => rows.mapTokens f

end Tables

end CilMetadata

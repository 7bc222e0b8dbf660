import CilMetadata.Bytes.Cursor
import CilMetadata.Bytes.Output
import CilMetadata.Table.Layout
import CilMetadata.Table.Widths

/-!
# Rows

A row is a row number and one cell per column of its layout.

* `Cells.read` and `Cells.write` go through the columns from left to right, and `Cells.size` adds
  up their widths;
* `Row.references` lists the tokens in coded columns, `Row.mapTokens` changes them;
* `Row.sortKey` is the key by which the rows of a sorted table are ordered.
-/

namespace CilMetadata

/-! ### Single cells -/

namespace ColumnType

/-- Whether a column takes four bytes. -/
def isWide (w : Widths) : ColumnType → Bool
  | .u16 => false
  | .u32 => true
  | .string => w.wideStrings
  | .blob => w.wideBlobs
  | .row table => w.isWide table
  | .coded kind => w.isWideCoded kind

/-- How many bytes a column takes. -/
def size (w : Widths) (type : ColumnType) : Nat := indexBytes (type.isWide w)

/-- The cell that a number stands for; of a coded column the token's own number. -/
def ofNat : (type : ColumnType) → Nat → type.Cell
  | .u16, n => UInt16.ofNat n
  | .u32, n | .string, n | .blob, n | .row _, n => UInt32.ofNat n
  | .coded _, n => (⟨UInt32.ofNat n⟩ : Token)

/-- The number that a cell is shown as. -/
def toNat : (type : ColumnType) → type.Cell → Nat
  | .u16, (cell : UInt16) => cell.toNat
  | .u32, (cell : UInt32) | .string, cell | .blob, cell | .row _, cell => cell.toNat
  | .coded _, (cell : Token) => cell.value.toNat

/-- Read a cell; a reference to nothing becomes the null token. -/
def read (w : Widths) : (type : ColumnType) → Decoder type.Cell
  | .u16 => return UInt16.ofNat (← Decoder.column false)
  | .u32 => return UInt32.ofNat (← Decoder.column true)
  | .string => return UInt32.ofNat (← Decoder.column w.wideStrings)
  | .blob => return UInt32.ofNat (← Decoder.column w.wideBlobs)
  | .row table => return UInt32.ofNat (← Decoder.column (w.isWide table))
  | .coded kind => do
    match kind.decode (← Decoder.column (w.isWideCoded kind)) with
    | .ok token => return token.getD .null
    | .error fault => throw fault

/-- Write a cell in the width of its column. -/
def write (w : Widths) : (type : ColumnType) → type.Cell → Encoder Unit
  | .u16, (cell : UInt16) => Encoder.column false cell.toNat
  | .u32, (cell : UInt32) => Encoder.column true cell.toNat
  | .string, (cell : UInt32) => Encoder.column w.wideStrings cell.toNat
  | .blob, (cell : UInt32) => Encoder.column w.wideBlobs cell.toNat
  | .row table, (cell : UInt32) => Encoder.column (w.isWide table) cell.toNat
  | .coded kind, (cell : Token) =>
    match kind.encode cell with
    | .ok value => Encoder.column (w.isWideCoded kind) value
    | .error fault => throw fault

/-- The token of a coded cell, if the column is coded. -/
def token? : (type : ColumnType) → type.Cell → Option Token
  | .coded _, (cell : Token) => some cell
  | .u16, _ | .u32, _ | .string, _ | .blob, _ | .row _, _ => none

/-- Change the token of a coded cell; other cells stay as they are. -/
def mapToken (f : Token → Token) : (type : ColumnType) → type.Cell → type.Cell
  | .coded _, (cell : Token) => f cell
  | .u16, cell | .u32, cell | .string, cell | .blob, cell | .row _, cell => cell

end ColumnType

/-! ### The cells of a row -/

/-- One cell per column. -/
def Cells : List Column → Type
  | [] => Unit
  | column :: rest => column.type.Cell × Cells rest

namespace Cells

/-- How many bytes the cells of a row take. -/
def size (w : Widths) : List Column → Nat
  | [] => 0
  | column :: rest => column.type.size w + size w rest

/-- Read the cells from left to right. -/
def read (w : Widths) : (columns : List Column) → Decoder (Cells columns)
  | [] => return ()
  | column :: rest => return (← column.type.read w, ← read w rest)

/-- Write the cells from left to right. -/
def write (w : Widths) : (columns : List Column) → Cells columns → Encoder Unit
  | [], _ => return ()
  | column :: rest, (cell, cells) => do
    column.type.write w cell
    write w rest cells

/-- The tokens in coded columns, from left to right. -/
def tokens : (columns : List Column) → Cells columns → List Token
  | [], _ => []
  | column :: rest, (cell, cells) => (column.type.token? cell).toList ++ tokens rest cells

/-- Change the tokens in coded columns. -/
def mapTokens (f : Token → Token) : (columns : List Column) → Cells columns → Cells columns
  | [], _ => ()
  | column :: rest, (cell, cells) => (column.type.mapToken f cell, mapTokens f rest cells)

/-- The cells that numbers, looked up by column name, stand for. -/
def ofNames (value : String → Nat) : (columns : List Column) → Cells columns
  | [] => ()
  | column :: rest => (column.type.ofNat (value column.name), ofNames value rest)

/-- The column names with the numbers that the cells are shown as. -/
def toNames : (columns : List Column) → Cells columns → List (String × Nat)
  | [], _ => []
  | column :: rest, (cell, cells) =>
    (column.name, column.type.toNat cell) :: toNames rest cells

end Cells

/-! ### Rows -/

/-- A row of a table with a layout. -/
structure Row (kind : RowKind) where
  rid : Nat
  cells : Cells kind.columns

namespace Row

/-- The token of a row. -/
def token {kind : RowKind} (row : Row kind) : Token := Token.ofRow kind.table row.rid

/-- A row from numbers that are looked up by column name. -/
def ofNames (kind : RowKind) (value : String → Nat) : Row kind :=
  { rid := 0, cells := Cells.ofNames value kind.columns }

/-- The column names with the numbers of a row. -/
def toNames {kind : RowKind} (row : Row kind) : List (String × Nat) :=
  Cells.toNames kind.columns row.cells

/-- The tokens in the coded columns of a row, from left to right. -/
def references {kind : RowKind} (row : Row kind) : List Token :=
  Cells.tokens kind.columns row.cells

/-- Change the tokens in the coded columns of a row. -/
def mapTokens (f : Token → Token) {kind : RowKind} (row : Row kind) : Row kind :=
  { row with cells := Cells.mapTokens f kind.columns row.cells }

end Row

/-! ### Columns by name -/

namespace Row

def typeRefScope (row : Row .typeRef) : Token := row.cells.1
def typeRefName (row : Row .typeRef) : UInt32 := row.cells.2.1
def typeRefNamespace (row : Row .typeRef) : UInt32 := row.cells.2.2.1
def typeDefName (row : Row .typeDef) : UInt32 := row.cells.2.1
def typeDefNamespace (row : Row .typeDef) : UInt32 := row.cells.2.2.1
def typeDefExtends (row : Row .typeDef) : Token := row.cells.2.2.2.1
def typeDefFields (row : Row .typeDef) : UInt32 := row.cells.2.2.2.2.1
def typeDefMethods (row : Row .typeDef) : UInt32 := row.cells.2.2.2.2.2.1
def fieldName (row : Row .field) : UInt32 := row.cells.2.1
def fieldSignature (row : Row .field) : UInt32 := row.cells.2.2.1
def methodRva (row : Row .methodDef) : UInt32 := row.cells.1
def methodName (row : Row .methodDef) : UInt32 := row.cells.2.2.2.1
def methodSignature (row : Row .methodDef) : UInt32 := row.cells.2.2.2.2.1
def implementationClass (row : Row .interfaceImpl) : UInt32 := row.cells.1
def implementedInterface (row : Row .interfaceImpl) : Token := row.cells.2.1
def memberRefParent (row : Row .memberRef) : Token := row.cells.1
def memberRefName (row : Row .memberRef) : UInt32 := row.cells.2.1
def memberRefSignature (row : Row .memberRef) : UInt32 := row.cells.2.2.1
def securityAction (row : Row .declSecurity) : UInt16 := row.cells.1
def securityParent (row : Row .declSecurity) : Token := row.cells.2.1
def permissionSet (row : Row .declSecurity) : UInt32 := row.cells.2.2.1
def standAloneSignature (row : Row .standAloneSig) : UInt32 := row.cells.1
def eventMapParent (row : Row .eventMap) : UInt32 := row.cells.1
def eventMapEvents (row : Row .eventMap) : UInt32 := row.cells.2.1
def eventName (row : Row .event) : UInt32 := row.cells.2.1
def eventType (row : Row .event) : Token := row.cells.2.2.1
def propertyName (row : Row .property) : UInt32 := row.cells.2.1
def propertySignature (row : Row .property) : UInt32 := row.cells.2.2.1
def overrideClass (row : Row .methodImpl) : UInt32 := row.cells.1
def overrideBody (row : Row .methodImpl) : Token := row.cells.2.1
def overrideDeclaration (row : Row .methodImpl) : Token := row.cells.2.2.1
def typeSpecSignature (row : Row .typeSpec) : UInt32 := row.cells.1
def exportedFlags (row : Row .exportedType) : UInt32 := row.cells.1
def exportedName (row : Row .exportedType) : UInt32 := row.cells.2.2.1
def exportedNamespace (row : Row .exportedType) : UInt32 := row.cells.2.2.2.1
def exportedImplementation (row : Row .exportedType) : Token := row.cells.2.2.2.2.1
def nestedClass (row : Row .nestedClass) : UInt32 := row.cells.1
def enclosingClass (row : Row .nestedClass) : UInt32 := row.cells.2.1
def genericNumber (row : Row .genericParam) : UInt16 := row.cells.1
def genericOwner (row : Row .genericParam) : Token := row.cells.2.2.1
def genericName (row : Row .genericParam) : UInt32 := row.cells.2.2.2.1
def methodSpecMethod (row : Row .methodSpec) : Token := row.cells.1
def methodSpecArguments (row : Row .methodSpec) : UInt32 := row.cells.2.1

end Row

/-! ### Order of sorted tables -/

/-- The coded value of an owner; an owner that the kind cannot code comes last. -/
def ownerKey (kind : CodedKind) (owner : Token) : Nat :=
  match kind.encode owner with
  | .ok value => value
  | .error _ => 0xFFFFFFFF

/-- The key by which the rows of a sorted table are ordered, compared from left to right. -/
def Row.sortKey : {kind : RowKind} → Row kind → Nat × Nat
  | .interfaceImpl, row => (row.implementationClass.toNat, 0)
  | .methodImpl, row => (row.overrideClass.toNat, 0)
  | .nestedClass, row => (row.nestedClass.toNat, 0)
  | .declSecurity, row => (ownerKey .hasDeclSecurity row.securityParent, 0)
  | .genericParam, row => (ownerKey .typeOrMethodDef row.genericOwner, row.genericNumber.toNat)
  | _, _ => (0, 0)

/-- Whether a row may stand before another one in a sorted table. -/
def Row.comesBefore {kind : RowKind} (a b : Row kind) : Bool :=
  decide (a.sortKey.1 < b.sortKey.1)
    || (a.sortKey.1 == b.sortKey.1 && decide (a.sortKey.2 ≤ b.sortKey.2))

end CilMetadata

import CilMetadata.Table.CodedKind
import CilMetadata.Token

/-!
# Row layouts

Eighteen of the tables have rows that this library knows column by column. A layout is a list of
named columns; sizes, reading and writing of rows all follow from it.

* `ColumnType` is what a column holds, `ColumnType.Cell` the values it takes;
* `RowKind` names the tables with a layout, `RowKind.columns` is the layout.
-/

namespace CilMetadata

/-- What a column holds. -/
inductive ColumnType
  | u16
  | u32
  /-- A place in the strings heap. -/
  | string
  /-- A place in the blob heap. -/
  | blob
  /-- A row of one table. -/
  | row (table : TableKind)
  /-- A row of one of several tables. -/
  | coded (kind : CodedKind)
  deriving DecidableEq, Repr, Inhabited

/-- The values of a column: a token where the table varies, otherwise a number. -/
abbrev ColumnType.Cell : ColumnType → Type
  | .u16 => UInt16
  | .coded _ => Token
  | .u32 | .string | .blob | .row _ => UInt32

/-- A named column. -/
structure Column where
  name : String
  type : ColumnType
  deriving DecidableEq, Repr, Inhabited

/-- A table whose rows have a layout. -/
inductive RowKind
  | typeRef | typeDef | field | methodDef | interfaceImpl | memberRef | declSecurity
  | standAloneSig | eventMap | event | propertyPtr | property | methodImpl | typeSpec
  | exportedType | nestedClass | genericParam | methodSpec
  deriving DecidableEq, Repr, Inhabited

namespace RowKind

/-- Every table with a layout, in the order of the table numbers. -/
def all : List RowKind :=
  [.typeRef, .typeDef, .field, .methodDef, .interfaceImpl, .memberRef, .declSecurity,
   .standAloneSig, .eventMap, .event, .propertyPtr, .property, .methodImpl, .typeSpec,
   .exportedType, .nestedClass, .genericParam, .methodSpec]

/-- The table that a kind of row belongs to. -/
def table : RowKind → TableKind
  | .typeRef => .typeRef
  | .typeDef => .typeDef
  | .field => .field
  | .methodDef => .methodDef
  | .interfaceImpl => .interfaceImpl
  | .memberRef => .memberRef
  | .declSecurity => .declSecurity
  | .standAloneSig => .standAloneSig
  | .eventMap => .eventMap
  | .event => .event
  | .propertyPtr => .propertyPtr
  | .property => .property
  | .methodImpl => .methodImpl
  | .typeSpec => .typeSpec
  | .exportedType => .exportedType
  | .nestedClass => .nestedClass
  | .genericParam => .genericParam
  | .methodSpec => .methodSpec

/-- The kind of row of a table, if the table has a layout. -/
def ofTable? : TableKind → Option RowKind
  | .typeRef => some .typeRef
  | .typeDef => some .typeDef
  | .field => some .field
  | .methodDef => some .methodDef
  | .interfaceImpl => some .interfaceImpl
  | .memberRef => some .memberRef
  | .declSecurity => some .declSecurity
  | .standAloneSig => some .standAloneSig
  | .eventMap => some .eventMap
  | .event => some .event
  | .propertyPtr => some .propertyPtr
  | .property => some .property
  | .methodImpl => some .methodImpl
  | .typeSpec => some .typeSpec
  | .exportedType => some .exportedType
  | .nestedClass => some .nestedClass
  | .genericParam => some .genericParam
  | .methodSpec => some .methodSpec
  | _ => none

@[simp] theorem ofTable?_table (kind : RowKind) : ofTable? kind.table = some kind := by
  cases kind <;> rfl

/-- The columns of a kind of row. -/
def columns : RowKind → List Column
  | .typeRef =>
    [⟨"resolution_scope", .coded .resolutionScope⟩, ⟨"type_name", .string⟩,
     ⟨"type_namespace", .string⟩]
  | .typeDef =>
    [⟨"flags", .u32⟩, ⟨"type_name", .string⟩, ⟨"type_namespace", .string⟩,
     ⟨"extends", .coded .typeDefOrRef⟩, ⟨"field_list", .row .field⟩,
     ⟨"method_list", .row .methodDef⟩]
  | .field => [⟨"flags", .u16⟩, ⟨"name", .string⟩, ⟨"signature", .blob⟩]
  | .methodDef =>
    [⟨"rva", .u32⟩, ⟨"impl_flags", .u16⟩, ⟨"flags", .u16⟩, ⟨"name", .string⟩,
     ⟨"signature", .blob⟩, ⟨"param_list", .row .param⟩]
  | .interfaceImpl => [⟨"class", .row .typeDef⟩, ⟨"interface", .coded .typeDefOrRef⟩]
  | .memberRef => [⟨"class", .coded .memberRefParent⟩, ⟨"name", .string⟩, ⟨"signature", .blob⟩]
  | .declSecurity =>
    [⟨"action", .u16⟩, ⟨"parent", .coded .hasDeclSecurity⟩, ⟨"permission_set", .blob⟩]
  | .standAloneSig => [⟨"signature", .blob⟩]
  | .eventMap => [⟨"parent", .row .typeDef⟩, ⟨"event_list", .row .event⟩]
  | .event => [⟨"flags", .u16⟩, ⟨"name", .string⟩, ⟨"event_type", .coded .typeDefOrRef⟩]
  | .propertyPtr => [⟨"property", .row .property⟩]
  | .property => [⟨"flags", .u16⟩, ⟨"name", .string⟩, ⟨"signature", .blob⟩]
  | .methodImpl =>
    [⟨"class", .row .typeDef⟩, ⟨"method_body", .coded .methodDefOrRef⟩,
     ⟨"method_declaration", .coded .methodDefOrRef⟩]
  | .typeSpec => [⟨"signature", .blob⟩]
  | .exportedType =>
    [⟨"flags", .u32⟩, ⟨"type_def_id", .u32⟩, ⟨"type_name", .string⟩, ⟨"type_namespace", .string⟩,
     ⟨"implementation", .coded .implementation⟩]
  | .nestedClass => [⟨"nested_class", .row .typeDef⟩, ⟨"enclosing_class", .row .typeDef⟩]
  | .genericParam =>
    [⟨"number", .u16⟩, ⟨"flags", .u16⟩, ⟨"owner", .coded .typeOrMethodDef⟩, ⟨"name", .string⟩]
  | .methodSpec => [⟨"method", .coded .methodDefOrRef⟩, ⟨"instantiation", .blob⟩]

end RowKind

end CilMetadata

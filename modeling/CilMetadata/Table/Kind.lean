/-!
# Metadata tables

The 45 tables of the metadata stream, numbered from 0 in the order of their constructors.

* `TableKind.code` is the table number, which is also the high byte of a token;
* `TableKind.ofCode?` reads a number back, and `ofCode?_code` says that nothing is lost;
* `TableKind.isSorted` marks the tables whose rows have to be ordered by a key column.
-/

namespace CilMetadata

/-- A kind of metadata table. -/
inductive TableKind
  | module | typeRef | typeDef | fieldPtr | field | methodPtr | methodDef | paramPtr | param
  | interfaceImpl | memberRef | constant | customAttribute | fieldMarshal | declSecurity
  | classLayout | fieldLayout | standAloneSig | eventMap | eventPtr | event | propertyMap
  | propertyPtr | property | methodSemantics | methodImpl | moduleRef | typeSpec | implMap
  | fieldRVA | encLog | encMap | assembly | assemblyProcessor | assemblyOS | assemblyRef
  | assemblyRefProcessor | assemblyRefOS | file | exportedType | manifestResource | nestedClass
  | genericParam | methodSpec | genericParamConstraint
  deriving DecidableEq, Repr, Inhabited, Hashable

namespace TableKind

/-- Every table, in the order of the table numbers. -/
def all : List TableKind :=
  [.module, .typeRef, .typeDef, .fieldPtr, .field, .methodPtr, .methodDef, .paramPtr, .param,
   .interfaceImpl, .memberRef, .constant, .customAttribute, .fieldMarshal, .declSecurity,
   .classLayout, .fieldLayout, .standAloneSig, .eventMap, .eventPtr, .event, .propertyMap,
   .propertyPtr, .property, .methodSemantics, .methodImpl, .moduleRef, .typeSpec, .implMap,
   .fieldRVA, .encLog, .encMap, .assembly, .assemblyProcessor, .assemblyOS, .assemblyRef,
   .assemblyRefProcessor, .assemblyRefOS, .file, .exportedType, .manifestResource, .nestedClass,
   .genericParam, .methodSpec, .genericParamConstraint]

/-- The number of a table. -/
def code (table : TableKind) : UInt8 := table.ctorIdx.toUInt8

/-- The table with the given number, if there is one. -/
def ofCode? (code : UInt8) : Option TableKind := all[code.toNat]?

@[simp] theorem ofCode?_code (table : TableKind) : ofCode? table.code = some table := by
  cases table <;> rfl

/-- The name of a table in the format's own spelling. -/
def name : TableKind → String
  | .module => "Module"
  | .typeRef => "TypeRef"
  | .typeDef => "TypeDef"
  | .fieldPtr => "FieldPtr"
  | .field => "Field"
  | .methodPtr => "MethodPtr"
  | .methodDef => "MethodDef"
  | .paramPtr => "ParamPtr"
  | .param => "Param"
  | .interfaceImpl => "InterfaceImpl"
  | .memberRef => "MemberRef"
  | .constant => "Constant"
  | .customAttribute => "CustomAttribute"
  | .fieldMarshal => "FieldMarshal"
  | .declSecurity => "DeclSecurity"
  | .classLayout => "ClassLayout"
  | .fieldLayout => "FieldLayout"
  | .standAloneSig => "StandAloneSig"
  | .eventMap => "EventMap"
  | .eventPtr => "EventPtr"
  | .event => "Event"
  | .propertyMap => "PropertyMap"
  | .propertyPtr => "PropertyPtr"
  | .property => "Property"
  | .methodSemantics => "MethodSemantics"
  | .methodImpl => "MethodImpl"
  | .moduleRef => "ModuleRef"
  | .typeSpec => "TypeSpec"
  | .implMap => "ImplMap"
  | .fieldRVA => "FieldRVA"
  | .encLog => "EncLog"
  | .encMap => "EncMap"
  | .assembly => "Assembly"
  | .assemblyProcessor => "AssemblyProcessor"
  | .assemblyOS => "AssemblyOS"
  | .assemblyRef => "AssemblyRef"
  | .assemblyRefProcessor => "AssemblyRefProcessor"
  | .assemblyRefOS => "AssemblyRefOS"
  | .file => "File"
  | .exportedType => "ExportedType"
  | .manifestResource => "ManifestResource"
  | .nestedClass => "NestedClass"
  | .genericParam => "GenericParam"
  | .methodSpec => "MethodSpec"
  | .genericParamConstraint => "GenericParamConstraint"

/-- The table with the given name, if there is one. -/
def ofName? (text : String) : Option TableKind := all.find? (·.name == text)

/-- Whether the rows of a table have to be ordered by a key column. -/
def isSorted : TableKind → Bool
  | .interfaceImpl | .constant | .customAttribute | .fieldMarshal | .declSecurity | .classLayout
  | .fieldLayout | .methodSemantics | .methodImpl | .implMap | .fieldRVA | .nestedClass
  | .genericParam | .genericParamConstraint => true
  | _ => false

end TableKind

end CilMetadata

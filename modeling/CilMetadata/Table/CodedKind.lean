import CilMetadata.Table.Kind

/-!
# Kinds of coded index

A coded index refers to a row of one of several tables; its kind lists the candidate tables in
the order of their tags. A tag without a table is reserved.

* `CodedKind.candidates`: the candidate tables, `none` for a reserved tag;
* `CodedKind.tagBits`: how many low bits hold the tag.
-/

namespace CilMetadata

/-- A kind of coded index. -/
inductive CodedKind
  | typeDefOrRef | hasConstant | hasCustomAttribute | hasFieldMarshal | hasDeclSecurity
  | memberRefParent | hasSemantics | methodDefOrRef | memberForwarded | implementation
  | customAttributeType | resolutionScope | typeOrMethodDef
  deriving DecidableEq, Repr, Inhabited

namespace CodedKind

/-- Every kind of coded index. -/
def all : List CodedKind :=
  [.typeDefOrRef, .hasConstant, .hasCustomAttribute, .hasFieldMarshal, .hasDeclSecurity,
   .memberRefParent, .hasSemantics, .methodDefOrRef, .memberForwarded, .implementation,
   .customAttributeType, .resolutionScope, .typeOrMethodDef]

/-- The name of a kind in the format's own spelling. -/
def name : CodedKind → String
  | .typeDefOrRef => "TypeDefOrRef"
  | .hasConstant => "HasConstant"
  | .hasCustomAttribute => "HasCustomAttribute"
  | .hasFieldMarshal => "HasFieldMarshal"
  | .hasDeclSecurity => "HasDeclSecurity"
  | .memberRefParent => "MemberRefParent"
  | .hasSemantics => "HasSemantics"
  | .methodDefOrRef => "MethodDefOrRef"
  | .memberForwarded => "MemberForwarded"
  | .implementation => "Implementation"
  | .customAttributeType => "CustomAttributeType"
  | .resolutionScope => "ResolutionScope"
  | .typeOrMethodDef => "TypeOrMethodDef"

/-- The kind with the given name, if there is one. -/
def ofName? (text : String) : Option CodedKind := all.find? (·.name == text)

/-- The candidate tables in the order of their tags; `none` marks a reserved tag. -/
def candidates : CodedKind → List (Option TableKind)
  | .typeDefOrRef => [some .typeDef, some .typeRef, some .typeSpec]
  | .hasConstant => [some .field, some .param, some .property]
  | .hasCustomAttribute =>
    [some .methodDef, some .field, some .typeRef, some .typeDef, some .param, some .interfaceImpl,
     some .memberRef, some .module, none, some .property, some .event, some .standAloneSig,
     some .moduleRef, some .typeSpec, some .assembly, some .assemblyRef, some .file,
     some .exportedType, some .manifestResource, some .genericParam, some .genericParamConstraint,
     some .methodSpec]
  | .hasFieldMarshal => [some .field, some .param]
  | .hasDeclSecurity => [some .typeDef, some .methodDef, some .assembly]
  | .memberRefParent =>
    [some .typeDef, some .typeRef, some .moduleRef, some .methodDef, some .typeSpec]
  | .hasSemantics => [some .event, some .property]
  | .methodDefOrRef => [some .methodDef, some .memberRef]
  | .memberForwarded => [some .field, some .methodDef]
  | .implementation => [some .file, some .assemblyRef, some .exportedType]
  | .customAttributeType => [none, none, some .methodDef, some .memberRef, none]
  | .resolutionScope => [some .module, some .moduleRef, some .assemblyRef, some .typeRef]
  | .typeOrMethodDef => [some .typeDef, some .methodDef]

/-- The number of bits that tell `count` values apart. -/
def bitsFor (count : Nat) : Nat := if count ≤ 1 then 0 else Nat.log2 (count - 1) + 1

/-- How many low bits of a coded index hold the tag. -/
def tagBits (kind : CodedKind) : Nat := bitsFor kind.candidates.length

end CodedKind

end CilMetadata

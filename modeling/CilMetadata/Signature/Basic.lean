import CilMetadata.Text.Listing
import CilMetadata.Token

/-!
# Signatures

The values that signature blobs stand for: type trees, and the five kinds of signature whose first
byte tells what they are.

* `TypeSig` is the tree of a type; a node that could not be decoded is a value of it too;
* `MethodSig`, `FieldSig`, `PropertySig`, `LocalsSig`, `MethodSpecSig` are the headed kinds;
* `TypeSig.hasGeneric` and `TypeSig.invalidCause?` look for generic parameters and broken nodes;
* `TypeSig.description` spells a tree out.
-/

namespace CilMetadata

/-- The types that are written as a single element byte and stand for themselves. -/
inductive Primitive
  | void | boolean | char | i1 | u1 | i2 | u2 | i4 | u4 | i8 | u8 | r4 | r8 | string | i | u
  | object | typedByRef
  deriving DecidableEq, Repr, Inhabited

namespace Primitive

/-- Every primitive type. -/
def all : List Primitive :=
  [.void, .boolean, .char, .i1, .u1, .i2, .u2, .i4, .u4, .i8, .u8, .r4, .r8, .string, .i, .u,
   .object, .typedByRef]

/-- The name of a primitive type. -/
def name : Primitive → String
  | .void => "Void"
  | .boolean => "Boolean"
  | .char => "Char"
  | .i1 => "I1"
  | .u1 => "U1"
  | .i2 => "I2"
  | .u2 => "U2"
  | .i4 => "I4"
  | .u4 => "U4"
  | .i8 => "I8"
  | .u8 => "U8"
  | .r4 => "R4"
  | .r8 => "R8"
  | .string => "String"
  | .i => "I"
  | .u => "U"
  | .object => "Object"
  | .typedByRef => "TypedByRef"

end Primitive

/-- The ways to make a type out of one other type. -/
inductive Wrapper
  | ptr | byRef | szArray | pinned | boxed
  deriving DecidableEq, Repr, Inhabited

namespace Wrapper

/-- Every wrapper. -/
def all : List Wrapper := [.ptr, .byRef, .szArray, .pinned, .boxed]

/-- The name of a wrapper. -/
def name : Wrapper → String
  | .ptr => "Ptr"
  | .byRef => "ByRef"
  | .szArray => "SzArray"
  | .pinned => "Pinned"
  | .boxed => "Boxed"

end Wrapper

/-- Whether a type that is named by a token is a reference type or a value type. -/
inductive NamedForm
  | cls | valueType
  deriving DecidableEq, Repr, Inhabited

/-- The name of a form. -/
def NamedForm.name : NamedForm → String
  | .cls => "Class"
  | .valueType => "ValueType"

/-- Whether a generic parameter belongs to a type or to a method. -/
inductive GenericKind
  | type | method
  deriving DecidableEq, Repr, Inhabited

/-- The name of a kind of generic parameter. -/
def GenericKind.name : GenericKind → String
  | .type => "Type"
  | .method => "Method"

/-- A generic parameter by its position in the owner's list. -/
structure GenericParam where
  kind : GenericKind
  index : Nat
  deriving DecidableEq, Repr, Inhabited

/-- The shape of a general array: the leading dimensions may declare sizes and lower bounds. -/
structure ArrayShape where
  rank : Nat
  sizes : List Nat
  lowerBounds : List Int
  deriving DecidableEq, Repr, Inhabited

/-- Why a node could not be decoded. -/
inductive InvalidCause
  /-- The blob ended inside a reference. -/
  | blobTooShort
  /-- A type specification stands where only a definition or reference may. -/
  | illegalTypeSpec
  /-- A type specification refers back to itself through its own expansion. -/
  | metadataLoop
  /-- A reference names no existing type. -/
  | invalidCodedIndex
  deriving DecidableEq, Repr, Inhabited

namespace InvalidCause

/-- Every cause. -/
def all : List InvalidCause := [.blobTooShort, .illegalTypeSpec, .metadataLoop, .invalidCodedIndex]

/-- The name of a cause. -/
def name : InvalidCause → String
  | .blobTooShort => "BlobTooShort"
  | .illegalTypeSpec => "IllegalTypeSpec"
  | .metadataLoop => "MetadataLoop"
  | .invalidCodedIndex => "InvalidCodedIndex"

/-- A cause in words. -/
def message : InvalidCause → String
  | .blobTooShort => "blob too short"
  | .illegalTypeSpec => "illegal type specification"
  | .metadataLoop => "metadata loop"
  | .invalidCodedIndex => "invalid coded index"

end InvalidCause

/-- The tree of a type. -/
inductive TypeSig
  | primitive (type : Primitive)
  /-- A type named by the token of its definition or reference. -/
  | named (form : NamedForm) (token : Token)
  | wrapped (wrapper : Wrapper) (inner : TypeSig)
  | array (base : TypeSig) (shape : ArrayShape)
  | generic (param : GenericParam)
  /-- A generic type with its arguments. -/
  | applied (form : NamedForm) (definition : Token) (arguments : List TypeSig)
  /-- A type under a required or optional custom modifier. -/
  | modified (required : Bool) (modifier base : TypeSig)
  /-- A type specification together with the type it stands for. -/
  | typeSpec (token : Token) (expansion : TypeSig)
  /-- The start of the variable arguments of a call. -/
  | sentinel
  /-- A node that could not be decoded. -/
  | invalid (cause : InvalidCause)
  deriving Repr, Inhabited

/-- The type of methods that return nothing. -/
def TypeSig.void : TypeSig := .primitive .void

/-- The signature of a method or of a call. -/
structure MethodSig where
  /-- The low four bits of the first byte. -/
  convention : UInt8 := 0
  hasThis : Bool := false
  /-- Whether the receiver is listed among the parameters. -/
  explicitThis : Bool := false
  genericCount : Nat := 0
  returnType : TypeSig := .void
  params : List TypeSig := []
  /-- The arguments that follow the sentinel of a call with variable arguments. -/
  varargs : List TypeSig := []
  deriving Repr, Inhabited

/-- The signature of a field. -/
structure FieldSig where
  fieldType : TypeSig
  deriving Repr, Inhabited

/-- The signature of a property. -/
structure PropertySig where
  hasThis : Bool
  propertyType : TypeSig
  params : List TypeSig
  deriving Repr, Inhabited

/-- The types of the local variables of a method body, in slot order. -/
structure LocalsSig where
  locals : List TypeSig
  deriving Repr, Inhabited

/-- The arguments of a generic method. -/
structure MethodSpecSig where
  arguments : List TypeSig
  deriving Repr, Inhabited

/-! ### Calls -/

/-- How many stack slots a call takes: its arguments, and the receiver if it is implicit. -/
def MethodSig.argumentSlots (sig : MethodSig) : Nat :=
  sig.params.length + sig.varargs.length + (sig.hasThis && !sig.explicitThis).toNat

/-- Whether a return type is the bare `void`. -/
def TypeSig.isVoid : TypeSig → Bool
  | .primitive .void => true
  | _ => false

/-- Whether a call leaves a value on the stack. -/
def MethodSig.returnsValue (sig : MethodSig) : Bool := !sig.returnType.isVoid

/-! ### Looking into a tree -/

namespace TypeSig

/-- Whether a tree is a primitive type. -/
def isPrimitive : TypeSig → Bool
  | .primitive _ => true
  | _ => false

mutual

/-- Whether a generic parameter occurs anywhere in a tree, expansions and modifiers included. -/
def hasGeneric : TypeSig → Bool
  | .generic _ => true
  | .wrapped _ inner => inner.hasGeneric
  | .array base _ => base.hasGeneric
  | .applied _ _ arguments => anyGeneric arguments
  | .modified _ modifier base => modifier.hasGeneric || base.hasGeneric
  | .typeSpec _ expansion => expansion.hasGeneric
  | .primitive _ | .named _ _ | .sentinel | .invalid _ => false

/-- Whether a generic parameter occurs in one of several trees. -/
def anyGeneric : List TypeSig → Bool
  | [] => false
  | type :: rest => type.hasGeneric || anyGeneric rest

end

mutual

/-- The cause of the first node that could not be decoded, depth first. -/
def invalidCause? : TypeSig → Option InvalidCause
  | .invalid cause => some cause
  | .wrapped _ inner => inner.invalidCause?
  | .array base _ => base.invalidCause?
  | .applied _ _ arguments => firstInvalid? arguments
  | .modified _ modifier base => modifier.invalidCause? <|> base.invalidCause?
  | .typeSpec _ expansion => expansion.invalidCause?
  | .primitive _ | .named _ _ | .generic _ | .sentinel => none

/-- The cause of the first node of several trees that could not be decoded. -/
def firstInvalid? : List TypeSig → Option InvalidCause
  | [] => none
  | type :: rest => type.invalidCause? <|> firstInvalid? rest

end

mutual

/-- A tree spelled out node by node. -/
def description : TypeSig → String
  | .primitive type => type.name
  | .named form token => s!"{form.name}({token.description})"
  | .wrapped wrapper inner => s!"{wrapper.name}({inner.description})"
  | .array base shape =>
    "Array(SignatureArray \x7b base: " ++ base.description
      ++ s!", rank: {shape.rank}, sizes: " ++ Text.bracketed (shape.sizes.map toString)
      ++ ", lower_bounds: " ++ Text.bracketed (shape.lowerBounds.map toString) ++ " \x7d)"
  | .generic param =>
    "GenericParam(SignatureGenericParam \x7b "
      ++ s!"kind: {param.kind.name}, index: {param.index}" ++ " \x7d)"
  | .applied form definition arguments =>
    "GenericInst(SignatureGenericInst \x7b "
      ++ s!"value_type: {form == NamedForm.valueType}, definition: {definition.description}, "
      ++ "arguments: " ++ Text.bracketed (descriptions arguments) ++ " \x7d)"
  | .modified required modifier base =>
    "Modified(CustomModifier \x7b " ++ s!"required: {required}, "
      ++ "modifier: " ++ modifier.description ++ ", base: " ++ base.description ++ " \x7d)"
  | .typeSpec token expansion =>
    "TypeSpec(SignatureTypeSpec \x7b " ++ s!"token: {token.description}, "
      ++ "signature: " ++ expansion.description ++ " \x7d)"
  | .sentinel => "Sentinel"
  | .invalid cause => s!"Invalid({cause.name})"

/-- Several trees spelled out. -/
def descriptions : List TypeSig → List String
  | [] => []
  | type :: rest => type.description :: descriptions rest

end

end TypeSig

end CilMetadata

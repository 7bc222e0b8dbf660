import CilMetadata.Bytes.Compressed
import CilMetadata.Signature.Element
import CilMetadata.Table.CodedIndex

/-!
# Writing signatures

The bytes of a signature. Whatever a blob cannot hold is refused: invalid nodes, specifications
outside modifiers, references that have no coded index, lists that are too long, numbers too large
to compress.

* `SigEncoder.type` writes a tree, `SigEncoder.types` a list of trees after its length;
* `SigEncoder.method`, `field`, `property`, `locals`, `methodSpec` write the headed signatures.
-/

namespace CilMetadata.SigEncoder

/-- The length of a list. -/
def count (n : Nat) : Encoder Unit :=
  -- A length beyond 32 bits is refused as such, and not as a number too large to compress.
  if n < 0x100000000 then Encoder.compressed n else throw (.malformed (.listLength n))

/-- The reference of a named type. -/
def reference (token : Token) : Encoder Unit :=
  match CodedKind.typeDefOrRef.encode token with
  | .ok value => Encoder.compressed value
  | .error fault => throw fault

/-- The shape of an array. -/
def arrayShape (shape : ArrayShape) : Encoder Unit := do
  Encoder.compressed shape.rank
  count shape.sizes.length
  Encoder.each Encoder.compressed shape.sizes
  count shape.lowerBounds.length
  Encoder.each Encoder.compressedSigned shape.lowerBounds

/-- The token that a modifier is written as. -/
def modifierToken : TypeSig → Except Fault Token
  | .named _ token => .ok token
  | .typeSpec token _ => .ok token
  | other => .error (.malformed (.modifierType other))

mutual

/-- The tree of a type. -/
def type : TypeSig → Encoder Unit
  | .primitive type => Encoder.byte type.element
  | .sentinel => Encoder.byte Element.sentinel
  | .named form token => do
    Encoder.byte form.element
    reference token
  | .wrapped wrapper inner => do
    Encoder.byte wrapper.element
    type inner
  | .array base shape => do
    Encoder.byte Element.array
    type base
    arrayShape shape
  | .generic param => do
    Encoder.byte param.kind.element
    Encoder.compressed param.index
  | .applied form definition arguments => do
    Encoder.byte Element.applied
    Encoder.byte form.element
    reference definition
    count arguments.length
    each arguments
  | .modified required modifier base => do
    Encoder.byte (Element.modifier required)
    match modifierToken modifier with
    | .error fault => throw fault
    | .ok token =>
      reference token
      type base
  | .typeSpec token _ => throw (.malformed (.bareTypeSpec token))
  | .invalid cause => throw (.malformed (.invalidNode cause))

/-- Several trees one after the other. -/
def each : List TypeSig → Encoder Unit
  | [] => return ()
  | first :: rest => do
    type first
    each rest

end

/-- Several trees after their number. -/
def types (list : List TypeSig) : Encoder Unit := do
  count list.length
  each list

/-- The first byte of a method signature. -/
def methodHead (sig : MethodSig) : UInt8 :=
  (sig.convention &&& Header.conventionMask)
    ||| (if sig.hasThis then Header.thisBit else 0)
    ||| (if sig.explicitThis then Header.explicitThisBit else 0)
    ||| (if 0 < sig.genericCount then Header.genericBit else 0)

/-- The signature of a method; variable arguments follow a sentinel. -/
def method (sig : MethodSig) : Encoder Unit := do
  Encoder.byte (methodHead sig)
  -- The number of generic parameters is there only if the first byte says so.
  if 0 < sig.genericCount then Encoder.compressed sig.genericCount
  count (sig.params.length + sig.varargs.length)
  type sig.returnType
  each sig.params
  if !sig.varargs.isEmpty then
    Encoder.byte Element.sentinel
    each sig.varargs

/-- The signature of a field. -/
def field (sig : FieldSig) : Encoder Unit := do
  Encoder.byte Header.field
  type sig.fieldType

/-- The signature of a property. -/
def property (sig : PropertySig) : Encoder Unit := do
  Encoder.byte (Header.property ||| (if sig.hasThis then Header.thisBit else 0))
  count sig.params.length
  type sig.propertyType
  each sig.params

/-- The types of local variables. -/
def locals (sig : LocalsSig) : Encoder Unit := do
  Encoder.byte Header.locals
  types sig.locals

/-- The arguments of a generic method. -/
def methodSpec (sig : MethodSpecSig) : Encoder Unit := do
  Encoder.byte Header.methodSpec
  types sig.arguments

end CilMetadata.SigEncoder

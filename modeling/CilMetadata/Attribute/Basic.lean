import CilMetadata.Bytes.Compressed
import CilMetadata.TypeName.Parse

/-!
# Types in custom attributes

The values of custom attributes are described by a small grammar of types: simple types, arrays of
one level, and enums that are named in text. A named argument starts with whether it is a field or
a property, its type and its name.

* `AttributeType.decode` and `AttributeType.encode`;
* `NamedArgument.decode` and `NamedArgument.encode`.
-/

namespace CilMetadata

/-- The simple types of attribute values. -/
inductive AttributeLeaf
  | boolean | char | i1 | u1 | i2 | u2 | i4 | u4 | i8 | u8 | r4 | r8 | string | typeName | object
  deriving DecidableEq, Repr, Inhabited

namespace AttributeLeaf

/-- Every simple type. -/
def all : List AttributeLeaf :=
  [.boolean, .char, .i1, .u1, .i2, .u2, .i4, .u4, .i8, .u8, .r4, .r8, .string, .typeName,
   .object]

/-- The name of a simple type. -/
def name : AttributeLeaf → String
  | .boolean => "Boolean"
  | .char => "Char"
  | .i1 => "I1"
  | .u1 => "U1"
  | .i2 => "I2"
  | .u2 => "U2"
  | .i4 => "I4"
  | .u4 => "U4"
  | .i8 => "I8"
  | .u8 => "U8"
  | .r4 => "R4"
  | .r8 => "R8"
  | .string => "String"
  | .typeName => "Type"
  | .object => "Object"

/-- The byte of a simple type. -/
def element : AttributeLeaf → UInt8
  | .boolean => 0x02
  | .char => 0x03
  | .i1 => 0x04
  | .u1 => 0x05
  | .i2 => 0x06
  | .u2 => 0x07
  | .i4 => 0x08
  | .u4 => 0x09
  | .i8 => 0x0A
  | .u8 => 0x0B
  | .r4 => 0x0C
  | .r8 => 0x0D
  | .string => 0x0E
  | .typeName => 0x50
  | .object => 0x51

/-- The simple type of a byte, if it is one. -/
def ofElement? (byte : UInt8) : Option AttributeLeaf := all.find? (·.element == byte)

end AttributeLeaf

/-- The type of an attribute value. -/
inductive AttributeType
  | simple (leaf : AttributeLeaf)
  | szArray (element : AttributeType)
  | enum (name : TypeName)
  deriving DecidableEq, Repr, Inhabited

namespace AttributeType

/-- The byte of an array. -/
def arrayElement : UInt8 := 0x1D

/-- The byte of an enum. -/
def enumElement : UInt8 := 0x55

/-- The name of an enum behind its byte. -/
def decodeEnum : Decoder AttributeType := do
  match ← Decoder.serString with
  | none => throw (.malformed .unnamedEnum)
  | some text =>
    match TypeName.parse text with
    | .ok name => return .enum name
    | .error fault => throw fault

/-- A type that is no array, behind its byte. -/
def decodeFlat (element : UInt8) : Decoder AttributeType :=
  match AttributeLeaf.ofElement? element with
  | some leaf => return .simple leaf
  | none =>
    if element = enumElement then decodeEnum
    else throw (.malformed (.attributeElement element))

/-- Read a type; the elements of an array are no arrays. -/
def decode : Decoder AttributeType := do
  let element ← Decoder.byte
  if element = arrayElement then
    let element ← Decoder.byte
    if element = arrayElement then throw (.malformed .nestedArray)
    else return .szArray (← decodeFlat element)
  else decodeFlat element

/-- Whether a type is an array. -/
def isArray : AttributeType → Bool
  | .szArray _ => true
  | _ => false

/-- Write a type; an array of arrays is refused. -/
def encode : AttributeType → Encoder Unit
  | .simple leaf => Encoder.byte leaf.element
  | .szArray element =>
    if element.isArray then throw (.malformed .nestedArray)
    else do
      Encoder.byte arrayElement
      element.encode
  | .enum name => do
    Encoder.byte enumElement
    Encoder.serString (some name.text)

end AttributeType

/-- What stands before the value of a named argument. -/
structure NamedArgument where
  isField : Bool
  type : AttributeType
  name : String
  deriving DecidableEq, Repr, Inhabited

namespace NamedArgument

/-- The byte of a field or of a property. -/
def kindByte (isField : Bool) : UInt8 := if isField then 0x53 else 0x54

/-- Read the head of a named argument. -/
def decode : Decoder NamedArgument := do
  let kind ← Decoder.byte
  if kind = kindByte true ∨ kind = kindByte false then
    let type ← AttributeType.decode
    match ← Decoder.serString with
    | none => throw (.malformed .unnamedArgument)
    | some name => return { isField := kind == kindByte true, type, name }
  else throw (.malformed (.namedArgumentKind kind))

/-- Write the head of a named argument. -/
def encode (argument : NamedArgument) : Encoder Unit := do
  Encoder.byte (kindByte argument.isField)
  argument.type.encode
  Encoder.serString (some argument.name)

end NamedArgument

end CilMetadata

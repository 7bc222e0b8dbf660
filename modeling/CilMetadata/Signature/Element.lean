import CilMetadata.Signature.Basic

/-!
# Element bytes

The bytes that start a node of a type tree, and the first bytes of the headed signatures.

* `Primitive.element` and `Wrapper.element` are the bytes of the nodes, `Primitive.ofElement?` and
  `Wrapper.ofElement?` read them back;
* `Element` holds the bytes of all other nodes, `Header` the first bytes of signatures.
-/

namespace CilMetadata

/-- The byte of a primitive type. -/
def Primitive.element : Primitive → UInt8
  | .void => 0x01
  | .boolean => 0x02
  | .char => 0x03
  | .i1 => 0x04
  | .u1 => 0x05
  | .i2 => 0x06
  | .u2 => 0x07
  | .i4 => 0x08
  | .u4 => 0x09
  | .i8 => 0x0A
  | .u8 => 0x0B
  | .r4 => 0x0C
  | .r8 => 0x0D
  | .string => 0x0E
  | .typedByRef => 0x16
  | .i => 0x18
  | .u => 0x19
  | .object => 0x1C

/-- The primitive type of a byte, if it is one. -/
def Primitive.ofElement? (byte : UInt8) : Option Primitive :=
  Primitive.all.find? (·.element == byte)

/-- The byte of a wrapper. -/
def Wrapper.element : Wrapper → UInt8
  | .ptr => 0x0F
  | .byRef => 0x10
  | .szArray => 0x1D
  | .pinned => 0x45
  | .boxed => 0x51

/-- The wrapper of a byte, if it is one. -/
def Wrapper.ofElement? (byte : UInt8) : Option Wrapper :=
  Wrapper.all.find? (·.element == byte)

/-- The byte of a named type. -/
def NamedForm.element : NamedForm → UInt8
  | .valueType => 0x11
  | .cls => 0x12

/-- The form of a byte, if it is one. -/
def NamedForm.ofElement? (byte : UInt8) : Option NamedForm :=
  if byte = 0x12 then some .cls else if byte = 0x11 then some .valueType else none

/-- The byte of a generic parameter. -/
def GenericKind.element : GenericKind → UInt8
  | .type => 0x13
  | .method => 0x1E

@[simp] theorem Primitive.ofElement?_element (type : Primitive) :
    Primitive.ofElement? type.element = some type := by
  cases type <;> rfl

@[simp] theorem Wrapper.ofElement?_element (wrapper : Wrapper) :
    Wrapper.ofElement? wrapper.element = some wrapper := by
  cases wrapper <;> rfl

@[simp] theorem NamedForm.ofElement?_element (form : NamedForm) :
    NamedForm.ofElement? form.element = some form := by
  cases form <;> rfl

namespace Element

/-- A general array. -/
def array : UInt8 := 0x14

/-- A generic type with its arguments. -/
def applied : UInt8 := 0x15

/-- A function pointer. -/
def functionPointer : UInt8 := 0x1B

/-- A required custom modifier. -/
def requiredModifier : UInt8 := 0x1F

/-- An optional custom modifier. -/
def optionalModifier : UInt8 := 0x20

/-- The start of variable arguments. -/
def sentinel : UInt8 := 0x41

/-- The byte of a custom modifier. -/
def modifier (required : Bool) : UInt8 := if required then requiredModifier else optionalModifier

end Element

namespace Header

/-- The first byte of a field signature. -/
def field : UInt8 := 0x06

/-- The first byte of a local variable signature. -/
def locals : UInt8 := 0x07

/-- The low four bits of the first byte of a property signature. -/
def property : UInt8 := 0x08

/-- The first byte of the arguments of a generic method. -/
def methodSpec : UInt8 := 0x0A

/-- The bits of a method's first byte that hold the calling convention. -/
def conventionMask : UInt8 := 0x0F

/-- The largest calling convention of a method, the one with variable arguments. -/
def lastConvention : UInt8 := 0x05

/-- The bit for a method with generic parameters. -/
def genericBit : UInt8 := 0x10

/-- The bit for a receiver. -/
def thisBit : UInt8 := 0x20

/-- The bit for a receiver that is listed among the parameters. -/
def explicitThisBit : UInt8 := 0x40

end Header

end CilMetadata

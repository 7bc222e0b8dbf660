import CilMetadata.Bytes.Compressed
import CilMetadata.Signature.Element
import CilMetadata.Signature.Expansion
import CilMetadata.Table.CodedIndex

/-!
# Reading signatures

A signature reader goes over a blob and builds trees. References that lead nowhere become invalid
nodes of the tree; what cannot be continued is a fault.

* `SigContext` is what stays the same during a reading: resolver, nesting limit, and the
  specifications being expanded;
* `SigDecoder.typeAt` reads a type with a number of levels left to nest; it calls itself with one
  level less, also inside the blob of a specification;
* `SigDecoder.type`, `method`, `field`, `property`, `locals`, `methodSpec` are the entry points.

A reading that runs out of levels leaves one level in use, and a later reading on the same blob has
that much less to spend.
-/

namespace CilMetadata

/-- The nesting limit of types where none is given. -/
def defaultMaxDepth : Nat := 64

/-- What stays the same while a signature is read. -/
structure SigContext where
  resolver : Option Resolver := none
  maxDepth : Nat := defaultMaxDepth
  expanding : Expansions := {}

/-- Where a reading of signatures stands: the cursor, and the levels in use. -/
structure SigState where
  cursor : Cursor
  depth : Nat := 0
  deriving Repr, Inhabited

/-- A reader of signatures. -/
abbrev SigDecoder := EStateM Fault SigState

namespace SigDecoder

/-- A reader of bytes as a reader of signatures. -/
def lift {α : Type} (d : Decoder α) : SigDecoder α := fun s =>
  match d s.cursor with
  | .ok a cursor => .ok a { s with cursor }
  | .error fault cursor => .error fault { s with cursor }

/-- The next byte. -/
def byte : SigDecoder UInt8 := lift Decoder.byte

/-- The next compressed integer. -/
def compressed : SigDecoder Nat := lift Decoder.compressed

/-- The same reader `n` times. -/
def times {α : Type} (d : SigDecoder α) : (n : Nat) → SigDecoder (List α)
  | 0 => return []
  | n + 1 => return (← d) :: (← d.times n)

/-- The reference of a named type: a coded index that has to name a type. -/
def reference (resolver : Option Resolver) : SigDecoder (Except InvalidCause Token) := fun s =>
  match compressed s with
  | .error _ s' => .ok (.error .blobTooShort) s'
  | .ok value s' =>
    .ok
      (match CodedKind.typeDefOrRef.decode value with
        | .ok (some token) =>
          if resolver.all fun r => r.isType token then .ok token
          else .error .invalidCodedIndex
        | _ => .error .invalidCodedIndex) s'

/-- A reference that may not name a type specification. -/
def plainReference (resolver : Option Resolver) : SigDecoder (Except InvalidCause Token) := do
  match ← reference resolver with
  | .error cause => return .error cause
  | .ok token =>
    if token.isIn .typeSpec then return .error .illegalTypeSpec else return .ok token

/-- A named type, or an invalid node in its place. -/
def namedType (resolver : Option Resolver) (form : NamedForm) : SigDecoder TypeSig := do
  match ← plainReference resolver with
  | .ok token => return .named form token
  | .error cause => return .invalid cause

/-- The shape of an array. -/
def arrayShape : SigDecoder ArrayShape := do
  let rank ← compressed
  let sizes ← times compressed (← compressed)
  let lowerBounds ← times (lift Decoder.compressedSigned) (← compressed)
  return { rank, sizes, lowerBounds }

/-- A reading of another blob; of its state nothing remains. -/
def inside {α : Type} (blob : Array UInt8) (d : SigDecoder α) : SigDecoder α := fun s =>
  match d { s with cursor := { bytes := blob } } with
  | .ok a _ => .ok a s
  | .error fault _ => .error fault s

/-- Run out of levels: the level that was asked for stays in use. -/
def outOfLevels {α : Type} (limit : Nat) : SigDecoder α := fun s =>
  .error (.recursionLimit limit) { s with depth := s.depth + 1 }

/-- The type that a modifier's reference stands for; specifications are expanded.

`nested` reads a type with the given specifications being expanded. -/
def modifierType (ctx : SigContext) (nested : SigContext → SigDecoder TypeSig) (token : Token) :
    SigDecoder TypeSig :=
  match ctx.resolver with
  | none => return .named .cls token
  | some resolver =>
    if token.isIn .typeSpec then
      if ctx.expanding.contains token then return .invalid .metadataLoop
      else
        match resolver.specBlob? token with
        | none => return .invalid .blobTooShort
        | some blob => do
          let expanding := ctx.expanding.enter token
          return .typeSpec token (← inside blob (nested { ctx with expanding }))
    else return .named .cls token

/-- A type under a modifier, after the modifier's element byte. -/
def modifiedType (ctx : SigContext) (nested : SigContext → SigDecoder TypeSig)
    (required : Bool) : SigDecoder TypeSig := do
  match ← reference ctx.resolver with
  | .error .blobTooShort => return .invalid .blobTooShort
  | .error cause => return .modified required (.invalid cause) (← nested ctx)
  | .ok token =>
    let modifier ← modifierType ctx nested token
    return .modified required modifier (← nested ctx)

/-- A generic type with its arguments, after the element byte. -/
def appliedType (ctx : SigContext) (nested : SigContext → SigDecoder TypeSig) :
    SigDecoder TypeSig := do
  let kind ← byte
  match NamedForm.ofElement? kind with
  | none => throw (.malformed (.instanceKind kind))
  | some form =>
    match ← plainReference ctx.resolver with
    | .error .blobTooShort => return .invalid .blobTooShort
    | .error cause =>
      let _ ← times (nested ctx) (← compressed)
      return .invalid cause
    | .ok definition => return .applied form definition (← times (nested ctx) (← compressed))

/-- A type whose element byte has been read at `offset`. -/
def typeAfter (ctx : SigContext) (nested : SigContext → SigDecoder TypeSig) (offset : Nat)
    (element : UInt8) : SigDecoder TypeSig :=
  match Primitive.ofElement? element with
  | some type => return .primitive type
  | none =>
    match Wrapper.ofElement? element with
    | some wrapper => return .wrapped wrapper (← nested ctx)
    | none =>
      match NamedForm.ofElement? element with
      | some form => namedType ctx.resolver form
      | none =>
        if element = Element.sentinel then return .sentinel
        else if element = GenericKind.type.element then return .generic ⟨.type, ← compressed⟩
        else if element = GenericKind.method.element then return .generic ⟨.method, ← compressed⟩
        else if element = Element.array then return .array (← nested ctx) (← arrayShape)
        else if element = Element.applied then appliedType ctx nested
        else if element = Element.requiredModifier then modifiedType ctx nested true
        else if element = Element.optionalModifier then modifiedType ctx nested false
        else if element = Element.functionPointer then
          throw (.notImplemented "function pointer signatures")
        else throw (.malformed (.elementType element offset))

/-- A type, with the given number of levels left to nest. -/
def typeAt : (levels : Nat) → SigContext → SigDecoder TypeSig
  | 0, ctx => outOfLevels ctx.maxDepth
  | levels + 1, ctx => do
    let offset ← lift Decoder.position
    let element ← byte
    typeAfter ctx (typeAt levels) offset element

/-- A type, with all levels left that are not in use. -/
def type (ctx : SigContext) : SigDecoder TypeSig := fun s =>
  typeAt (ctx.maxDepth - s.depth) ctx s

/-! ### Headed signatures -/

/-- Read parameters until `count` have been read; those behind a sentinel are variable ones. -/
def params (ctx : SigContext) : (count : Nat) → SigDecoder (List TypeSig × List TypeSig)
  | 0 => return ([], [])
  | count + 1 => do
    if (← lift Decoder.peekByte) = Element.sentinel then
      lift (Decoder.skip 1)
      return ([], ← times (type ctx) (count + 1))
    else
      let param ← type ctx
      let (fixed, varargs) ← params ctx count
      return (param :: fixed, varargs)

/-- The signature of a method. -/
def method (ctx : SigContext) : SigDecoder MethodSig := do
  let head ← byte
  let convention := head &&& Header.conventionMask
  if Header.lastConvention < convention then throw (.malformed (.callingConvention head))
  else
    let genericCount ← if head &&& Header.genericBit = 0 then pure 0 else compressed
    let count ← compressed
    let returnType ← type ctx
    let (fixed, varargs) ← params ctx count
    return {
      convention, genericCount, returnType, varargs
      hasThis := head &&& Header.thisBit != 0
      explicitThis := head &&& Header.explicitThisBit != 0
      params := fixed }

/-- The signature of a field. -/
def field (ctx : SigContext) : SigDecoder FieldSig := do
  let head ← byte
  if head = Header.field then return { fieldType := ← type ctx }
  else throw (.malformed (.fieldHeader head))

/-- The signature of a property. -/
def property (ctx : SigContext) : SigDecoder PropertySig := do
  let head ← byte
  if head &&& Header.conventionMask = Header.property then
    let count ← compressed
    let propertyType ← type ctx
    return { hasThis := head &&& Header.thisBit != 0, propertyType
             params := ← times (type ctx) count }
  else throw (.malformed (.propertyHeader head))

/-- The types of local variables. -/
def locals (ctx : SigContext) : SigDecoder LocalsSig := do
  let head ← byte
  if head = Header.locals then return { locals := ← times (type ctx) (← compressed) }
  else throw (.malformed (.localsHeader head))

/-- The arguments of a generic method. -/
def methodSpec (ctx : SigContext) : SigDecoder MethodSpecSig := do
  let head ← byte
  if head = Header.methodSpec then return { arguments := ← times (type ctx) (← compressed) }
  else throw (.malformed (.methodSpecHeader head))

/-- The outcome of a reader on a blob. -/
def value? {α : Type} (d : SigDecoder α) (blob : Array UInt8) : Except Fault α :=
  match d { cursor := { bytes := blob } } with
  | .ok a _ => .ok a
  | .error fault _ => .error fault

end SigDecoder

end CilMetadata

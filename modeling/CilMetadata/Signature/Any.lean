import CilMetadata.Signature.Decode
import CilMetadata.Signature.Encode
import CilMetadata.Signature.Instantiate

/-!
# Signatures of any kind

A bare type and the five headed signatures as one type, for work that is the same for all of them.

* `SigKind` names the kinds;
* `Signature.trees` are the types that a signature is made of;
* `Signature.decode`, `encode`, `instantiate` choose by kind.
-/

namespace CilMetadata

/-- The kinds of signature. -/
inductive SigKind
  | type | method | field | property | locals | methodSpec
  deriving DecidableEq, Repr, Inhabited

/-- The kind with the given name, if there is one. -/
def SigKind.ofName? : String → Option SigKind
  | "type" => some .type
  | "method" => some .method
  | "field" => some .field
  | "property" => some .property
  | "locals" => some .locals
  | "method_spec" => some .methodSpec
  | _ => none

/-- A signature of any kind. -/
inductive Signature
  | type (sig : TypeSig)
  | method (sig : MethodSig)
  | field (sig : FieldSig)
  | property (sig : PropertySig)
  | locals (sig : LocalsSig)
  | methodSpec (sig : MethodSpecSig)
  deriving Repr, Inhabited

namespace Signature

/-- The kind of a signature. -/
def kind : Signature → SigKind
  | .type _ => .type
  | .method _ => .method
  | .field _ => .field
  | .property _ => .property
  | .locals _ => .locals
  | .methodSpec _ => .methodSpec

/-- The types that a signature is made of, in the order of its blob. -/
def trees : Signature → List TypeSig
  | .type sig => [sig]
  | .method sig => sig.returnType :: (sig.params ++ sig.varargs)
  | .field sig => [sig.fieldType]
  | .property sig => sig.propertyType :: sig.params
  | .locals sig => sig.locals
  | .methodSpec sig => sig.arguments

/-- Read a signature of the given kind. -/
def decode (ctx : SigContext) : SigKind → SigDecoder Signature
  | .type => return .type (← SigDecoder.type ctx)
  | .method => return .method (← SigDecoder.method ctx)
  | .field => return .field (← SigDecoder.field ctx)
  | .property => return .property (← SigDecoder.property ctx)
  | .locals => return .locals (← SigDecoder.locals ctx)
  | .methodSpec => return .methodSpec (← SigDecoder.methodSpec ctx)

/-- Write a signature. -/
def encode : Signature → Encoder Unit
  | .type sig => SigEncoder.type sig
  | .method sig => SigEncoder.method sig
  | .field sig => SigEncoder.field sig
  | .property sig => SigEncoder.property sig
  | .locals sig => SigEncoder.locals sig
  | .methodSpec sig => SigEncoder.methodSpec sig

/-- Replace the generic parameters of a signature. -/
def instantiate (ctx : GenericArguments) : Signature → Except Fault Signature
  | .type sig => return .type (← sig.instantiate ctx)
  | .method sig => return .method (← sig.instantiate ctx)
  | .field sig => return .field (← sig.instantiate ctx)
  | .property sig => return .property (← sig.instantiate ctx)
  | .locals sig => return .locals (← sig.instantiate ctx)
  | .methodSpec sig => return .methodSpec (← sig.instantiate ctx)

end Signature

end CilMetadata

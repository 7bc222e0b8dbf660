import CilMetadata.Graph.Basic

/-!
# Signatures of members

* `signatureColumn?` says which kinds of member have a signature, and `signatureKind` of what kind
  it is; for two kinds of member the first byte decides;
* `signature` reads and keeps it;
* `instantiated?` is the signature of a generic method with its arguments put in.
-/

namespace CilMetadata.Graph

/-- The column with the signature, of the kinds that have one. -/
def signatureColumn? : (kind : MemberKind) → Option (Row kind.rowKind → UInt32)
  | .typeSpecification => some Row.typeSpecSignature
  | .fieldDefinition => some Row.fieldSignature
  | .methodDefinition => some Row.methodSignature
  | .memberReference => some Row.memberRefSignature
  | .standAloneSignature => some Row.standAloneSignature
  | .propertyDefinition => some Row.propertySignature
  | .methodSpecification => some Row.methodSpecArguments
  | _ => none

/-- The kind of the signature that a blob holds for a kind of member. -/
def signatureKind (kind : MemberKind) (blob : Array UInt8) : SigKind :=
  match kind with
  | .fieldDefinition => .field
  | .methodDefinition => .method
  | .memberReference => if blob[0]? = some Header.field then .field else .method
  | .standAloneSignature => if blob[0]? = some Header.locals then .locals else .method
  | .propertyDefinition => .property
  | .methodSpecification => .methodSpec
  | _ => .type

/-- The specification that is being expanded while the signature of a member is read. -/
def expandingFor (kind : MemberKind) (token : Token) : Expansions :=
  if kind = .typeSpecification then Expansions.ofList [token] else {}

/-- Read the signature of a member by its column. -/
def freshSignature (kind : MemberKind) (column : Row kind.rowKind → UInt32) (token : Token) :
    GraphM Signature := do
  let blob ← blob (column (← row kind.rowKind token))
  readSignature (signatureKind kind blob) (expandingFor kind token) blob

/-- The signature of a member by its column. -/
def signature (kind : MemberKind) (column : Row kind.rowKind → UInt32) (token : Token) :
    GraphM Signature :=
  return (← remember token .signature (freshSignature kind column token)).value

/-- The signature of the method that a definition or reference stands for. -/
def methodSignature? (member : Member) : GraphM (Option MethodSig) := do
  let sig ← match member.kind with
    | .methodDefinition => signature .methodDefinition Row.methodSignature member.token
    | .memberReference => signature .memberReference Row.memberRefSignature member.token
    | _ => return none
  match sig with
  | .method sig => return some sig
  | _ => return none

/-- The arguments of an instantiated method. -/
def methodArguments (token : Token) : GraphM (List TypeSig) := do
  match ← signature .methodSpecification Row.methodSpecArguments token with
  | .methodSpec sig => return sig.arguments
  | _ => return []

/-- The signature of an instantiated method with its arguments put in, and those of the declaring
type where they are given. -/
def instantiated? (typeArguments : Option (List TypeSig)) (token : Token) :
    GraphM (Option MethodSig) := do
  match ← lookup (← row .methodSpec token).methodSpecMethod with
  | none => return none
  | some method =>
    match ← methodSignature? method with
    | none => return none
    | some sig =>
      let methodArguments := some (← methodArguments token)
      match sig.instantiate { typeArguments, methodArguments } with
      | .ok sig => return some sig
      | .error fault => throw fault

end CilMetadata.Graph

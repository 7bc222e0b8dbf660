import CilMetadata.Graph.Code
import CilMetadata.Graph.Names

/-!
# Properties of members

Everything that can be asked of a member, as one function.

* `Property` names what can be asked, and `Answer` what is answered;
* `inspect` answers, or says nothing for a property that members of the kind do not have.
-/

namespace CilMetadata

/-- What can be asked of a member. -/
inductive Property
  | row | name | namespaceName | fullName | resolutionScope | baseType | enclosingType
  | nestedTypes | fieldTokens | fields | methodTokens | methods | events | interfaces | overrides
  | genericParams | signature | declaringType | body | parent | eventType | number
  | parameterKind | owner | method | instantiation | instantiatedSignature | implementingType
  | interface | declaration | action | permissionSet | flags | implementation
  deriving DecidableEq, Repr, Inhabited

namespace Property

/-- The properties with their names. -/
def names : List (String × Property) :=
  [("row", .row), ("name", .name), ("namespace", .namespaceName), ("full_name", .fullName),
   ("resolution_scope", .resolutionScope), ("base_type", .baseType),
   ("enclosing_type", .enclosingType), ("nested_types", .nestedTypes),
   ("field_tokens", .fieldTokens), ("fields", .fields), ("method_tokens", .methodTokens),
   ("methods", .methods), ("events", .events), ("interfaces", .interfaces),
   ("method_impls", .overrides), ("generic_params", .genericParams), ("signature", .signature),
   ("declaring_type", .declaringType), ("body", .body), ("parent", .parent),
   ("event_type", .eventType), ("number", .number), ("kind", .parameterKind), ("owner", .owner),
   ("method", .method), ("instantiation", .instantiation),
   ("instantiated_signature", .instantiatedSignature), ("class", .implementingType),
   ("interface", .interface), ("declaration", .declaration), ("action", .action),
   ("permission_set", .permissionSet), ("flags", .flags), ("implementation", .implementation)]

/-- The property with the given name, if there is one. -/
def ofName? (name : String) : Option Property := names.lookup name

end Property

/-- What is answered about a member. -/
inductive Answer
  | row (kind : RowKind) (row : Row kind)
  | text (text : String)
  | number (number : Nat)
  /-- A token as it stands in the row. -/
  | reference (token : Token)
  /-- The member that a reference leads to, if there is one. -/
  | member (member : Option (MemberKind × Token))
  /-- A definition, if there is one. -/
  | definition (token : Option Token)
  | tokens (tokens : List Token)
  | signature (sig : Signature)
  | methodSignature (sig : Option MethodSig)
  | types (types : List TypeSig)
  | body (body : Option MethodBody)
  | bytes (bytes : Array UInt8)

namespace Graph

/-- The coded columns that lead from a member to another one. -/
def linkColumn? : (kind : MemberKind) → Property → Option (Row kind.rowKind → Token)
  | .typeDefinition, .baseType => some Row.typeDefExtends
  | .memberReference, .parent => some Row.memberRefParent
  | .eventDefinition, .eventType => some Row.eventType
  | .genericParameter, .owner => some Row.genericOwner
  | .methodSpecification, .method => some Row.methodSpecMethod
  | .interfaceImplementation, .interface => some Row.implementedInterface
  | .methodImplementation, .body => some Row.overrideBody
  | .methodImplementation, .declaration => some Row.overrideDeclaration
  | .securityDeclaration, .parent => some Row.securityParent
  | _, _ => none

/-- The member that a coded column leads to. -/
def follow (kind : MemberKind) (column : Row kind.rowKind → Token) (token : Token) :
    GraphM (Option Member) := do
  lookup (column (← row kind.rowKind token))

/-- The existing type with the number in a column. -/
def implementingType (kind : MemberKind) (column : Row kind.rowKind → UInt32) (token : Token) :
    GraphM (Option Token) := do
  definition (some (Token.ofRow .typeDef (column (← row kind.rowKind token)).toNat))

/-- The exported type that an exported type is nested in. -/
def exportingType (token : Token) : GraphM (Option Token) := do
  let row ← row .exportedType token
  return (← find .exportedType row.exportedImplementation).map Member.token

/-- Whether a generic parameter belongs to a type or to a method. -/
def parameterKind (token : Token) : GraphM GenericKind := do
  return if (← row .genericParam token).genericOwner.isIn .methodDef then .method else .type

/-- The permission set of a security declaration. -/
def permissionSet (token : Token) : GraphM (Array UInt8) :=
  return (← remember token .permissionSet do
    blob (← row .declSecurity token).permissionSet).value

/-- The name of a member after its namespace. -/
def fullName? (kind : MemberKind) (token : Token) : GraphM (Option String) :=
  match kind, nameColumn? kind, namespaceColumn? kind with
  | .typeDefinition, _, _ => return some (← definitionName token)
  | kind, some name, some qualifier => return some (← typeName kind name qualifier token)
  | _, _, _ => return none

/-- What all kinds of member with a suitable column have in common. -/
def inspectColumn (kind : MemberKind) (token : Token) (property : Property) :
    GraphM (Option Answer) := do
  match property with
  | .row => return some (.row kind.rowKind (← row kind.rowKind token))
  | .name =>
    match nameColumn? kind with
    | some column => return some (.text (← name kind column token))
    | none => return none
  | .namespaceName =>
    match namespaceColumn? kind with
    | some column => return some (.text (← qualifier kind column token))
    | none => return none
  | .fullName => return (← fullName? kind token).map Answer.text
  | .signature =>
    match signatureColumn? kind with
    | some column => return some (.signature (← signature kind column token))
    | none => return none
  | property =>
    match linkColumn? kind property with
    | some column =>
      let target ← follow kind column token
      return some (.member (target.map fun member => (member.kind, member.token)))
    | none => return none

/-- The answer about a property of a member, or nothing if members of the kind do not have it.
The arguments of the declaring type matter to the signature of an instantiated method alone. -/
def inspect (typeArguments : Option (List TypeSig)) (kind : MemberKind) (token : Token)
    (property : Property) : GraphM (Option Answer) := do
  match kind, property with
  | .typeReference, .resolutionScope =>
    return some (.reference (← row .typeRef token).typeRefScope)
  | .typeDefinition, .enclosingType => return some (.definition (← enclosingType token))
  | .typeDefinition, .nestedTypes => return some (.tokens (← nestedTypes token))
  | .typeDefinition, .fieldTokens => return some (.tokens (← fieldTokens token))
  | .typeDefinition, .fields => return some (.tokens (← fields token))
  | .typeDefinition, .methodTokens => return some (.tokens (← methodTokens token))
  | .typeDefinition, .methods => return some (.tokens (← methods token))
  | .typeDefinition, .events => return some (.tokens (← events token))
  | .typeDefinition, .interfaces => return some (.tokens (← interfaces token))
  | .typeDefinition, .overrides => return some (.tokens (← overrides token))
  | .typeDefinition, .genericParams | .methodDefinition, .genericParams =>
    return some (.tokens (← genericParams token))
  | .fieldDefinition, .declaringType =>
    return some (.definition (← declaringType fieldOwner? token))
  | .methodDefinition, .declaringType =>
    return some (.definition (← declaringType methodOwner? token))
  | .eventDefinition, .declaringType =>
    return some (.definition (← declaringType eventOwner? token))
  | .methodDefinition, .body => return some (.body ((← body? token).map Kept.value))
  | .genericParameter, .number =>
    return some (.number (← row .genericParam token).genericNumber.toNat)
  | .genericParameter, .parameterKind => return some (.text (← parameterKind token).name)
  | .methodSpecification, .signature => return none
  | .methodSpecification, .instantiation => return some (.types (← methodArguments token))
  | .methodSpecification, .instantiatedSignature =>
    return some (.methodSignature (← instantiated? typeArguments token))
  | .interfaceImplementation, .implementingType =>
    return some (.definition
      (← implementingType .interfaceImplementation Row.implementationClass token))
  | .methodImplementation, .implementingType =>
    return some (.definition (← implementingType .methodImplementation Row.overrideClass token))
  | .securityDeclaration, .action =>
    return some (.number (← row .declSecurity token).securityAction.toNat)
  | .securityDeclaration, .permissionSet => return some (.bytes (← permissionSet token))
  | .exportedType, .flags =>
    return some (.number (← row .exportedType token).exportedFlags.toNat)
  | .exportedType, .implementation =>
    return some (.reference (← row .exportedType token).exportedImplementation)
  | .exportedType, .enclosingType => return some (.definition (← exportingType token))
  | kind, property => inspectColumn kind token property

end Graph

end CilMetadata

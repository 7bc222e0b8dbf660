import CilMetadata.Graph.Relations

/-!
# Names of members

* `nameColumn?` and `namespaceColumn?` say which kinds of member have names;
* `typeName` is a name after its namespace;
* `definitionName` puts the names of the types around a type before its own, and refuses types that
  are nested in themselves.
-/

namespace CilMetadata.Graph

/-- The column with the name, of the kinds that have one. -/
def nameColumn? : (kind : MemberKind) → Option (Row kind.rowKind → UInt32)
  | .typeReference => some Row.typeRefName
  | .typeDefinition => some Row.typeDefName
  | .fieldDefinition => some Row.fieldName
  | .methodDefinition => some Row.methodName
  | .memberReference => some Row.memberRefName
  | .eventDefinition => some Row.eventName
  | .propertyDefinition => some Row.propertyName
  | .genericParameter => some Row.genericName
  | .exportedType => some Row.exportedName
  | _ => none

/-- The column with the namespace, of the kinds that have one. -/
def namespaceColumn? : (kind : MemberKind) → Option (Row kind.rowKind → UInt32)
  | .typeReference => some Row.typeRefNamespace
  | .typeDefinition => some Row.typeDefNamespace
  | .exportedType => some Row.exportedNamespace
  | _ => none

/-- The name of a member by its column. -/
def name (kind : MemberKind) (column : Row kind.rowKind → UInt32) (token : Token) :
    GraphM String :=
  return (← remember token .name do string (column (← row kind.rowKind token))).value

/-- The namespace of a type by its column. -/
def qualifier (kind : MemberKind) (column : Row kind.rowKind → UInt32) (token : Token) :
    GraphM String :=
  return (← remember token .qualifier do string (column (← row kind.rowKind token))).value

/-- A name after its namespace, unless that is empty. -/
def qualified (qualifier name : String) : String :=
  if qualifier.isEmpty then name else qualifier ++ "." ++ name

/-- The name of a type after its namespace, by their columns. -/
def typeName (kind : MemberKind) (nameColumn namespaceColumn : Row kind.rowKind → UInt32)
    (token : Token) : GraphM String := do
  let qualifier ← qualifier kind namespaceColumn token
  return qualified qualifier (← name kind nameColumn token)

/-- The namespace of the outermost of the types around a type, and all names, outermost first.

`names` and `qualifier` stand for what has been passed so far; `left` bounds how many types may
still follow, and one that follows nevertheless shows that the nesting leads in a circle. -/
def outwards (start : Token) :
    (left : Nat) → List String → String → Option Token → GraphM (String × List String)
  | _, names, qualifier, none => return (qualifier, names)
  | 0, _, _, some _ => throw (.malformed (.cyclicNesting start))
  | left + 1, names, _, some outer => do
    let name ← name .typeDefinition Row.typeDefName outer
    let qualifier ← qualifier .typeDefinition Row.typeDefNamespace outer
    outwards start left (name :: names) qualifier (← enclosingType outer)

/-- The namespace and the names of a type definition, the names of the types around it first. -/
def definitionName (token : Token) : GraphM String := do
  let left := (← get).tables.count .typeDef
  let name ← name .typeDefinition Row.typeDefName token
  let qualifier ← qualifier .typeDefinition Row.typeDefNamespace token
  let (qualifier, names) ← outwards token left [name] qualifier (← enclosingType token)
  return qualified qualifier ("/".intercalate names)

end CilMetadata.Graph

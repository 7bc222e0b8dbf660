import CilMetadata.Fault

/-!
# Generic arguments

Generic parameters are replaced by arguments, all at once: an argument is put in as it is and not
looked into again.

* `GenericArguments` holds the arguments of types and of methods, `GenericArguments.argument` looks
  one up;
* `TypeSig.instantiate` replaces the parameters of a tree, and returns it as it is when there are
  none; the headed signatures follow;
* `TypeSig.activate` tells a tree that is handed on from one that had to be built.
-/

namespace CilMetadata

/-- The arguments for generic parameters; of a kind without arguments no parameter may occur. -/
structure GenericArguments where
  typeArguments : Option (List TypeSig) := none
  methodArguments : Option (List TypeSig) := none
  deriving Repr, Inhabited

namespace GenericArguments

/-- The arguments for one kind of parameter. -/
def arguments? (ctx : GenericArguments) : GenericKind → Option (List TypeSig)
  | .type => ctx.typeArguments
  | .method => ctx.methodArguments

/-- The argument of a parameter. -/
def argument (ctx : GenericArguments) (param : GenericParam) : Except Fault TypeSig :=
  match ctx.arguments? param.kind with
  | none => .error (.missingProvider param.kind)
  | some arguments =>
    match arguments[param.index]? with
    | some argument => .ok argument
    | none => .error (.argumentOutOfRange param.kind param.index arguments.length)

end GenericArguments

namespace TypeSig

mutual

/-- Replace the parameters of a tree; a tree without parameters is left as it is. -/
def instantiate (ctx : GenericArguments) (type : TypeSig) : Except Fault TypeSig :=
  if type.hasGeneric then
    match type with
    | .generic param => ctx.argument param
    | .wrapped wrapper inner => return .wrapped wrapper (← instantiate ctx inner)
    | .array base shape => return .array (← instantiate ctx base) shape
    | .applied form definition arguments =>
      return .applied form definition (← instantiateAll ctx arguments)
    | .modified required modifier base =>
      return .modified required (← instantiate ctx modifier) (← instantiate ctx base)
    | .typeSpec token expansion => return .typeSpec token (← instantiate ctx expansion)
    | .primitive _ | .named _ _ | .sentinel | .invalid _ => .ok type
  else .ok type

/-- Replace the parameters of several trees. -/
def instantiateAll (ctx : GenericArguments) : List TypeSig → Except Fault (List TypeSig)
  | [] => .ok []
  | type :: rest => return (← instantiate ctx type) :: (← instantiateAll ctx rest)

end

/-- What comes of replacing parameters: the tree that was given, or another one. -/
inductive Activated
  | given
  | built (type : TypeSig)
  deriving Repr, Inhabited

/-- The tree that comes of replacing the parameters of `type`. -/
def Activated.tree (type : TypeSig) : Activated → TypeSig
  | .given => type
  | .built replaced => replaced

/-- Replace the parameters of a tree; a tree without parameters is handed on. -/
def activate (ctx : GenericArguments) (type : TypeSig) : Except Fault Activated :=
  if type.hasGeneric then return .built (← type.instantiate ctx) else return .given

end TypeSig

/-- Replace the parameters of a method signature. -/
def MethodSig.instantiate (ctx : GenericArguments) (sig : MethodSig) : Except Fault MethodSig := do
  return { sig with
    returnType := ← sig.returnType.instantiate ctx
    params := ← TypeSig.instantiateAll ctx sig.params
    varargs := ← TypeSig.instantiateAll ctx sig.varargs }

/-- Replace the parameters of a field signature. -/
def FieldSig.instantiate (ctx : GenericArguments) (sig : FieldSig) : Except Fault FieldSig := do
  return { fieldType := ← sig.fieldType.instantiate ctx }

/-- Replace the parameters of a property signature. -/
def PropertySig.instantiate (ctx : GenericArguments) (sig : PropertySig) :
    Except Fault PropertySig := do
  return { sig with
    propertyType := ← sig.propertyType.instantiate ctx
    params := ← TypeSig.instantiateAll ctx sig.params }

/-- Replace the parameters of local variables. -/
def LocalsSig.instantiate (ctx : GenericArguments) (sig : LocalsSig) : Except Fault LocalsSig := do
  return { locals := ← TypeSig.instantiateAll ctx sig.locals }

/-- Replace the parameters of the arguments of a generic method. -/
def MethodSpecSig.instantiate (ctx : GenericArguments) (sig : MethodSpecSig) :
    Except Fault MethodSpecSig := do
  return { arguments := ← TypeSig.instantiateAll ctx sig.arguments }

end CilMetadata

import CilMetadata.Body.Basic
import CilMetadata.Relocation.Basic
import CilMetadata.Signature.Any
import CilMetadata.Table.Store

/-!
# Relocating values

The tokens that signatures, method bodies and rows refer to are replaced by their final ones. A
token that no relocation knows stays as it is, and so do references to user strings.

* `TypeSig.relocate`, `MethodSig.relocate`, `LocalsSig.relocate`, `Signature.relocate`;
* `Instruction.relocate`, `Clause.relocate`, `MethodBody.relocate`;
* `Tables.relocate` goes through the coded columns of all rows.
-/

namespace CilMetadata

mutual

/-- Replace the tokens of a tree. -/
def TypeSig.relocate (moves : Relocation) : TypeSig → TypeSig
  | .named form token => .named form (moves.resolve token)
  | .wrapped wrapper inner => .wrapped wrapper (inner.relocate moves)
  | .array base shape => .array (base.relocate moves) shape
  | .applied form definition arguments =>
    .applied form (moves.resolve definition) (TypeSig.relocateAll moves arguments)
  | .modified required modifier base =>
    .modified required (modifier.relocate moves) (base.relocate moves)
  | .typeSpec token expansion => .typeSpec (moves.resolve token) (expansion.relocate moves)
  | .primitive type => .primitive type
  | .generic param => .generic param
  | .sentinel => .sentinel
  | .invalid cause => .invalid cause

/-- Replace the tokens of several trees. -/
def TypeSig.relocateAll (moves : Relocation) : List TypeSig → List TypeSig
  | [] => []
  | type :: rest => type.relocate moves :: TypeSig.relocateAll moves rest

end

/-- Replace the tokens of a method signature. -/
def MethodSig.relocate (moves : Relocation) (sig : MethodSig) : MethodSig :=
  { sig with
    returnType := sig.returnType.relocate moves
    params := TypeSig.relocateAll moves sig.params
    varargs := TypeSig.relocateAll moves sig.varargs }

/-- Replace the tokens of local variables. -/
def LocalsSig.relocate (moves : Relocation) (sig : LocalsSig) : LocalsSig where
  locals := TypeSig.relocateAll moves sig.locals

/-- Replace the tokens of a signature of any kind. -/
def Signature.relocate (moves : Relocation) : Signature → Signature
  | .type sig => .type (sig.relocate moves)
  | .method sig => .method (sig.relocate moves)
  | .field sig => .field { fieldType := sig.fieldType.relocate moves }
  | .property sig =>
    .property { sig with
      propertyType := sig.propertyType.relocate moves
      params := TypeSig.relocateAll moves sig.params }
  | .locals sig => .locals (sig.relocate moves)
  | .methodSpec sig => .methodSpec { arguments := TypeSig.relocateAll moves sig.arguments }

/-- Replace the token operand of an instruction, unless it names a user string. -/
def Instruction.relocate (moves : Relocation) (ins : Instruction) : Instruction :=
  match ins.operand with
  | .token token =>
    if token.tag = Token.userStringTag then ins
    else { ins with operand := .token (moves.resolve token) }
  | _ => ins

/-- Replace the caught type of a clause. -/
def Clause.relocate (moves : Relocation) (clause : Clause) : Clause :=
  match clause.caughtType? with
  | some type => { clause with classOrFilter := (moves.resolve type).value }
  | none => clause

/-- Replace the tokens of a method body. -/
def MethodBody.relocate (moves : Relocation) (body : MethodBody) : MethodBody :=
  { body with
    instructions := body.instructions.map (Instruction.relocate moves)
    clauses := body.clauses.map (Clause.relocate moves)
    localsToken := moves.resolve body.localsToken
    locals := TypeSig.relocateAll moves body.locals }

/-- Replace the tokens in the coded columns of all rows. -/
def Tables.relocate (moves : Relocation) (tables : Tables) : Tables :=
  tables.mapTokens moves.resolve

end CilMetadata

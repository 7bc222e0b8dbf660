import CilMetadata.Body.Build
import CilMetadata.Graph.Signatures

/-!
# Method bodies of a module

A body that is read in a module learns the types of its local variables and what its calls do to
the stack. What cannot be found is left open.

* `callEffect` and `constructorEffect` are the effects of calls by the called signature;
* `annotate` looks up the token of an instruction;
* `readBody` reads a body, and `body` keeps it.
-/

namespace CilMetadata.Graph

/-- The effect of a call: it takes the arguments and leaves the result. -/
def callEffect (sig : MethodSig) : StackEffect where
  pops := sig.argumentSlots
  pushes := sig.returnsValue.toNat

/-- The effect of a construction: it supplies the receiver itself and leaves the new object. -/
def constructorEffect (sig : MethodSig) : StackEffect where
  pops := sig.argumentSlots - (sig.hasThis && !sig.explicitThis).toNat
  pushes := 1

/-- The effect of a call through a function pointer, which lies on top of the arguments. -/
def pointerCallEffect (sig : MethodSig) : StackEffect where
  pops := sig.argumentSlots + 1
  pushes := sig.returnsValue.toNat

/-- The signature of a called member, if it can be found. -/
def calleeOf (member : Member) : GraphM (Option MethodSig) :=
  return (← attempt (methodSignature? member)).toOption.join

/-- The method that an instantiated method is made of. -/
def genericMethod? (token : Token) : GraphM (Option Member) := do
  lookup (← row .methodSpec token).methodSpecMethod

/-- The signature of a called method, through its generic form if it is instantiated. -/
def callee? (member : Member) : GraphM (Option MethodSig) := do
  if member.kind = .methodSpecification then
    match (← attempt (genericMethod? member.token)).toOption.join with
    | some method => calleeOf method
    | none => return none
  else calleeOf member

/-- The effect of an instruction whose operand names a member, where it depends on the member. -/
def effectOf? (value : UInt16) (member : Member) : GraphM (Option StackEffect) := do
  if value = Opcode.callValue ∨ value = Opcode.callvirtValue then
    return (← callee? member).map callEffect
  else if value = Opcode.newobjValue then return (← callee? member).map constructorEffect
  else if value = Opcode.calliValue ∧ member.kind = .standAloneSignature then
    let site := signature .standAloneSignature Row.standAloneSignature member.token
    match ← attempt site with
    | .ok (.method sig) => return some (pointerCallEffect sig)
    | _ => return none
  else return none

/-- Look up the token of an instruction, and keep the effect of a call. -/
def annotate (ins : Instruction) : GraphM Instruction := do
  match ins.token? with
  | none => return ins
  | some token =>
    if token.tag = Token.userStringTag then return ins
    else
      match ← lookup token with
      | none => return ins
      | some member => return { ins with callEffect := ← effectOf? ins.opcode.value member }

/-- Look up the tokens of all instructions, first to last. -/
def annotateAll : List Instruction → GraphM (List Instruction)
  | [] => return []
  | ins :: rest => return (← annotate ins) :: (← annotateAll rest)

/-- The types of the local variables that a token names; none if they cannot be read. -/
def localsOf (token : Token) : GraphM (List TypeSig) := do
  match ← lookup token with
  | some ⟨.standAloneSignature, token, _⟩ =>
    match ← attempt (signature .standAloneSignature Row.standAloneSignature token) with
    | .ok (.locals sig) => return sig.locals
    | _ => return []
  | _ => return []

/-- Read the body at the start of some bytes. -/
def readBody (bytes : Array UInt8) : GraphM MethodBody := do
  let settings := (← get).settings
  match MethodBody.read settings bytes with
  | .error fault => throw fault
  | .ok body =>
    let locals ←
      if settings.readsLocals && !body.localsToken.isNull then localsOf body.localsToken
      else pure []
    let instructions ←
      if settings.annotatesCalls then annotateAll body.instructions
      else pure body.instructions
    return { body with locals, instructions }

/-- The body of a method, if it has one and its bytes can be found. -/
def body? (token : Token) : GraphM (Option (Kept MethodBody)) := do
  match (← get).kept? token .body with
  | some kept => return some kept
  | none =>
    let address := (← row .methodDef token).methodRva
    if address = 0 then return none
    else
      match (← get).bodyBytes? address with
      | none => return none
      | some bytes => return some (← remember token .body (readBody bytes))

end CilMetadata.Graph

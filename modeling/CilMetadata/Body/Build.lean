import CilMetadata.Body.StackDepth
import CilMetadata.Instruction.Encode

/-!
# Building method bodies

Building lays the instructions out, checks the labels and computes the stack depth where the body
asks for it, chooses the header, and encodes the code. What has been laid out and computed by the
time a step fails stays in the body.

* `BodyStep` is a step on a body; `layOut`, `checkLabels`, `computeDepth` are the single steps;
* `MethodBody.build` takes all of them.
-/

namespace CilMetadata

/-- A step on a body: it changes the body, and may fail. -/
abbrev BodyStep := EStateM Fault MethodBody

namespace MethodBody

/-- Lay the instructions out back to back from offset 0; the size of the code. -/
def layOut : BodyStep Nat := fun body =>
  .ok (Instruction.totalSize body.instructions)
    { body with instructions := Instruction.layOut body.instructions }

/-- Lay the code out and report every label that is wrong. -/
def checkLabels : BodyStep Unit := do
  let size ← layOut
  match (← get).badLabels size with
  | [] => return ()
  | labels => throw (.invalidLabels labels)

/-- Lay the code out and compute the largest stack depth, which has to fit 16 bits. -/
def computeDepth : BodyStep UInt16 := do
  let _ ← layOut
  let body ← get
  match StackDepth.maxStack body.instructions.toArray body.clauses with
  | .error fault => throw fault
  | .ok depth =>
    if depth ≤ 0xFFFF then return UInt16.ofNat depth
    else throw (.malformed (.maxStackWidth depth))

/-- The stored form of a body whose code has been laid out. A tiny header has no room for local
variables, so that their token and the flag for clearing them are left out. -/
def toRaw (body : MethodBody) : Except Fault RawBody := do
  return {
    isFat := body.isFat
    maxStack := body.maxStack
    initLocals := body.initLocals && body.isFat
    localsToken := if body.isFat then body.localsToken else .null
    code := ← Instruction.code? body.instructions
    clauses := body.clauses }

/-- Build a body; a computed stack depth is kept in it. -/
def build : BodyStep RawBody := do
  let _ ← layOut
  if (← get).checksLabels then checkLabels
  if (← get).computesDepth then
    let depth ← computeDepth
    modify fun body => { body with maxStack := depth }
  match (← get).toRaw with
  | .ok raw => return raw
  | .error fault => throw fault

/-- Build a body and write it. -/
def write : BodyStep (Array UInt8) := do
  match (← build).encode with
  | .ok bytes => return bytes
  | .error fault => throw fault

end MethodBody

end CilMetadata

import CilMetadata.Body.Raw
import CilMetadata.Settings
import CilMetadata.Instruction.Decode

/-!
# Method bodies

A method body as a list of instructions, with its clauses, local variables and header values, and
with what is to be done when it is built.

* `MethodBody.empty` is the start of a new body, `MethodBody.ofRaw` decodes a stored one;
* `MethodBody.codeSize` and `MethodBody.isFat` depend on the offsets as they stand.
-/

namespace CilMetadata

/-- A method body as a list of instructions. -/
structure MethodBody where
  instructions : List Instruction := []
  clauses : List Clause := []
  /-- The types of the local variables, where they are known. -/
  locals : List TypeSig := []
  localsToken : Token := .null
  maxStack : UInt16 := RawBody.tinyMaxStack
  initLocals : Bool := false
  /-- Compute the stack depth when the body is built. -/
  computesDepth : Bool := true
  /-- Check the labels when the body is built. -/
  checksLabels : Bool := true
  deriving Repr, Inhabited

namespace MethodBody

/-- A body without instructions. -/
def empty (settings : Settings) : MethodBody where
  computesDepth := settings.computesDepth
  checksLabels := settings.checksLabels

/-- Decode a stored body; its stack depth is kept when it is built again. -/
def ofRaw (settings : Settings) (raw : RawBody) : Except Fault MethodBody := do
  return {
    instructions := ← Instruction.stream raw.code
    clauses := raw.clauses
    localsToken := raw.localsToken
    maxStack := raw.maxStack
    initLocals := raw.initLocals
    computesDepth := false
    checksLabels := settings.checksLabels }

/-- Read and decode the body at the start of some bytes. -/
def read (settings : Settings) (bytes : Array UInt8) : Except Fault MethodBody := do
  ofRaw settings (← RawBody.decode bytes)

/-- The size of the code by the offsets as they stand. -/
def codeSize (body : MethodBody) : Nat :=
  match body.instructions.getLast? with
  | some last => last.nextOffset.toNat
  | none => 0

/-- Whether a body needs a fat header. -/
def isFat (body : MethodBody) : Bool :=
  !body.clauses.isEmpty || !body.locals.isEmpty || RawBody.tinyMaxStack < body.maxStack
    || decide (RawBody.tinyCodeLimit < body.codeSize)

end MethodBody

end CilMetadata

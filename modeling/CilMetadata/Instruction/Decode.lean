import CilMetadata.Bytes.Cursor

/-!
# Reading code

Instructions are read one after the other. The displacement of a branch counts from the end of its
instruction, that of a jump table from the end of the whole table; an instruction holds the offset
it leads to.

* `Instruction.decode` reads one instruction;
* `Instruction.decodeAll` reads until the code ends, `Instruction.stream` from its start.
-/

namespace CilMetadata

namespace Instruction

/-- The lead byte of the opcodes of two bytes. -/
def leadByte : UInt8 := 0xFE

/-- The place of the cursor as an offset of code, which has to fit 32 bits. -/
def codeOffset : Decoder UInt32 := do
  let pos ← Decoder.position
  if pos < 0x100000000 then return UInt32.ofNat pos else throw (.malformed .codeLength)

/-- The offset that a displacement from `base` leads to, for an instruction at `offset`. -/
def resolve (offset base : UInt32) (displacement : Int) : Except Fault UInt32 :=
  let target := base.toNat + displacement
  if 0 ≤ target ∧ target < 0x100000000 then .ok (UInt32.ofNat target.toNat)
  else .error (.malformed (.branchTarget offset target))

/-- The offset that a displacement from the cursor leads to. -/
def resolveHere (offset : UInt32) (displacement : Int) : Decoder UInt32 := do
  match resolve offset (← codeOffset) displacement with
  | .ok target => return target
  | .error fault => throw fault

/-- The next four bytes as a signed number. -/
def displacement : Decoder Int := return (← Decoder.u32).toInt32.toInt

/-- The offsets of a jump table behind its opcode. -/
def jumpTable (offset : UInt32) : Decoder (List UInt32) := do
  let count := (← Decoder.u32).toNat
  if (← get).remaining < 4 * count then throw .outOfBounds
  else
    let displacements ← Decoder.times displacement count
    let base ← codeOffset
    match displacements.mapM (resolve offset base) with
    | .ok targets => return targets
    | .error fault => throw fault

/-- The operand of an instruction at `offset`. -/
def decodeOperand (offset : UInt32) : OperandKind → Decoder Operand
  | .none => return .none
  | .shortInt => return .int8 (← Decoder.byte).toInt8
  | .byte => return .uint8 (← Decoder.byte)
  | .int => return .int32 (← Decoder.u32).toInt32
  | .long => return .int64 (← Decoder.u64).toInt64
  | .shortFloat => return .float32 (← Decoder.u32)
  | .float => return .float64 (← Decoder.u64)
  | .shortVar => return .variable (← Decoder.byte).toUInt16
  | .var => return .variable (← Decoder.u16)
  | .token => return .token ⟨← Decoder.u32⟩
  | .shortBranch => do
    let displacement := (← Decoder.byte).toInt8.toInt
    return .target (← resolveHere offset displacement)
  | .branch => do
    let displacement ← displacement
    return .target (← resolveHere offset displacement)
  | .switch => return .switch (← jumpTable offset)

/-- The value of an opcode of one or two bytes. -/
def opcodeValue : Decoder UInt16 := do
  let first ← Decoder.byte
  if first = leadByte then return 0xFE00 ||| (← Decoder.byte).toUInt16
  else return first.toUInt16

/-- One instruction. -/
def decode : Decoder Instruction := do
  let offset ← codeOffset
  let value ← opcodeValue
  match Opcode.ofValue? value with
  | none => throw (.invalidOpcode offset value)
  | some opcode => return { opcode, offset, operand := ← decodeOperand offset opcode.operand }

/-- Instructions until the code ends; an instruction takes a byte at least, so that as many steps
as there are bytes suffice. -/
def decodeAll : (steps : Nat) → Decoder (List Instruction)
  | 0 => return []
  | steps + 1 => do
    if (← get).hasMore then return (← decode) :: (← decodeAll steps) else return []

/-- The instructions of some code. -/
def stream (code : Array UInt8) : Except Fault (List Instruction) :=
  (decodeAll code.size).value? code

end Instruction

end CilMetadata

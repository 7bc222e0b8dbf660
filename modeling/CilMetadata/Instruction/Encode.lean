import CilMetadata.Bytes.Output
import CilMetadata.Instruction.Decode

/-!
# Writing code

Instructions are laid out back to back and written one after the other. A branch is written as the
displacement of its target from the end of the written instruction.

* `Instruction.layOut` assigns offsets, `Instruction.totalSize` is the size of the code;
* `Instruction.encode` writes one instruction, `Instruction.code?` a list of them.
-/

namespace CilMetadata

namespace Instruction

/-! ### Layout -/

/-- Assign offsets back to back from a given one. -/
def layOutFrom : (offset : Nat) → List Instruction → List Instruction
  | _, [] => []
  | offset, ins :: rest =>
    { ins with offset := UInt32.ofNat offset } :: layOutFrom (offset + ins.size) rest

/-- Assign offsets back to back from 0. -/
def layOut (code : List Instruction) : List Instruction := layOutFrom 0 code

/-- How many bytes the instructions take. -/
def totalSize (code : List Instruction) : Nat := code.foldr (fun ins n => ins.size + n) 0

/-! ### Bytes -/

/-- The size of the output as an offset of code, which has to fit 32 bits. -/
def outputOffset : Encoder UInt32 := do
  let pos ← Encoder.position
  if pos < 0x100000000 then return UInt32.ofNat pos else throw (.malformed .codeLength)

/-- How far a target lies behind the end of an instruction. -/
def distance (next target : Nat) : Int := (target : Int) - next

/-- A displacement in one byte, for a branch at `start`. -/
def shortDisplacement (start target : UInt32) : Encoder Unit := do
  let next := (← outputOffset).toNat + 1
  let far := distance next target.toNat
  if -0x80 ≤ far ∧ far < 0x80 then Encoder.number 1 (far % 0x100).toNat
  else throw (.branchOutOfRange start target)

/-- A displacement in four bytes from `next`, for a branch at `start`. -/
def longDisplacement (start : UInt32) (next : Nat) (target : UInt32) : Encoder Unit :=
  let far := distance next target.toNat
  if -0x80000000 ≤ far ∧ far < 0x80000000 then Encoder.number 4 (far % 0x100000000).toNat
  else throw (.branchOutOfRange start target)

/-- The operand of an instruction at `start`. -/
def encodeOperand (start : UInt32) (kind : OperandKind) : Operand → Encoder Unit
  | .none => return ()
  | .int8 value => Encoder.byte value.toUInt8
  | .uint8 value => Encoder.byte value
  | .int32 value => Encoder.u32 value.toUInt32
  | .int64 value => Encoder.u64 value.toUInt64
  | .float32 bits => Encoder.u32 bits
  | .float64 bits => Encoder.u64 bits
  | .variable index =>
    if kind = .shortVar then Encoder.byte index.toUInt8 else Encoder.u16 index
  | .token token => Encoder.u32 token.value
  | .target target =>
    if kind = .shortBranch then shortDisplacement start target
    else do longDisplacement start ((← outputOffset).toNat + 4) target
  | .switch targets =>
    if targets.length < 0x100000000 then do
      Encoder.number 4 targets.length
      let next := (← outputOffset).toNat + 4 * targets.length
      Encoder.each (longDisplacement start next) targets
    else throw (.malformed .jumpTableLength)

/-- The bytes of an opcode. -/
def opcodeBytes (opcode : Opcode) : List UInt8 :=
  if opcode.isTwoByte then [leadByte, opcode.value.toUInt8] else [opcode.value.toUInt8]

/-- One instruction, whose operand has to fit its opcode. -/
def encode (ins : Instruction) : Encoder Unit := do
  if ins.operand.fits ins.opcode.operand then
    let start ← outputOffset
    Encoder.emit (opcodeBytes ins.opcode)
    encodeOperand start ins.opcode.operand ins.operand
  else throw (.malformed (.operandKind ins.operand ins.opcode.mnemonic))

/-- The code of a list of instructions. -/
def code? (code : List Instruction) : Except Fault (Array UInt8) :=
  (Encoder.each encode code).bytes?

end Instruction

end CilMetadata

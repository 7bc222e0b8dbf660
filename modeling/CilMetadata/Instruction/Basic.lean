import CilMetadata.Decimal.Text
import CilMetadata.Instruction.Opcode
import CilMetadata.Text.Listing
import CilMetadata.Token

/-!
# Instructions

An instruction is an opcode with an operand, at an offset in the code of a method body. Branch
targets are offsets too, not displacements.

* `Operand.fits` says which operands an opcode takes;
* `Instruction.size`, `nextOffset`, `targets` and `stackEffect?` are read off an instruction;
* `Instruction.text` is the line of a listing.
-/

namespace CilMetadata

/-- The inline operand of an instruction; floats are kept as bit patterns. -/
inductive Operand
  | none
  | int8 (value : Int8)
  | uint8 (value : UInt8)
  | int32 (value : Int32)
  | int64 (value : Int64)
  | float32 (bits : UInt32)
  | float64 (bits : UInt64)
  /-- The number of a local variable or argument. -/
  | variable (index : UInt16)
  /-- The offset a branch goes to. -/
  | target (offset : UInt32)
  /-- The offsets of a jump table. -/
  | switch (offsets : List UInt32)
  | token (token : Token)
  deriving DecidableEq, Repr, Inhabited

namespace Operand

/-- Whether an operand can be written where an operand of the given kind is due. -/
def fits : Operand → OperandKind → Bool
  | .none, .none => true
  | .int8 _, .shortInt => true
  | .uint8 _, .byte => true
  | .int32 _, .int => true
  | .int64 _, .long => true
  | .float32 _, .shortFloat => true
  | .float64 _, .float => true
  | .target _, .shortBranch => true
  | .target _, .branch => true
  | .switch _, .switch => true
  | .token _, .token => true
  | .variable index, .shortVar => index ≤ 0xFF
  | .variable _, .var => true
  | _, _ => false

/-- An operand with its constructor spelled out. -/
def description : Operand → String
  | .none => "None"
  | .int8 value => s!"Int8({value})"
  | .uint8 value => s!"UInt8({value})"
  | .int32 value => s!"Int32({value})"
  | .int64 value => s!"Int64({value})"
  | .float32 bits => s!"Float32({Decimal.marked .single bits.toNat})"
  | .float64 bits => s!"Float64({Decimal.marked .double bits.toNat})"
  | .variable index => s!"Variable({index})"
  | .target offset => s!"Target({offset})"
  | .switch offsets => "Switch(" ++ Text.bracketed (offsets.map toString) ++ ")"
  | .token reference => s!"Token({reference.description})"

end Operand

/-- How many stack slots an instruction takes and how many it leaves. Both are natural numbers:
sums of `2 ^ 32` or more, at which an addition in 32 bits stops or wraps round, are left out. -/
structure StackEffect where
  pops : Nat
  pushes : Nat
  deriving DecidableEq, Repr, Inhabited

/-- An instruction at its offset. -/
structure Instruction where
  opcode : Opcode
  operand : Operand
  offset : UInt32 := 0
  /-- The effect of a call, where the called method's signature is known. -/
  callEffect : Option StackEffect := .none
  deriving DecidableEq, Repr, Inhabited

namespace Instruction

/-- An instruction without operand. -/
def simple (opcode : Opcode) : Instruction := { opcode, operand := .none }

/-- How many bytes an instruction takes. -/
def size (ins : Instruction) : Nat :=
  ins.opcode.size +
    match ins.operand with
    | .switch offsets => 4 + 4 * offsets.length
    | _ => ins.opcode.operand.size

/-- The offset right behind an instruction. -/
def nextOffset (ins : Instruction) : UInt32 := ins.offset + UInt32.ofNat ins.size

/-- The offsets an instruction may branch to, in the order of its operand. -/
def targets (ins : Instruction) : List UInt32 :=
  match ins.operand with
  | .target offset => [offset]
  | .switch offsets => offsets
  | _ => []

/-- The stack effect: the opcode's own, or else the one known for the call. -/
def stackEffect? (ins : Instruction) : Option StackEffect :=
  match ins.opcode.pops, ins.opcode.pushes with
  | .fixed pops, .fixed pushes => some { pops, pushes }
  | _, _ => ins.callEffect

/-- The token operand, if there is one. -/
def token? (ins : Instruction) : Option Token :=
  match ins.operand with
  | .token token => some token
  | _ => .none

/-- An offset as a label. -/
def label (offset : UInt32) : String := "IL_" ++ Text.hexPadded 4 offset.toNat

/-- The operand of a listing line, with a blank before it. -/
def operandText : Operand → String
  | .none => ""
  | .int8 value => s!" {value}"
  | .uint8 value => s!" {value}"
  | .int32 value => s!" {value}"
  | .int64 value => s!" {value}"
  | .float32 bits => " " ++ Decimal.plain .single bits.toNat
  | .float64 bits => " " ++ Decimal.plain .double bits.toNat
  | .variable index => s!" V_{index}"
  | .target offset => " " ++ label offset
  | .switch offsets => " (" ++ ", ".intercalate (offsets.map label) ++ ")"
  | .token token => " " ++ token.text

/-- An instruction as a line of a listing. -/
def text (ins : Instruction) : String :=
  label ins.offset ++ ": " ++ ins.opcode.mnemonic ++ operandText ins.operand

end Instruction

end CilMetadata

import CilMetadata.Text.Radix

/-!
# Opcodes

The instruction set: for every opcode its value, its mnemonic, the kind of its inline operand, how
control leaves it, and how many stack slots it pops and pushes.

* `Opcode.table` lists the 219 opcodes in the order of their values;
* `Opcode.ofValue?` looks an opcode up; values above `0xFF` are written as two bytes.
-/

namespace CilMetadata

/-- The kind of inline operand that follows an opcode. -/
inductive OperandKind
  | none | shortInt | byte | int | long | shortFloat | float | shortVar | var | shortBranch
  | branch | switch | token
  deriving DecidableEq, Repr, Inhabited

/-- The name of an operand kind. -/
def OperandKind.name : OperandKind → String
  | .none => "None"
  | .shortInt => "ShortInt"
  | .byte => "UInt8"
  | .int => "Int"
  | .long => "Long"
  | .shortFloat => "ShortFloat"
  | .float => "Float"
  | .shortVar => "ShortVar"
  | .var => "Var"
  | .shortBranch => "ShortBranch"
  | .branch => "Branch"
  | .switch => "Switch"
  | .token => "Token"

/-- How many bytes an operand takes; of a jump table only the count field. -/
def OperandKind.size : OperandKind → Nat
  | .none => 0
  | .shortInt | .byte | .shortVar | .shortBranch => 1
  | .var => 2
  | .int | .shortFloat | .branch | .switch | .token => 4
  | .long | .float => 8

/-- How control leaves an instruction. -/
inductive Flow
  | next | call | branch | condBranch | switch | leave | ret | throw | modifier
  deriving DecidableEq, Repr, Inhabited

/-- The name of a flow. -/
def Flow.name : Flow → String
  | .next => "Next"
  | .call => "Call"
  | .branch => "Branch"
  | .condBranch => "CondBranch"
  | .switch => "Switch"
  | .leave => "Leave"
  | .ret => "Return"
  | .throw => "Throw"
  | .modifier => "Meta"

/-- Whether the next instruction is a successor. -/
def Flow.canFallThrough : Flow → Bool
  | .branch | .leave | .ret | .throw => false
  | _ => true

/-- How many stack slots an opcode pops or pushes. -/
inductive Slots
  | fixed (count : Nat)
  /-- As many as the signature of the called method says. -/
  | bySignature
  deriving DecidableEq, Repr, Inhabited

/-- The fixed description of one opcode. -/
structure Opcode where
  value : UInt16
  mnemonic : String
  operand : OperandKind
  flow : Flow
  pops : Slots
  pushes : Slots
  deriving DecidableEq, Repr, Inhabited

namespace Opcode

/-- Whether an opcode is written with the lead byte `0xFE`. -/
def isTwoByte (op : Opcode) : Bool := 0xFF < op.value

/-- How many bytes the opcode itself takes. -/
def size (op : Opcode) : Nat := if op.isTwoByte then 2 else 1

/-- An opcode with its value spelled out. -/
def description (op : Opcode) : String :=
  s!"OpCode({Text.hex0xPadded 4 op.value.toNat} {op.mnemonic})"

/-- Every opcode, in the order of the values. -/
def table : List Opcode := [
  ⟨0x00, "nop", .none, .next, .fixed 0, .fixed 0⟩,
  ⟨0x01, "break", .none, .next, .fixed 0, .fixed 0⟩,
  ⟨0x02, "ldarg.0", .none, .next, .fixed 0, .fixed 1⟩,
  ⟨0x03, "ldarg.1", .none, .next, .fixed 0, .fixed 1⟩,
  ⟨0x04, "ldarg.2", .none, .next, .fixed 0, .fixed 1⟩,
  ⟨0x05, "ldarg.3", .none, .next, .fixed 0, .fixed 1⟩,
  ⟨0x06, "ldloc.0", .none, .next, .fixed 0, .fixed 1⟩,
  ⟨0x07, "ldloc.1", .none, .next, .fixed 0, .fixed 1⟩,
  ⟨0x08, "ldloc.2", .none, .next, .fixed 0, .fixed 1⟩,
  ⟨0x09, "ldloc.3", .none, .next, .fixed 0, .fixed 1⟩,
  ⟨0x0A, "stloc.0", .none, .next, .fixed 1, .fixed 0⟩,
  ⟨0x0B, "stloc.1", .none, .next, .fixed 1, .fixed 0⟩,
  ⟨0x0C, "stloc.2", .none, .next, .fixed 1, .fixed 0⟩,
  ⟨0x0D, "stloc.3", .none, .next, .fixed 1, .fixed 0⟩,
  ⟨0x0E, "ldarg.s", .shortVar, .next, .fixed 0, .fixed 1⟩,
  ⟨0x0F, "ldarga.s", .shortVar, .next, .fixed 0, .fixed 1⟩,
  ⟨0x10, "starg.s", .shortVar, .next, .fixed 1, .fixed 0⟩,
  ⟨0x11, "ldloc.s", .shortVar, .next, .fixed 0, .fixed 1⟩,
  ⟨0x12, "ldloca.s", .shortVar, .next, .fixed 0, .fixed 1⟩,
  ⟨0x13, "stloc.s", .shortVar, .next, .fixed 1, .fixed 0⟩,
  ⟨0x14, "ldnull", .none, .next, .fixed 0, .fixed 1⟩,
  ⟨0x15, "ldc.i4.m1", .none, .next, .fixed 0, .fixed 1⟩,
  ⟨0x16, "ldc.i4.0", .none, .next, .fixed 0, .fixed 1⟩,
  ⟨0x17, "ldc.i4.1", .none, .next, .fixed 0, .fixed 1⟩,
  ⟨0x18, "ldc.i4.2", .none, .next, .fixed 0, .fixed 1⟩,
  ⟨0x19, "ldc.i4.3", .none, .next, .fixed 0, .fixed 1⟩,
  ⟨0x1A, "ldc.i4.4", .none, .next, .fixed 0, .fixed 1⟩,
  ⟨0x1B, "ldc.i4.5", .none, .next, .fixed 0, .fixed 1⟩,
  ⟨0x1C, "ldc.i4.6", .none, .next, .fixed 0, .fixed 1⟩,
  ⟨0x1D, "ldc.i4.7", .none, .next, .fixed 0, .fixed 1⟩,
  ⟨0x1E, "ldc.i4.8", .none, .next, .fixed 0, .fixed 1⟩,
  ⟨0x1F, "ldc.i4.s", .shortInt, .next, .fixed 0, .fixed 1⟩,
  ⟨0x20, "ldc.i4", .int, .next, .fixed 0, .fixed 1⟩,
  ⟨0x21, "ldc.i8", .long, .next, .fixed 0, .fixed 1⟩,
  ⟨0x22, "ldc.r4", .shortFloat, .next, .fixed 0, .fixed 1⟩,
  ⟨0x23, "ldc.r8", .float, .next, .fixed 0, .fixed 1⟩,
  ⟨0x25, "dup", .none, .next, .fixed 1, .fixed 2⟩,
  ⟨0x26, "pop", .none, .next, .fixed 1, .fixed 0⟩,
  ⟨0x27, "jmp", .token, .ret, .fixed 0, .fixed 0⟩,
  ⟨0x28, "call", .token, .call, .bySignature, .bySignature⟩,
  ⟨0x29, "calli", .token, .call, .bySignature, .bySignature⟩,
  ⟨0x2A, "ret", .none, .ret, .fixed 0, .fixed 0⟩,
  ⟨0x2B, "br.s", .shortBranch, .branch, .fixed 0, .fixed 0⟩,
  ⟨0x2C, "brfalse.s", .shortBranch, .condBranch, .fixed 1, .fixed 0⟩,
  ⟨0x2D, "brtrue.s", .shortBranch, .condBranch, .fixed 1, .fixed 0⟩,
  ⟨0x2E, "beq.s", .shortBranch, .condBranch, .fixed 2, .fixed 0⟩,
  ⟨0x2F, "bge.s", .shortBranch, .condBranch, .fixed 2, .fixed 0⟩,
  ⟨0x30, "bgt.s", .shortBranch, .condBranch, .fixed 2, .fixed 0⟩,
  ⟨0x31, "ble.s", .shortBranch, .condBranch, .fixed 2, .fixed 0⟩,
  ⟨0x32, "blt.s", .shortBranch, .condBranch, .fixed 2, .fixed 0⟩,
  ⟨0x33, "bne.un.s", .shortBranch, .condBranch, .fixed 2, .fixed 0⟩,
  ⟨0x34, "bge.un.s", .shortBranch, .condBranch, .fixed 2, .fixed 0⟩,
  ⟨0x35, "bgt.un.s", .shortBranch, .condBranch, .fixed 2, .fixed 0⟩,
  ⟨0x36, "ble.un.s", .shortBranch, .condBranch, .fixed 2, .fixed 0⟩,
  ⟨0x37, "blt.un.s", .shortBranch, .condBranch, .fixed 2, .fixed 0⟩,
  ⟨0x38, "br", .branch, .branch, .fixed 0, .fixed 0⟩,
  ⟨0x39, "brfalse", .branch, .condBranch, .fixed 1, .fixed 0⟩,
  ⟨0x3A, "brtrue", .branch, .condBranch, .fixed 1, .fixed 0⟩,
  ⟨0x3B, "beq", .branch, .condBranch, .fixed 2, .fixed 0⟩,
  ⟨0x3C, "bge", .branch, .condBranch, .fixed 2, .fixed 0⟩,
  ⟨0x3D, "bgt", .branch, .condBranch, .fixed 2, .fixed 0⟩,
  ⟨0x3E, "ble", .branch, .condBranch, .fixed 2, .fixed 0⟩,
  ⟨0x3F, "blt", .branch, .condBranch, .fixed 2, .fixed 0⟩,
  ⟨0x40, "bne.un", .branch, .condBranch, .fixed 2, .fixed 0⟩,
  ⟨0x41, "bge.un", .branch, .condBranch, .fixed 2, .fixed 0⟩,
  ⟨0x42, "bgt.un", .branch, .condBranch, .fixed 2, .fixed 0⟩,
  ⟨0x43, "ble.un", .branch, .condBranch, .fixed 2, .fixed 0⟩,
  ⟨0x44, "blt.un", .branch, .condBranch, .fixed 2, .fixed 0⟩,
  ⟨0x45, "switch", .switch, .switch, .fixed 1, .fixed 0⟩,
  ⟨0x46, "ldind.i1", .none, .next, .fixed 1, .fixed 1⟩,
  ⟨0x47, "ldind.u1", .none, .next, .fixed 1, .fixed 1⟩,
  ⟨0x48, "ldind.i2", .none, .next, .fixed 1, .fixed 1⟩,
  ⟨0x49, "ldind.u2", .none, .next, .fixed 1, .fixed 1⟩,
  ⟨0x4A, "ldind.i4", .none, .next, .fixed 1, .fixed 1⟩,
  ⟨0x4B, "ldind.u4", .none, .next, .fixed 1, .fixed 1⟩,
  ⟨0x4C, "ldind.i8", .none, .next, .fixed 1, .fixed 1⟩,
  ⟨0x4D, "ldind.i", .none, .next, .fixed 1, .fixed 1⟩,
  ⟨0x4E, "ldind.r4", .none, .next, .fixed 1, .fixed 1⟩,
  ⟨0x4F, "ldind.r8", .none, .next, .fixed 1, .fixed 1⟩,
  ⟨0x50, "ldind.ref", .none, .next, .fixed 1, .fixed 1⟩,
  ⟨0x51, "stind.ref", .none, .next, .fixed 2, .fixed 0⟩,
  ⟨0x52, "stind.i1", .none, .next, .fixed 2, .fixed 0⟩,
  ⟨0x53, "stind.i2", .none, .next, .fixed 2, .fixed 0⟩,
  ⟨0x54, "stind.i4", .none, .next, .fixed 2, .fixed 0⟩,
  ⟨0x55, "stind.i8", .none, .next, .fixed 2, .fixed 0⟩,
  ⟨0x56, "stind.r4", .none, .next, .fixed 2, .fixed 0⟩,
  ⟨0x57, "stind.r8", .none, .next, .fixed 2, .fixed 0⟩,
  ⟨0x58, "add", .none, .next, .fixed 2, .fixed 1⟩,
  ⟨0x59, "sub", .none, .next, .fixed 2, .fixed 1⟩,
  ⟨0x5A, "mul", .none, .next, .fixed 2, .fixed 1⟩,
  ⟨0x5B, "div", .none, .next, .fixed 2, .fixed 1⟩,
  ⟨0x5C, "div.un", .none, .next, .fixed 2, .fixed 1⟩,
  ⟨0x5D, "rem", .none, .next, .fixed 2, .fixed 1⟩,
  ⟨0x5E, "rem.un", .none, .next, .fixed 2, .fixed 1⟩,
  ⟨0x5F, "and", .none, .next, .fixed 2, .fixed 1⟩,
  ⟨0x60, "or", .none, .next, .fixed 2, .fixed 1⟩,
  ⟨0x61, "xor", .none, .next, .fixed 2, .fixed 1⟩,
  ⟨0x62, "shl", .none, .next, .fixed 2, .fixed 1⟩,
  ⟨0x63, "shr", .none, .next, .fixed 2, .fixed 1⟩,
  ⟨0x64, "shr.un", .none, .next, .fixed 2, .fixed 1⟩,
  ⟨0x65, "neg", .none, .next, .fixed 1, .fixed 1⟩,
  ⟨0x66, "not", .none, .next, .fixed 1, .fixed 1⟩,
  ⟨0x67, "conv.i1", .none, .next, .fixed 1, .fixed 1⟩,
  ⟨0x68, "conv.i2", .none, .next, .fixed 1, .fixed 1⟩,
  ⟨0x69, "conv.i4", .none, .next, .fixed 1, .fixed 1⟩,
  ⟨0x6A, "conv.i8", .none, .next, .fixed 1, .fixed 1⟩,
  ⟨0x6B, "conv.r4", .none, .next, .fixed 1, .fixed 1⟩,
  ⟨0x6C, "conv.r8", .none, .next, .fixed 1, .fixed 1⟩,
  ⟨0x6D, "conv.u4", .none, .next, .fixed 1, .fixed 1⟩,
  ⟨0x6E, "conv.u8", .none, .next, .fixed 1, .fixed 1⟩,
  ⟨0x6F, "callvirt", .token, .call, .bySignature, .bySignature⟩,
  ⟨0x70, "cpobj", .token, .next, .fixed 2, .fixed 0⟩,
  ⟨0x71, "ldobj", .token, .next, .fixed 1, .fixed 1⟩,
  ⟨0x72, "ldstr", .token, .next, .fixed 0, .fixed 1⟩,
  ⟨0x73, "newobj", .token, .call, .bySignature, .fixed 1⟩,
  ⟨0x74, "castclass", .token, .next, .fixed 1, .fixed 1⟩,
  ⟨0x75, "isinst", .token, .next, .fixed 1, .fixed 1⟩,
  ⟨0x76, "conv.r.un", .none, .next, .fixed 1, .fixed 1⟩,
  ⟨0x79, "unbox", .token, .next, .fixed 1, .fixed 1⟩,
  ⟨0x7A, "throw", .none, .throw, .fixed 1, .fixed 0⟩,
  ⟨0x7B, "ldfld", .token, .next, .fixed 1, .fixed 1⟩,
  ⟨0x7C, "ldflda", .token, .next, .fixed 1, .fixed 1⟩,
  ⟨0x7D, "stfld", .token, .next, .fixed 2, .fixed 0⟩,
  ⟨0x7E, "ldsfld", .token, .next, .fixed 0, .fixed 1⟩,
  ⟨0x7F, "ldsflda", .token, .next, .fixed 0, .fixed 1⟩,
  ⟨0x80, "stsfld", .token, .next, .fixed 1, .fixed 0⟩,
  ⟨0x81, "stobj", .token, .next, .fixed 2, .fixed 0⟩,
  ⟨0x82, "conv.ovf.i1.un", .none, .next, .fixed 1, .fixed 1⟩,
  ⟨0x83, "conv.ovf.i2.un", .none, .next, .fixed 1, .fixed 1⟩,
  ⟨0x84, "conv.ovf.i4.un", .none, .next, .fixed 1, .fixed 1⟩,
  ⟨0x85, "conv.ovf.i8.un", .none, .next, .fixed 1, .fixed 1⟩,
  ⟨0x86, "conv.ovf.u1.un", .none, .next, .fixed 1, .fixed 1⟩,
  ⟨0x87, "conv.ovf.u2.un", .none, .next, .fixed 1, .fixed 1⟩,
  ⟨0x88, "conv.ovf.u4.un", .none, .next, .fixed 1, .fixed 1⟩,
  ⟨0x89, "conv.ovf.u8.un", .none, .next, .fixed 1, .fixed 1⟩,
  ⟨0x8A, "conv.ovf.i.un", .none, .next, .fixed 1, .fixed 1⟩,
  ⟨0x8B, "conv.ovf.u.un", .none, .next, .fixed 1, .fixed 1⟩,
  ⟨0x8C, "box", .token, .next, .fixed 1, .fixed 1⟩,
  ⟨0x8D, "newarr", .token, .next, .fixed 1, .fixed 1⟩,
  ⟨0x8E, "ldlen", .none, .next, .fixed 1, .fixed 1⟩,
  ⟨0x8F, "ldelema", .token, .next, .fixed 2, .fixed 1⟩,
  ⟨0x90, "ldelem.i1", .none, .next, .fixed 2, .fixed 1⟩,
  ⟨0x91, "ldelem.u1", .none, .next, .fixed 2, .fixed 1⟩,
  ⟨0x92, "ldelem.i2", .none, .next, .fixed 2, .fixed 1⟩,
  ⟨0x93, "ldelem.u2", .none, .next, .fixed 2, .fixed 1⟩,
  ⟨0x94, "ldelem.i4", .none, .next, .fixed 2, .fixed 1⟩,
  ⟨0x95, "ldelem.u4", .none, .next, .fixed 2, .fixed 1⟩,
  ⟨0x96, "ldelem.i8", .none, .next, .fixed 2, .fixed 1⟩,
  ⟨0x97, "ldelem.i", .none, .next, .fixed 2, .fixed 1⟩,
  ⟨0x98, "ldelem.r4", .none, .next, .fixed 2, .fixed 1⟩,
  ⟨0x99, "ldelem.r8", .none, .next, .fixed 2, .fixed 1⟩,
  ⟨0x9A, "ldelem.ref", .none, .next, .fixed 2, .fixed 1⟩,
  ⟨0x9B, "stelem.i", .none, .next, .fixed 3, .fixed 0⟩,
  ⟨0x9C, "stelem.i1", .none, .next, .fixed 3, .fixed 0⟩,
  ⟨0x9D, "stelem.i2", .none, .next, .fixed 3, .fixed 0⟩,
  ⟨0x9E, "stelem.i4", .none, .next, .fixed 3, .fixed 0⟩,
  ⟨0x9F, "stelem.i8", .none, .next, .fixed 3, .fixed 0⟩,
  ⟨0xA0, "stelem.r4", .none, .next, .fixed 3, .fixed 0⟩,
  ⟨0xA1, "stelem.r8", .none, .next, .fixed 3, .fixed 0⟩,
  ⟨0xA2, "stelem.ref", .none, .next, .fixed 3, .fixed 0⟩,
  ⟨0xA3, "ldelem", .token, .next, .fixed 2, .fixed 1⟩,
  ⟨0xA4, "stelem", .token, .next, .fixed 3, .fixed 0⟩,
  ⟨0xA5, "unbox.any", .token, .next, .fixed 1, .fixed 1⟩,
  ⟨0xB3, "conv.ovf.i1", .none, .next, .fixed 1, .fixed 1⟩,
  ⟨0xB4, "conv.ovf.u1", .none, .next, .fixed 1, .fixed 1⟩,
  ⟨0xB5, "conv.ovf.i2", .none, .next, .fixed 1, .fixed 1⟩,
  ⟨0xB6, "conv.ovf.u2", .none, .next, .fixed 1, .fixed 1⟩,
  ⟨0xB7, "conv.ovf.i4", .none, .next, .fixed 1, .fixed 1⟩,
  ⟨0xB8, "conv.ovf.u4", .none, .next, .fixed 1, .fixed 1⟩,
  ⟨0xB9, "conv.ovf.i8", .none, .next, .fixed 1, .fixed 1⟩,
  ⟨0xBA, "conv.ovf.u8", .none, .next, .fixed 1, .fixed 1⟩,
  ⟨0xC2, "refanyval", .token, .next, .fixed 1, .fixed 1⟩,
  ⟨0xC3, "ckfinite", .none, .next, .fixed 1, .fixed 1⟩,
  ⟨0xC6, "mkrefany", .token, .next, .fixed 1, .fixed 1⟩,
  ⟨0xD0, "ldtoken", .token, .next, .fixed 0, .fixed 1⟩,
  ⟨0xD1, "conv.u2", .none, .next, .fixed 1, .fixed 1⟩,
  ⟨0xD2, "conv.u1", .none, .next, .fixed 1, .fixed 1⟩,
  ⟨0xD3, "conv.i", .none, .next, .fixed 1, .fixed 1⟩,
  ⟨0xD4, "conv.ovf.i", .none, .next, .fixed 1, .fixed 1⟩,
  ⟨0xD5, "conv.ovf.u", .none, .next, .fixed 1, .fixed 1⟩,
  ⟨0xD6, "add.ovf", .none, .next, .fixed 2, .fixed 1⟩,
  ⟨0xD7, "add.ovf.un", .none, .next, .fixed 2, .fixed 1⟩,
  ⟨0xD8, "mul.ovf", .none, .next, .fixed 2, .fixed 1⟩,
  ⟨0xD9, "mul.ovf.un", .none, .next, .fixed 2, .fixed 1⟩,
  ⟨0xDA, "sub.ovf", .none, .next, .fixed 2, .fixed 1⟩,
  ⟨0xDB, "sub.ovf.un", .none, .next, .fixed 2, .fixed 1⟩,
  ⟨0xDC, "endfinally", .none, .ret, .fixed 0, .fixed 0⟩,
  ⟨0xDD, "leave", .branch, .leave, .fixed 0, .fixed 0⟩,
  ⟨0xDE, "leave.s", .shortBranch, .leave, .fixed 0, .fixed 0⟩,
  ⟨0xDF, "stind.i", .none, .next, .fixed 2, .fixed 0⟩,
  ⟨0xE0, "conv.u", .none, .next, .fixed 1, .fixed 1⟩,
  ⟨0xFE00, "arglist", .none, .next, .fixed 0, .fixed 1⟩,
  ⟨0xFE01, "ceq", .none, .next, .fixed 2, .fixed 1⟩,
  ⟨0xFE02, "cgt", .none, .next, .fixed 2, .fixed 1⟩,
  ⟨0xFE03, "cgt.un", .none, .next, .fixed 2, .fixed 1⟩,
  ⟨0xFE04, "clt", .none, .next, .fixed 2, .fixed 1⟩,
  ⟨0xFE05, "clt.un", .none, .next, .fixed 2, .fixed 1⟩,
  ⟨0xFE06, "ldftn", .token, .next, .fixed 0, .fixed 1⟩,
  ⟨0xFE07, "ldvirtftn", .token, .next, .fixed 1, .fixed 1⟩,
  ⟨0xFE09, "ldarg", .var, .next, .fixed 0, .fixed 1⟩,
  ⟨0xFE0A, "ldarga", .var, .next, .fixed 0, .fixed 1⟩,
  ⟨0xFE0B, "starg", .var, .next, .fixed 1, .fixed 0⟩,
  ⟨0xFE0C, "ldloc", .var, .next, .fixed 0, .fixed 1⟩,
  ⟨0xFE0D, "ldloca", .var, .next, .fixed 0, .fixed 1⟩,
  ⟨0xFE0E, "stloc", .var, .next, .fixed 1, .fixed 0⟩,
  ⟨0xFE0F, "localloc", .none, .next, .fixed 1, .fixed 1⟩,
  ⟨0xFE11, "endfilter", .none, .ret, .fixed 1, .fixed 0⟩,
  ⟨0xFE12, "unaligned.", .byte, .modifier, .fixed 0, .fixed 0⟩,
  ⟨0xFE13, "volatile.", .none, .modifier, .fixed 0, .fixed 0⟩,
  ⟨0xFE14, "tail.", .none, .modifier, .fixed 0, .fixed 0⟩,
  ⟨0xFE15, "initobj", .token, .next, .fixed 1, .fixed 0⟩,
  ⟨0xFE16, "constrained.", .token, .modifier, .fixed 0, .fixed 0⟩,
  ⟨0xFE17, "cpblk", .none, .next, .fixed 3, .fixed 0⟩,
  ⟨0xFE18, "initblk", .none, .next, .fixed 3, .fixed 0⟩,
  ⟨0xFE19, "no.", .byte, .modifier, .fixed 0, .fixed 0⟩,
  ⟨0xFE1A, "rethrow", .none, .throw, .fixed 0, .fixed 0⟩,
  ⟨0xFE1C, "sizeof", .token, .next, .fixed 0, .fixed 1⟩,
  ⟨0xFE1D, "refanytype", .none, .next, .fixed 1, .fixed 1⟩,
  ⟨0xFE1E, "readonly.", .none, .modifier, .fixed 0, .fixed 0⟩]

/-- The opcode with the given value, if there is one. -/
def ofValue? (value : UInt16) : Option Opcode := table.find? (·.value == value)

/-! ### Opcodes whose effect depends on a signature -/

/-- The value of `call`. -/
def callValue : UInt16 := 0x28

/-- The value of `calli`, the call through a function pointer. -/
def calliValue : UInt16 := 0x29

/-- The value of `callvirt`. -/
def callvirtValue : UInt16 := 0x6F

/-- The value of `newobj`, the call of a constructor. -/
def newobjValue : UInt16 := 0x73

end Opcode

end CilMetadata

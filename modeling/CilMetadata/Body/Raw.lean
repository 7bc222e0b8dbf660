import CilMetadata.Body.Clause

/-!
# Stored method bodies

A method body is stored as a header, its code and, if it has exception clauses, sections that hold
them. The tiny header is one byte and leaves room for the size of the code alone; the fat header
holds all else.

* `RawBody` is a stored body with the code undecoded;
* `RawBody.decode` reads a body, `RawBody.encode` writes one.
-/

namespace CilMetadata

/-- A method body as it is stored. -/
structure RawBody where
  isFat : Bool
  maxStack : UInt16
  initLocals : Bool
  /-- The token of the signature of the local variables. -/
  localsToken : Token
  code : Array UInt8
  clauses : List Clause
  deriving DecidableEq, Repr, Inhabited

namespace RawBody

/-- The largest size of code behind a tiny header. -/
def tinyCodeLimit : Nat := 63

/-- The stack depth that a tiny header stands for. -/
def tinyMaxStack : UInt16 := 8

/-- The size of the fat header. -/
def fatHeaderSize : Nat := 12

/-- The size of the header of a section. -/
def sectionHeaderSize : Nat := 4

/-- The largest size that the header of a small section can hold. -/
def smallSectionLimit : Nat := 0xFF

/-- The largest size that the header of a fat section can hold. -/
def fatSectionLimit : Nat := 0xFFFFFF

/-! ### Reading -/

/-- The clauses of a section behind its header, if it is a table of clauses. -/
def sectionClauses (flags : UInt8) (size : Nat) : Decoder (List Clause) :=
  if flags &&& 0x01 = 0 then return []
  else if flags &&& 0x40 = 0 then
    Decoder.times Clause.decodeSmall ((size - sectionHeaderSize) / Clause.smallSize)
  else Decoder.times Clause.decodeFat ((size - sectionHeaderSize) / Clause.fatSize)

/-- The size field in the header of a section with the given flags. -/
def sectionSize (flags : UInt8) : Decoder Nat := do
  if flags &&& 0x40 = 0 then
    let size ← Decoder.byte
    modify (·.forward 2)
    return size.toNat
  else
    let low ← Decoder.u16
    let high ← Decoder.byte
    return low.toNat + 0x10000 * high.toNat

/-- One section: its clauses, and whether another section follows. -/
def readSection : Decoder (List Clause × Bool) := do
  let start ← Decoder.position
  let flags ← Decoder.byte
  let size ← sectionSize flags
  if size < sectionHeaderSize then throw (.malformed (.sectionSize start size))
  else if (← get).bytes.size < start + size then throw .outOfBounds
  else
    let clauses ← sectionClauses flags size
    modify fun c => { c with pos := start + size }
    return (clauses, flags &&& 0x80 != 0)

/-- Move to a multiple of four, which may lie past the end. -/
def alignSection : Decoder Unit := modify fun c => c.forward (Decoder.paddingFor 4 c.pos)

/-- The clauses of all sections; a section takes four bytes at least, so that as many steps as
there are bytes suffice. -/
def readSections : (steps : Nat) → Decoder (List Clause)
  | 0 => throw .outOfBounds
  | steps + 1 => do
    alignSection
    let (clauses, more) ← readSection
    if more then return clauses ++ (← readSections steps) else return clauses

/-- A body with a tiny header, whose byte has been read. -/
def readTiny (head : UInt8) : Decoder RawBody := do
  let code ← Decoder.take (head.toNat / 4)
  return { isFat := false, maxStack := tinyMaxStack, initLocals := false, localsToken := .null
           code, clauses := [] }

/-- A body with a fat header. -/
def readFat : Decoder RawBody := do
  if (← get).remaining < fatHeaderSize then throw .outOfBounds
  else
    let start ← Decoder.position
    let word ← Decoder.u16
    let maxStack ← Decoder.u16
    let codeSize := (← Decoder.u32).toNat
    let localsToken : Token := ⟨← Decoder.u32⟩
    let headerSize := 4 * (word.toNat / 0x1000)
    if headerSize < fatHeaderSize then throw (.malformed (.fatHeaderSize headerSize))
    else
      modify fun c => { c with pos := start + headerSize }
      let code ← Decoder.take codeSize
      let clauses ←
        if word &&& 0x08 = 0 then pure [] else readSections (← get).bytes.size
      return { isFat := true, maxStack, initLocals := word &&& 0x10 != 0, localsToken, code,
               clauses }

/-- A body at the cursor. -/
def read : Decoder RawBody := do
  let head ← Decoder.peekByte
  if head &&& 0x03 = 0x02 then
    Decoder.skip 1
    readTiny head
  else if head &&& 0x03 = 0x03 then readFat
  else throw (.malformed (.bodyFormat head))

/-- The body at the start of some bytes. -/
def decode (bytes : Array UInt8) : Except Fault RawBody :=
  if bytes.isEmpty then .error (.malformed .emptyBody) else read.value? bytes

/-! ### Writing -/

/-- Whether a tiny header can stand for all of a body but its stack depth. -/
def fitsTiny (body : RawBody) : Bool :=
  body.code.size ≤ tinyCodeLimit && body.clauses.isEmpty && body.localsToken.isNull
    && !body.initLocals

/-- The size of a small section with the given number of clauses. -/
def smallSectionSize (count : Nat) : Nat := sectionHeaderSize + count * Clause.smallSize

/-- The size of a fat section with the given number of clauses. -/
def fatSectionSize (count : Nat) : Nat := sectionHeaderSize + count * Clause.fatSize

/-- One section with all clauses, small if they fit. -/
def writeSection (clauses : List Clause) : Encoder Unit :=
  let small := smallSectionSize clauses.length
  let fat := fatSectionSize clauses.length
  if small ≤ smallSectionLimit ∧ clauses.all Clause.fitsSmall then do
    Encoder.emit [0x01, UInt8.ofNat small, 0, 0]
    Encoder.each Clause.encodeSmall clauses
  else if fat ≤ fatSectionLimit then do
    Encoder.byte 0x41
    Encoder.number 3 fat
    Encoder.each Clause.encodeFat clauses
  else throw (.malformed (.clauseCount clauses.length))

/-- The first word of a fat header: the format, two flags, and the size of the header. -/
def fatWord (body : RawBody) : UInt16 :=
  0x3003 ||| (if body.initLocals then 0x10 else 0) ||| (if body.clauses.isEmpty then 0 else 0x08)

/-- A body with a fat header. -/
def writeFat (body : RawBody) : Encoder Unit :=
  if body.code.size < 0x100000000 then do
    Encoder.u16 body.fatWord
    Encoder.u16 body.maxStack
    Encoder.number 4 body.code.size
    Encoder.u32 body.localsToken.value
    Encoder.emitArray body.code
    if !body.clauses.isEmpty then
      Encoder.align 4 0
      writeSection body.clauses
  else throw (.malformed (.codeSize body.code.size))

/-- A body with a tiny header. -/
def writeTiny (body : RawBody) : Encoder Unit :=
  if body.fitsTiny then do
    Encoder.byte (UInt8.ofNat (4 * body.code.size + 2))
    Encoder.emitArray body.code
  else throw (.malformed (.tinyHeader body.code.size))

/-- The bytes of a body. -/
def encode (body : RawBody) : Except Fault (Array UInt8) :=
  (if body.isFat then body.writeFat else body.writeTiny).bytes?

end RawBody

end CilMetadata

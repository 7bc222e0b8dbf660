import CilMetadata.Bytes.Cursor
import CilMetadata.Bytes.Output

/-!
# Exception clauses

A clause protects a range of code and names the range of its handler. Its flags tell catch, filter,
finally and fault clauses apart; one more field holds the caught type or the start of the filter.

* `Clause.catching`, `filtering`, `finalizing`, `faulting` make clauses;
* `Clause.filterStart?`, `caughtType?`, `takesException`: what the flags mean;
* `Clause.decodeSmall`, `decodeFat`, `encodeSmall`, `encodeFat`: the two stored forms.
-/

namespace CilMetadata

/-- A protected range and its handler. -/
structure Clause where
  flags : UInt32
  tryOffset : UInt32
  tryLength : UInt32
  handlerOffset : UInt32
  handlerLength : UInt32
  /-- The caught type of a catch clause, the start of the filter of a filter clause. -/
  classOrFilter : UInt32
  deriving DecidableEq, Repr, Inhabited

namespace Clause

/-- The flag of a filter clause. -/
def filterFlag : UInt32 := 1

/-- The flag of a finally clause. -/
def finallyFlag : UInt32 := 2

/-- The flag of a fault clause. -/
def faultFlag : UInt32 := 4

/-- A clause that catches exceptions of a type. -/
def catching (tryOffset tryLength handlerOffset handlerLength : UInt32) (type : Token) :
    Clause :=
  { flags := 0, tryOffset, tryLength, handlerOffset, handlerLength, classOrFilter := type.value }

/-- A clause that catches the exceptions that its filter, which starts at `filter`, lets pass. -/
def filtering (tryOffset tryLength handlerOffset handlerLength filter : UInt32) : Clause :=
  { flags := filterFlag, tryOffset, tryLength, handlerOffset, handlerLength
    classOrFilter := filter }

/-- A clause whose handler always runs in the end. -/
def finalizing (tryOffset tryLength handlerOffset handlerLength : UInt32) : Clause :=
  { flags := finallyFlag, tryOffset, tryLength, handlerOffset, handlerLength, classOrFilter := 0 }

/-- A clause whose handler runs when an exception leaves the range. -/
def faulting (tryOffset tryLength handlerOffset handlerLength : UInt32) : Clause :=
  { flags := faultFlag, tryOffset, tryLength, handlerOffset, handlerLength, classOrFilter := 0 }

/-- The fields of a clause with their names. -/
def toNames (clause : Clause) : List (String × UInt32) :=
  [("flags", clause.flags), ("try_offset", clause.tryOffset), ("try_length", clause.tryLength),
   ("handler_offset", clause.handlerOffset), ("handler_length", clause.handlerLength),
   ("class_token_or_filter", clause.classOrFilter)]

/-- The clause whose fields have the given values by name. -/
def ofNames (value : String → UInt32) : Clause where
  flags := value "flags"
  tryOffset := value "try_offset"
  tryLength := value "try_length"
  handlerOffset := value "handler_offset"
  handlerLength := value "handler_length"
  classOrFilter := value "class_token_or_filter"

/-- Whether a clause is a catch clause, which has no flag. -/
def isCatch (clause : Clause) : Bool := clause.flags == 0

/-- Whether a clause has the flag of a filter clause. -/
def isFilter (clause : Clause) : Bool := clause.flags &&& filterFlag != 0

/-- The type that a catch clause catches. -/
def caughtType? (clause : Clause) : Option Token :=
  if clause.isCatch then some ⟨clause.classOrFilter⟩ else none

/-- The start of the filter of a filter clause. -/
def filterStart? (clause : Clause) : Option UInt32 :=
  if clause.isFilter then some clause.classOrFilter else none

/-- Whether the handler starts with the exception on the stack. -/
def takesException (clause : Clause) : Bool := clause.isCatch || clause.isFilter

/-- The sum of two offsets, or the largest offset if the sum is too large. -/
def clampedSum (a b : UInt32) : UInt32 := UInt32.ofNat (min (a.toNat + b.toNat) 0xFFFFFFFF)

/-- The end of the protected range. -/
def tryEnd (clause : Clause) : UInt32 := clampedSum clause.tryOffset clause.tryLength

/-- The end of the handler. -/
def handlerEnd (clause : Clause) : UInt32 := clampedSum clause.handlerOffset clause.handlerLength

/-- Whether the small form can hold a clause. -/
def fitsSmall (clause : Clause) : Bool :=
  clause.tryOffset ≤ 0xFFFF && clause.tryLength ≤ 0xFF && clause.handlerOffset ≤ 0xFFFF
    && clause.handlerLength ≤ 0xFF && clause.flags ≤ 0xFFFF

/-- How many bytes the small form takes. -/
def smallSize : Nat := 12

/-- How many bytes the fat form takes. -/
def fatSize : Nat := 24

/-- Read the small form. -/
def decodeSmall : Decoder Clause := do
  let flags := (← Decoder.u16).toUInt32
  let tryOffset := (← Decoder.u16).toUInt32
  let tryLength := (← Decoder.byte).toUInt32
  let handlerOffset := (← Decoder.u16).toUInt32
  let handlerLength := (← Decoder.byte).toUInt32
  let classOrFilter ← Decoder.u32
  return { flags, tryOffset, tryLength, handlerOffset, handlerLength, classOrFilter }

/-- Read the fat form. -/
def decodeFat : Decoder Clause := do
  let flags ← Decoder.u32
  let tryOffset ← Decoder.u32
  let tryLength ← Decoder.u32
  let handlerOffset ← Decoder.u32
  let handlerLength ← Decoder.u32
  let classOrFilter ← Decoder.u32
  return { flags, tryOffset, tryLength, handlerOffset, handlerLength, classOrFilter }

/-- Write the small form; what does not fit it is cut off. -/
def encodeSmall (clause : Clause) : Encoder Unit := do
  Encoder.u16 clause.flags.toUInt16
  Encoder.u16 clause.tryOffset.toUInt16
  Encoder.byte clause.tryLength.toUInt8
  Encoder.u16 clause.handlerOffset.toUInt16
  Encoder.byte clause.handlerLength.toUInt8
  Encoder.u32 clause.classOrFilter

/-- Write the fat form. -/
def encodeFat (clause : Clause) : Encoder Unit := do
  Encoder.u32 clause.flags
  Encoder.u32 clause.tryOffset
  Encoder.u32 clause.tryLength
  Encoder.u32 clause.handlerOffset
  Encoder.u32 clause.handlerLength
  Encoder.u32 clause.classOrFilter

end Clause

end CilMetadata

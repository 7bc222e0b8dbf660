import CilMetadata.Instruction.Basic
import CilMetadata.Signature.Basic
import CilMetadata.Table.CodedKind

/-!
# Faults

Everything that can go wrong, as causes; the wording stands in `Defect.message` and
`Fault.message` alone.

* `Defect` lists the ways in which data or a value to be written is malformed;
* `BadLabel` names a branch target or clause boundary that starts no instruction;
* `Fault` is what an operation reports when it fails.
-/

namespace CilMetadata

/-- A way in which data, or a value to be written, is malformed. -/
inductive Defect
  -- numbers and strings
  | narrowColumn (value : Nat)
  | uncompressible (value : Nat)
  | uncompressibleSigned (value : Int)
  | reservedLead (byte : UInt8)
  | serStringEncoding
  | serStringLength (size : Nat)
  -- references
  | uncodable (token : Token) (kind : CodedKind)
  | cyclicNesting (token : Token)
  | missingBlob (index : Nat)
  -- code and bodies
  | codeLength
  | jumpTableLength
  | branchTarget (offset : UInt32) (target : Int)
  | operandKind (operand : Operand) (mnemonic : String)
  | maxStackWidth (depth : Nat)
  | handlerEntry (offset : UInt32)
  | branchEntry (source target : UInt32)
  | emptyBody
  | bodyFormat (byte : UInt8)
  | fatHeaderSize (declared : Nat)
  | sectionSize (offset declared : Nat)
  | tinyHeader (size : Nat)
  | codeSize (size : Nat)
  | clauseCount (count : Nat)
  -- signatures
  | elementType (byte : UInt8) (offset : Nat)
  | instanceKind (byte : UInt8)
  | callingConvention (byte : UInt8)
  | fieldHeader (byte : UInt8)
  | propertyHeader (byte : UInt8)
  | localsHeader (byte : UInt8)
  | methodSpecHeader (byte : UInt8)
  | modifierType (found : TypeSig)
  | bareTypeSpec (token : Token)
  | invalidNode (cause : InvalidCause)
  | listLength (count : Nat)
  -- custom attributes
  | nestedArray
  | unnamedEnum
  | attributeElement (byte : UInt8)
  | namedArgumentKind (byte : UInt8)
  | unnamedArgument
  -- type names
  | trailingText (found name : String)
  | expectedIdentifier (found : String)
  | arraySpecifier (found : String)
  | expectedAssembly
  | expectedEquals (key : String)
  -- heaps
  | stringsHeap
  | stringEntry (index : Nat)
  | stringNul (text : String)
  | heapSize (size : Nat)
  | blobHeap
  | blobLength (size : Nat)
  | guidHeap (size : Nat)
  | guidCount
  | userStringHeap
  | userStringEntry (index : Nat)
  | userStringLength (units : Nat)
  | userStringRange
  deriving Inhabited

/-- The wording of a defect. -/
def Defect.message : Defect → String
  | .narrowColumn value => s!"Value {Text.hex0x value} does not fit a 2 byte column"
  | .uncompressible value => s!"Value {Text.hex0x value} is too large to compress"
  | .uncompressibleSigned value => s!"Value {value} is too large to compress"
  | .reservedLead byte => s!"Invalid compressed uint - {byte}"
  | .serStringEncoding => "SerString is not valid UTF-8"
  | .serStringLength size => s!"SerString of {size} bytes is too long"
  | .uncodable token kind => s!"Token {token.text} can not be encoded as {kind.name}"
  | .cyclicNesting token => s!"Cyclic nesting of type {token.text}"
  | .missingBlob index => s!"Missing signature blob at index {index}"
  | .codeLength => "Instruction stream exceeds 4 GiB"
  | .jumpTableLength => "Switch table too large"
  | .branchTarget offset target =>
    s!"Branch at offset {Text.hex0x offset.toNat} resolves to invalid target {target}"
  | .operandKind operand mnemonic =>
    s!"Operand {operand.description} does not fit opcode {mnemonic}"
  | .maxStackWidth depth => s!"Max stack {depth} exceeds u16"
  | .handlerEntry offset =>
    s!"Handler entry {Text.hex0x offset.toNat} is not an instruction start"
  | .branchEntry source target =>
    s!"Branch at {Text.hex0x source.toNat} targets {Text.hex0x target.toNat}, "
      ++ "which is not an instruction start"
  | .emptyBody => "Provided data for body parsing is empty"
  | .bodyFormat byte =>
    s!"Method header is neither fat nor tiny - {Text.hex0xPadded 2 byte.toNat}"
  | .fatHeaderSize declared => s!"Fat header declares {declared} bytes, needs at least 12"
  | .sectionSize offset declared =>
    s!"Method data section at {Text.hex0x offset} declares {declared} bytes"
  | .tinyHeader size => s!"Body with {size} code bytes cannot use a tiny header"
  | .codeSize size => s!"Code of {size} bytes is too large"
  | .clauseCount count => s!"{count} exception handlers do not fit one section"
  | .elementType byte offset =>
    s!"Unsupported ELEMENT_TYPE - {Text.hex0xPadded 2 byte.toNat} at offset {offset}"
  | .instanceKind byte => s!"GENERICINST - Next byte is not TYPE_CLASS or TYPE_VALUE - {byte}"
  | .callingConvention byte =>
    s!"MethodSignature - invalid calling convention - {Text.hex0xPadded 2 byte.toNat}"
  | .fieldHeader byte => s!"SignatureField - invalid start - {byte}"
  | .propertyHeader byte => s!"SignatureProperty - invalid start - {byte}"
  | .localsHeader byte => s!"SignatureLocalVar - invalid start - {byte}"
  | .methodSpecHeader byte => s!"SignatureMethodSpec - invalid start - {byte}"
  | .modifierType found => s!"Custom modifier must name a type, found {found.description}"
  | .bareTypeSpec token => s!"TypeSpec {token.text} can only be encoded as a custom modifier"
  | .invalidNode cause => s!"Cannot encode an invalid signature node - {cause.message}"
  | .listLength count => s!"Signature list of {count} entries is too long"
  | .nestedArray => "Custom attribute array of arrays"
  | .unnamedEnum => "Enum attribute type without a name"
  | .attributeElement byte =>
    s!"Invalid custom attribute element type - {Text.hex0xPadded 2 byte.toNat}"
  | .namedArgumentKind byte => s!"Invalid named argument kind - {Text.hex0xPadded 2 byte.toNat}"
  | .unnamedArgument => "Named argument without a name"
  | .trailingText found name => s!"Unexpected '{found}' after type name '{name}'"
  | .expectedIdentifier found => s!"Expected an identifier, found '{found}'"
  | .arraySpecifier found => s!"Unexpected '{found}' in array specifier"
  | .expectedAssembly => "Expected an assembly name"
  | .expectedEquals key => s!"Expected '=' after assembly property '{key}'"
  | .stringsHeap => "Provided #Strings heap is empty"
  | .stringEntry index => s!"Invalid string at index - {index}"
  | .stringNul text => s!"String '{text}' contains a NUL character"
  | .heapSize size => s!"Heap size {size} exceeds 32-bit indices"
  | .blobHeap => "Invalid memory for #Blob heap"
  | .blobLength size => s!"Blob of {size} bytes is too long"
  | .guidHeap size => s!"Data for #GUID heap is not a multiple of 16 bytes - {size}"
  | .guidCount => "Too many entries in #GUID heap"
  | .userStringHeap => "Invalid memory for #US heap"
  | .userStringEntry index => s!"Invalid string from index - {index}"
  | .userStringLength units => s!"User string of {units} characters is too long"
  | .userStringRange => "#US heap exceeds the user string token range"

/-- The places of an exception clause that have to start an instruction, or may end the code. -/
inductive Boundary
  | tryStart | tryEnd | handlerStart | handlerEnd | filter
  deriving DecidableEq, Repr, Inhabited

/-- The name of a boundary. -/
def Boundary.name : Boundary → String
  | .tryStart => "TryStart"
  | .tryEnd => "TryEnd"
  | .handlerStart => "HandlerStart"
  | .handlerEnd => "HandlerEnd"
  | .filter => "Filter"

/-- A branch target or clause boundary that starts no instruction. -/
inductive BadLabel
  /-- A target of the branch at `offset`. -/
  | branch (offset target : UInt32)
  /-- A boundary of the clause in place `index` of the list. -/
  | clause (index : Nat) (boundary : Boundary) (target : UInt32)
  deriving DecidableEq, Repr, Inhabited

/-- What an operation reports when it fails. -/
inductive Fault
  | malformed (defect : Defect)
  | outOfBounds
  | invalidTag (kind : CodedKind) (tag : Nat)
  | rowOutOfRange (table : TableKind) (row rows : Nat)
  | invalidOpcode (offset : UInt32) (value : UInt16)
  | notImplemented (what : String)
  | recursionLimit (limit : Nat)
  | missingProvider (kind : GenericKind)
  | argumentOutOfRange (kind : GenericKind) (index count : Nat)
  | invalidLabels (labels : List BadLabel)
  | stackImbalance (offset : UInt32) (expected actual : Nat)
  | stackUnderflow (offset : UInt32)
  | branchOutOfRange (offset target : UInt32)
  | unexpectedMember (token : Token)
  deriving Inhabited

/-- The name of a kind of fault. -/
def Fault.name : Fault → String
  | .malformed _ => "Malformed"
  | .outOfBounds => "OutOfBounds"
  | .invalidTag _ _ => "InvalidCodedIndexTag"
  | .rowOutOfRange _ _ _ => "RidOutOfRange"
  | .invalidOpcode _ _ => "InvalidOpcode"
  | .notImplemented _ => "NotImplemented"
  | .recursionLimit _ => "RecursionLimit"
  | .missingProvider _ => "MissingGenericProvider"
  | .argumentOutOfRange _ _ _ => "GenericArgumentOutOfRange"
  | .invalidLabels _ => "InvalidLabels"
  | .stackImbalance _ _ _ => "StackImbalance"
  | .stackUnderflow _ => "StackUnderflow"
  | .branchOutOfRange _ _ => "BranchOutOfRange"
  | .unexpectedMember _ => "UnexpectedMember"

/-- The wording of a fault. -/
def Fault.message : Fault → String
  | .malformed defect => defect.message
  | .outOfBounds => "Read past the end of the data"
  | .invalidTag kind tag => s!"Invalid tag {tag} for coded index {kind.name}"
  | .rowOutOfRange table row rows =>
    s!"Row {row} is out of range for table {table.name} with {rows} rows"
  | .invalidOpcode offset value =>
    s!"Invalid opcode {Text.hex0xPadded 4 value.toNat} at offset {Text.hex0x offset.toNat}"
  | .notImplemented what => s!"Not implemented - {what}"
  | .recursionLimit limit => s!"Reach the maximum recursion level allowed - {limit}"
  | .missingProvider kind => s!"No generic argument provider for {kind.name} parameters"
  | .argumentOutOfRange kind index count =>
    s!"Generic {kind.name} parameter {index} is out of range, provider has {count} arguments"
  | .invalidLabels labels => s!"Method body contains {labels.length} invalid label(s)"
  | .stackImbalance offset expected actual =>
    s!"Stack imbalance at offset {Text.hex0x offset.toNat}: expected depth {expected}, "
      ++ s!"found {actual}"
  | .stackUnderflow offset => s!"Stack underflow at offset {Text.hex0x offset.toNat}"
  | .branchOutOfRange offset target =>
    s!"Branch at offset {Text.hex0x offset.toNat} cannot reach target "
      ++ s!"{Text.hex0x target.toNat} with a short displacement"
  | .unexpectedMember token => s!"Unexpected member for token {token.text}"

end CilMetadata

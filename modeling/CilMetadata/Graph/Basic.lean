import Std.Data.HashMap
import CilMetadata.Body.Basic
import CilMetadata.Heap.All
import CilMetadata.Graph.Slot
import CilMetadata.Signature.Any
import CilMetadata.Table.Store

/-!
# The graph of a module

A graph stands on the tables and heaps of a module and turns tokens into members. A member is made
on the first look-up of its token and stays the same object from then on. What is computed from
rows is kept, member by member, until it is cleared.

* `MemberKind` names the fifteen tables with members;
* `Slot` names what is kept of a member, and `Slot.Value` its type;
* `Graph.lookup` finds a member;
* `Graph.slotOf` is a slot of a member in the graph, `Graph.remember` keeps what is computed;
* `Graph.clearKept` drops what has been kept.
-/

namespace CilMetadata

/-- The kinds of member. -/
inductive MemberKind
  | typeReference | typeDefinition | typeSpecification | fieldDefinition | methodDefinition
  | memberReference | standAloneSignature | eventDefinition | propertyDefinition
  | genericParameter | methodSpecification | interfaceImplementation | methodImplementation
  | securityDeclaration | exportedType
  deriving DecidableEq, Repr, Inhabited

namespace MemberKind

/-- Every kind of member. -/
def all : List MemberKind :=
  [.typeReference, .typeDefinition, .typeSpecification, .fieldDefinition, .methodDefinition,
   .memberReference, .standAloneSignature, .eventDefinition, .propertyDefinition,
   .genericParameter, .methodSpecification, .interfaceImplementation, .methodImplementation,
   .securityDeclaration, .exportedType]

/-- The name of a kind of member. -/
def name : MemberKind → String
  | .typeReference => "TypeReference"
  | .typeDefinition => "TypeDefinition"
  | .typeSpecification => "TypeSpecification"
  | .fieldDefinition => "FieldDefinition"
  | .methodDefinition => "MethodDefinition"
  | .memberReference => "MemberReference"
  | .standAloneSignature => "StandAloneSignature"
  | .eventDefinition => "EventDefinition"
  | .propertyDefinition => "PropertyDefinition"
  | .genericParameter => "GenericParameter"
  | .methodSpecification => "MethodSpecification"
  | .interfaceImplementation => "InterfaceImplementation"
  | .methodImplementation => "MethodImplementation"
  | .securityDeclaration => "SecurityDeclaration"
  | .exportedType => "ExportedType"

/-- The kind with the given name, if there is one. -/
def ofName? (text : String) : Option MemberKind := all.find? (·.name == text)

/-- The rows that members of a kind stand for. -/
def rowKind : MemberKind → RowKind
  | .typeReference => .typeRef
  | .typeDefinition => .typeDef
  | .typeSpecification => .typeSpec
  | .fieldDefinition => .field
  | .methodDefinition => .methodDef
  | .memberReference => .memberRef
  | .standAloneSignature => .standAloneSig
  | .eventDefinition => .event
  | .propertyDefinition => .property
  | .genericParameter => .genericParam
  | .methodSpecification => .methodSpec
  | .interfaceImplementation => .interfaceImpl
  | .methodImplementation => .methodImpl
  | .securityDeclaration => .declSecurity
  | .exportedType => .exportedType

/-- The table of a kind of member. -/
def table (kind : MemberKind) : TableKind := kind.rowKind.table

/-- The kind of the members of a table, if it has members. -/
def ofTable? (table : TableKind) : Option MemberKind := all.find? (·.table == table)

/-- Whether members of a kind are types. -/
def isType : MemberKind → Bool
  | .typeReference | .typeDefinition | .typeSpecification => true
  | _ => false

end MemberKind

/-- A member: the object that stands for a row. -/
structure Member where
  kind : MemberKind
  token : Token
  object : Nat
  deriving DecidableEq, Repr, Inhabited

/-- What is computed from rows and kept of a member. -/
inductive Slot
  | name | qualifier | enclosingType | nestedTypes | fields | methods | events | interfaces
  | overrides | genericParams | declaringType | signature | permissionSet | body
  deriving DecidableEq, Repr, Inhabited

/-- The type of what a slot keeps. -/
abbrev Slot.Value : Slot → Type
  | .name | .qualifier => String
  | .enclosingType | .declaringType => Option Token
  | .nestedTypes | .fields | .methods | .events | .interfaces | .overrides | .genericParams =>
    List Token
  | .signature => Signature
  | .permissionSet => Array UInt8
  | .body => MethodBody

/-- The slots of one member. -/
structure KeptSlots where
  kept : (slot : Slot) → Option (Kept slot.Value) := fun _ => none

namespace KeptSlots

/-- Replace what a slot keeps. -/
def set (slots : KeptSlots) (slot : Slot) (kept : Option (Kept slot.Value)) : KeptSlots where
  kept other := if h : other = slot then h ▸ kept else slots.kept other

end KeptSlots

/-- A module as a graph of members. -/
structure Graph where
  tables : Tables
  heaps : Heaps
  settings : Settings := {}
  /-- The bytes of method bodies by their address, if bodies can be read at all. -/
  bodies : Option (List (UInt32 × Array UInt8)) := none
  members : Std.HashMap Token Member := {}
  slots : Std.HashMap Token KeptSlots := {}
  nextObject : Nat := 0

/-- A step on a graph: it may make members, keep values, and fail. -/
abbrev GraphM := EStateM Fault Graph

namespace Graph

/-- A graph on tables and heaps; strict settings refuse dangling references. -/
def create (tables : Tables) (heaps : Heaps) (settings : Settings) : Except Fault Graph := do
  if settings.strictReferences then tables.validate
  return { tables, heaps, settings }

/-! ### Members -/

/-- The identity for a new object. -/
def newObject : GraphM Nat :=
  modifyGet fun g => (g.nextObject, { g with nextObject := g.nextObject + 1 })

/-- The member of a token, made now if it does not exist yet. -/
def memberOf (kind : MemberKind) (token : Token) : GraphM Member := do
  match (← get).members[token]? with
  | some member => return member
  | none =>
    let member := { kind, token, object := ← newObject }
    modify fun g => { g with members := g.members.insert token member }
    return member

/-- The member that a token names, if its row exists and its table has members. -/
def lookup (token : Token) : GraphM (Option Member) := do
  if (← get).tables.contains token then
    match token.table?.bind MemberKind.ofTable? with
    | some kind => return some (← memberOf kind token)
    | none => return none
  else return none

/-- The member of the given kind that a token names. -/
def find (kind : MemberKind) (token : Token) : GraphM (Option Member) :=
  if token.isIn kind.table then lookup token else return none

/-- The tokens among a list that name members of the given kind. -/
def findAll (kind : MemberKind) : List Token → GraphM (List Token)
  | [] => return []
  | token :: rest => do
    match ← find kind token with
    | some member => return member.token :: (← findAll kind rest)
    | none => findAll kind rest

/-- The tokens of rows of a table. -/
def tokensOf (table : TableKind) (rows : List Nat) : List Token := rows.map (Token.ofRow table)

/-- The tokens of all members of a kind, in the order of the rows. -/
def membersOf (kind : MemberKind) : GraphM (List Token) := do
  findAll kind (tokensOf kind.table (List.range' 1 ((← get).tables.count kind.table)))

/-- How many members have been made. -/
def memberCount (g : Graph) : Nat := g.members.size

/-! ### Kept values -/

/-- What a slot of a member keeps. -/
def kept? (g : Graph) (token : Token) (slot : Slot) : Option (Kept slot.Value) :=
  (g.slots[token]?).bind fun slots => slots.kept slot

/-- A slot of a member, as a slot of the graph. -/
def slotOf (token : Token) (slot : Slot) : LazySlot Graph slot.Value where
  kept? g := g.kept? token slot
  put kept g := { g with slots := g.slots.insert token (((g.slots[token]?).getD {}).set slot kept) }
  newObject := newObject
  kept?_put kept g := by simp [kept?, KeptSlots.set]

/-- Keep a value in a slot of a member, unless it already keeps one. -/
def keep (token : Token) (slot : Slot) (value : slot.Value) : GraphM (Kept slot.Value) :=
  (slotOf token slot).fill value

/-- The value of a slot, which is computed first if the slot is empty. -/
def remember (token : Token) (slot : Slot) (compute : GraphM slot.Value) :
    GraphM (Kept slot.Value) :=
  (slotOf token slot).force compute

/-- Clear the slots of all members; the members stay. -/
def clearKept (g : Graph) : Graph := { g with slots := {} }

/-! ### Rows, heaps and signatures -/

/-- The outcome of a step, whether it fails or not. -/
def attempt {α : Type} (step : GraphM α) : GraphM (Except Fault α) := fun g =>
  match step g with
  | .ok a g' => .ok (.ok a) g'
  | .error fault g' => .ok (.error fault) g'

/-- The row of a member. -/
def row (kind : RowKind) (token : Token) : GraphM (Row kind) := do
  let tables := (← get).tables
  match tables.row? kind token.row with
  | some row => return row
  | none => throw (.rowOutOfRange kind.table token.row (tables.count kind.table))

/-- A text of the strings heap. -/
def string (index : UInt32) : GraphM String := do
  match (← get).heaps.strings.get index.toNat with
  | .ok text => return text
  | .error fault => throw fault

/-- A blob that has to exist. -/
def blob (index : UInt32) : GraphM (Array UInt8) := do
  match (← get).heaps.blobs.get? index.toNat with
  | some blob => return blob
  | none => throw (.malformed (.missingBlob index.toNat))

/-- Whether a token names an existing type. -/
def isType (g : Graph) (token : Token) : Bool :=
  (token.isIn .typeDef || token.isIn .typeRef || token.isIn .typeSpec) && g.tables.contains token

/-- The blob of a type specification. -/
def specBlob? (g : Graph) (token : Token) : Option (Array UInt8) := do
  let row ← g.tables.rowOf? .typeSpec token
  g.heaps.blobs.get? row.typeSpecSignature.toNat

/-- What signatures need to know of a graph. -/
def resolver (g : Graph) : Resolver where
  isType := g.isType
  specBlob? := g.specBlob?

/-- Read a signature, with the given specifications being expanded. -/
def readSignature (kind : SigKind) (expanding : Expansions) (blob : Array UInt8) :
    GraphM Signature := do
  let g ← get
  let ctx := { resolver := some g.resolver, maxDepth := g.settings.nestingLimit, expanding }
  match (Signature.decode ctx kind).value? blob with
  | .ok sig => return sig
  | .error fault => throw fault

/-- The bytes of the method body at an address. -/
def bodyBytes? (g : Graph) (address : UInt32) : Option (Array UInt8) :=
  g.bodies.bind fun bodies => bodies.lookup address

end Graph

end CilMetadata

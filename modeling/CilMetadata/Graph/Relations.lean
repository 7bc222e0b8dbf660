import CilMetadata.Graph.Basic
import CilMetadata.Graph.Runs

/-!
# Relations between members

Which members belong to which follows from list columns, whose runs divide the rows of another
table among the types, and from the rows of tables that pair two members.

* `enclosingType` and `nestedTypes` read the nesting of types;
* `fieldTokens`, `methodTokens` and `events` are the runs of a type, and `fieldOwner?`,
  `methodOwner?` and `eventOwner?` lead back from a member to its type;
* `interfaces`, `overrides` and `genericParams` are the rows that name an owner.
-/

namespace CilMetadata.Graph

/-! ### Nesting -/

/-- The type that the first row about a nested type puts it in. -/
def enclosingToken? (tables : Tables) (token : Token) : Option Token :=
  (tables.nestedClass.toList.find? fun row => row.nestedClass.toNat == token.row).map fun row =>
    Token.ofRow .typeDef row.enclosingClass.toNat

/-- The types that rows put into a type. -/
def nestedTokens (tables : Tables) (token : Token) : List Token :=
  (tables.nestedClass.toList.filter fun row => row.enclosingClass.toNat == token.row).map
    fun row => Token.ofRow .typeDef row.nestedClass.toNat

/-- The type of a token that may be missing, if it exists. -/
def definition : Option Token → GraphM (Option Token)
  | none => return none
  | some token => return (← find .typeDefinition token).map Member.token

/-- The type that a type is nested in. -/
def enclosingType (token : Token) : GraphM (Option Token) := do
  definition (← remember token .enclosingType do
    return enclosingToken? (← get).tables token).value

/-- The types nested directly in a type. -/
def nestedTypes (token : Token) : GraphM (List Token) := do
  findAll .typeDefinition (← remember token .nestedTypes do
    return nestedTokens (← get).tables token).value

/-! ### Runs -/

/-- Where the fields of the types start. -/
def fieldStarts (tables : Tables) : Array Nat :=
  tables.typeDef.map fun row => row.typeDefFields.toNat

/-- Where the methods of the types start. -/
def methodStarts (tables : Tables) : Array Nat :=
  tables.typeDef.map fun row => row.typeDefMethods.toNat

/-- Where the events of the entries of the event map start. -/
def eventStarts (tables : Tables) : Array Nat :=
  tables.eventMap.map fun row => row.eventMapEvents.toNat

/-- The tokens of the run of the owner in place `index`. -/
def runTokens (tables : Tables) (table : TableKind) (starts : Array Nat) (index : Nat) :
    List Token :=
  tokensOf table (Runs.rows starts index (tables.count table + 1))

/-- The number of the owner of a row. -/
def runOwner? (tables : Tables) (table : TableKind) (starts : Array Nat) (token : Token) :
    Option Nat :=
  Runs.owner? starts token.row (tables.count table + 1)

/-- The tokens of the fields of a type. -/
def fieldTokens (token : Token) : GraphM (List Token) :=
  return (← remember token .fields do
    let tables := (← get).tables
    return runTokens tables .field (fieldStarts tables) (token.row - 1)).value

/-- The tokens of the methods of a type. -/
def methodTokens (token : Token) : GraphM (List Token) :=
  return (← remember token .methods do
    let tables := (← get).tables
    return runTokens tables .methodDef (methodStarts tables) (token.row - 1)).value

/-- The fields of a type. -/
def fields (token : Token) : GraphM (List Token) := do
  findAll .fieldDefinition (← fieldTokens token)

/-- The methods of a type. -/
def methods (token : Token) : GraphM (List Token) := do
  findAll .methodDefinition (← methodTokens token)

/-- The tokens of the events of a type, by the first entry of the event map about it. -/
def eventTokens (tables : Tables) (token : Token) : List Token :=
  match tables.eventMap.findIdx? fun row => row.eventMapParent.toNat == token.row with
  | some index => runTokens tables .event (eventStarts tables) index
  | none => []

/-- The events of a type. -/
def events (token : Token) : GraphM (List Token) := do
  findAll .eventDefinition (← remember token .events do
    return eventTokens (← get).tables token).value

/-- The type in whose run of fields a field lies. -/
def fieldOwner? (tables : Tables) (token : Token) : Option Token :=
  (runOwner? tables .field (fieldStarts tables) token).map (Token.ofRow .typeDef)

/-- The type in whose run of methods a method lies. -/
def methodOwner? (tables : Tables) (token : Token) : Option Token :=
  (runOwner? tables .methodDef (methodStarts tables) token).map (Token.ofRow .typeDef)

/-- The type that the entry of the event map is about in whose run an event lies. -/
def eventOwner? (tables : Tables) (token : Token) : Option Token := do
  let entry ← runOwner? tables .event (eventStarts tables) token
  let row ← tables.row? .eventMap entry
  return Token.ofRow .typeDef row.eventMapParent.toNat

/-- The type that declares a member, by the given rule. -/
def declaringType (owner? : Tables → Token → Option Token) (token : Token) :
    GraphM (Option Token) := do
  definition (← remember token .declaringType do return owner? (← get).tables token).value

/-! ### Rows that name an owner -/

/-- The rows about the interfaces of a type. -/
def interfaceTokens (tables : Tables) (token : Token) : List Token :=
  tokensOf .interfaceImpl
    ((tables.interfaceImpl.toList.filter fun row =>
      row.implementationClass.toNat == token.row).map Row.rid)

/-- The rows about the overrides of a type. -/
def overrideTokens (tables : Tables) (token : Token) : List Token :=
  tokensOf .methodImpl
    ((tables.methodImpl.toList.filter fun row =>
      row.overrideClass.toNat == token.row).map Row.rid)

/-- The generic parameters of an owner, by their numbers; equal numbers keep the order of rows. -/
def genericTokens (tables : Tables) (owner : Token) : List Token :=
  let rows := tables.genericParam.toList.filter fun row => row.genericOwner == owner
  tokensOf .genericParam
    ((rows.mergeSort fun a b => a.genericNumber ≤ b.genericNumber).map Row.rid)

/-- The implemented interfaces of a type. -/
def interfaces (token : Token) : GraphM (List Token) := do
  findAll .interfaceImplementation (← remember token .interfaces do
    return interfaceTokens (← get).tables token).value

/-- The overrides that a type declares. -/
def overrides (token : Token) : GraphM (List Token) := do
  findAll .methodImplementation (← remember token .overrides do
    return overrideTokens (← get).tables token).value

/-- The generic parameters of a type or method. -/
def genericParams (token : Token) : GraphM (List Token) := do
  findAll .genericParameter (← remember token .genericParams do
    return genericTokens (← get).tables token).value

end CilMetadata.Graph

import CilMetadata.Fault

/-!
# Coded indices

The value of a coded index holds the tag of a candidate table in its low bits and a row number
above them; row 0 is a reference to nothing.

* `CodedKind.decode` reads a value, `CodedKind.decodeWithin` also holds the row against a count;
* `CodedKind.encode` writes a token;
* `CodedKind.isWide` says when the values of a kind need four bytes.
-/

namespace CilMetadata.CodedKind

/-- The token that a coded value stands for; nothing for row 0. -/
def decode (kind : CodedKind) (value : Nat) : Except Fault (Option Token) :=
  let tag := value % (1 <<< kind.tagBits)
  let row := value >>> kind.tagBits
  match kind.candidates[tag]? with
  | some (some table) => .ok (if row = 0 then none else some (Token.ofRow table row))
  | _ => .error (.invalidTag kind tag)

/-- The token that a coded value stands for, if its row is not beyond the count of its table. -/
def decodeWithin (kind : CodedKind) (count : TableKind → Nat) (value : Nat) :
    Except Fault (Option Token) := do
  match ← kind.decode value with
  | none => return none
  | some token =>
    match token.decode with
    | none => throw (.unexpectedMember token)
    | some (table, row) =>
      if row ≤ count table then return some token
      else throw (.rowOutOfRange table row (count table))

/-- The tag of a token's table: its place among the candidates. -/
def tagOf? (kind : CodedKind) (token : Token) : Option Nat :=
  kind.candidates.findIdx? fun candidate => candidate.any token.isIn

/-- The coded value of a token; 0 for a token that names no row. -/
def encode (kind : CodedKind) (token : Token) : Except Fault Nat :=
  if token.isNull then .ok 0
  else
    match kind.tagOf? token with
    | some tag => .ok ((token.row <<< kind.tagBits) + tag)
    | none => .error (.malformed (.uncodable token kind))

/-- Whether the values of a kind need four bytes, given the row counts of the tables. -/
def isWide (kind : CodedKind) (count : TableKind → Nat) : Bool :=
  kind.candidates.any fun candidate =>
    candidate.any fun table => decide (1 <<< (16 - kind.tagBits) ≤ count table)

end CilMetadata.CodedKind

import CilMetadata.Table.Kind
import CilMetadata.Text.Radix

/-!
# Tokens

A token names a row of a table, or an entry of the user string heap: the high byte is the table
number, the low 24 bits are the row number. Row 0 names no row.

* `Token.ofRow` builds a token and keeps the low 24 bits of the row number;
* `Token.decode` takes a token of a table apart;
* `Token.text` and `Token.description` are the two forms in which a token is shown.
-/

namespace CilMetadata

/-- A reference to a row of a table, or to an entry of the user string heap. -/
structure Token where
  value : UInt32
  deriving DecidableEq, Repr, Inhabited, Hashable

namespace Token

/-- The number that stands in a token's high byte for the user string heap. -/
def userStringTag : UInt8 := 0x70

/-- The token that names nothing. -/
def null : Token := ⟨0⟩

/-- The token of a row; of the row number the low 24 bits are kept. -/
def ofRow (table : TableKind) (row : Nat) : Token :=
  ⟨(table.code.toUInt32 <<< 24) ||| (UInt32.ofNat row &&& 0xFFFFFF)⟩

/-- The high byte of a token. -/
def tag (token : Token) : UInt8 := (token.value >>> 24).toUInt8

/-- The table that a token's high byte names, if there is one. -/
def table? (token : Token) : Option TableKind := TableKind.ofCode? token.tag

/-- The row number in the low 24 bits of a token. -/
def row (token : Token) : Nat := (token.value &&& 0xFFFFFF).toNat

/-- Whether a token names no row. -/
def isNull (token : Token) : Bool := token.row == 0

/-- Whether a token's high byte is the number of a table. -/
def isIn (token : Token) (table : TableKind) : Bool := token.tag == table.code

/-- The table and the row of a token whose high byte names a table. -/
def decode (token : Token) : Option (TableKind × Nat) :=
  token.table?.map fun table => (table, token.row)

/-- A token as eight hexadecimal digits after `0x`. -/
def text (token : Token) : String := Text.hex0xPadded 8 token.value.toNat

/-- A token with its table number and row spelled out. -/
def description (token : Token) : String :=
  s!"Token({token.text}, table: {Text.hex0xPadded 2 token.tag.toNat}, row: {token.row})"

end Token

end CilMetadata

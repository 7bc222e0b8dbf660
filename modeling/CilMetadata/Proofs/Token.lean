import CilMetadata.Token
import Mathlib.Tactic.Ring

/-!
# The number of a token

A token's number is its table number times `2 ^ 24` plus its row number (`toNat_ofRow`). So a token
is put together again from its parts (`ofRow_row`), and two tokens of one table are equal exactly
when their rows agree in the low 24 bits (`ofRow_eq_ofRow_iff`).
-/

namespace CilMetadata

theorem TableKind.code_injective {first second : TableKind} (h : first.code = second.code) :
    first = second := by
  have hback := congrArg TableKind.ofCode? h
  simpa using hback

theorem TableKind.toNat_code_lt (table : TableKind) : table.code.toNat < 45 := by
  cases table <;> decide

namespace Token

theorem row_eq (token : Token) : token.row = token.value.toNat % 2 ^ 24 := by
  rw [row, UInt32.toNat_and, show (0xFFFFFF : UInt32).toNat = 2 ^ 24 - 1 from rfl,
    Nat.and_two_pow_sub_one_eq_mod]

theorem toNat_tag (token : Token) : token.tag.toNat = token.value.toNat / 2 ^ 24 := by
  have hlt := token.value.toNat_lt
  rw [tag, UInt32.toNat_toUInt8, UInt32.toNat_shiftRight,
    show (24 : UInt32).toNat % 32 = 24 from rfl, Nat.shiftRight_eq_div_pow]
  omega

theorem row_lt (token : Token) : token.row < 2 ^ 24 := by
  rw [row_eq]
  exact Nat.mod_lt _ (by decide)

theorem toNat_ofRow (table : TableKind) (row : Nat) :
    (ofRow table row).value.toNat = 2 ^ 24 * table.code.toNat + row % 2 ^ 24 := by
  have hcode := table.toNat_code_lt
  have hhigh : (table.code.toUInt32 <<< 24).toNat = 2 ^ 24 * table.code.toNat := by
    rw [UInt32.toNat_shiftLeft, UInt8.toNat_toUInt32, show (24 : UInt32).toNat % 32 = 24 from rfl,
      Nat.shiftLeft_eq]
    omega
  have hlow : (UInt32.ofNat row &&& 0xFFFFFF).toNat = row % 2 ^ 24 := by
    rw [UInt32.toNat_and, show (0xFFFFFF : UInt32).toNat = 2 ^ 24 - 1 from rfl,
      Nat.and_two_pow_sub_one_eq_mod, UInt32.toNat_ofNat']
    omega
  rw [ofRow, UInt32.toNat_or, hhigh, hlow, ← Nat.two_pow_add_eq_or_of_lt (by omega)]

@[simp] theorem row_ofRow (table : TableKind) (row : Nat) :
    (ofRow table row).row = row % 2 ^ 24 := by
  rw [row_eq, toNat_ofRow]
  omega

@[simp] theorem tag_ofRow (table : TableKind) (row : Nat) : (ofRow table row).tag = table.code := by
  apply UInt8.toNat_inj.1
  rw [toNat_tag, toNat_ofRow]
  omega

@[simp] theorem decode_ofRow (table : TableKind) (row : Nat) :
    (ofRow table row).decode = some (table, row % 2 ^ 24) := by
  simp [decode, table?]

theorem isIn_iff {token : Token} {table : TableKind} :
    token.isIn table = true ↔ token.tag = table.code := by
  simp [isIn]

theorem isIn_of_table? {token : Token} {table : TableKind} (h : token.table? = some table) :
    token.isIn table = true := by
  have htag : token.tag.toNat < TableKind.all.length := (List.getElem?_eq_some_iff.1 h).1
  rw [isIn_iff]
  apply UInt8.toNat_inj.1
  rw [table?, TableKind.ofCode?] at h
  generalize token.tag.toNat = code at h htag
  have hall : ∀ code < TableKind.all.length, ∀ table, TableKind.all[code]? = some table →
      code = table.code.toNat := by decide
  exact hall code htag table h

@[simp] theorem isIn_ofRow (table : TableKind) (row : Nat) :
    (ofRow table row).isIn table = true := by
  simp [isIn]

/-- A token lies in one table only. -/
theorem isIn_unique {token : Token} {first second : TableKind} (h : token.isIn first = true)
    (h' : token.isIn second = true) : first = second :=
  TableKind.code_injective ((isIn_iff.1 h).symm.trans (isIn_iff.1 h'))

/-- A token is put together again from its table and its row. -/
theorem ofRow_row {token : Token} {table : TableKind} (h : token.isIn table = true) :
    ofRow table token.row = token := by
  have htag := congrArg UInt8.toNat (isIn_iff.1 h)
  have hvalue : (ofRow table token.row).value = token.value := by
    apply UInt32.toNat_inj.1
    rw [toNat_tag] at htag
    rw [toNat_ofRow, row_eq, ← htag]
    omega
  cases token
  exact congrArg Token.mk hvalue

/-- Tokens of one table are equal when their rows agree in the low 24 bits. -/
theorem ofRow_eq_ofRow_iff {table : TableKind} {first second : Nat} :
    ofRow table first = ofRow table second ↔ first % 2 ^ 24 = second % 2 ^ 24 := by
  constructor
  · intro h
    have hrow := congrArg Token.row h
    simpa using hrow
  · intro h
    have hrow := ofRow_row (isIn_ofRow table second)
    rw [row_ofRow, ← h, ← row_ofRow table first, ofRow_row (isIn_ofRow table first)] at hrow
    exact hrow

end Token

end CilMetadata

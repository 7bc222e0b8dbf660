import CilMetadata.Proofs.Token
import CilMetadata.Table.CodedIndex
import Mathlib.Tactic.Common

/-!
# Coded indices are read back

The value of a coded index is the row above the tag (`encode_eq_ok_iff`), and the tag is below
`2 ^ tagBits`. So the value gives the token back (`decode_of_encode`), and it has as many bits as a
row and a tag together (`lt_of_encode`).
-/

namespace CilMetadata.CodedKind

theorem length_candidates_le (kind : CodedKind) :
    kind.candidates.length ≤ 2 ^ kind.tagBits := by
  cases kind <;> decide

theorem tagOf?_eq_some {kind : CodedKind} {token : Token} {tag : Nat}
    (h : kind.tagOf? token = some tag) :
    ∃ table, kind.candidates[tag]? = some (some table) ∧ token.isIn table = true := by
  obtain ⟨hlt, hany, -⟩ := List.findIdx?_eq_some_iff_getElem.1 h
  cases htable : kind.candidates[tag] with
  | none => simp [htable] at hany
  | some table =>
    exact ⟨table, by rw [List.getElem?_eq_getElem hlt, htable], by simpa [htable] using hany⟩

theorem tag_lt {kind : CodedKind} {token : Token} {tag : Nat} (h : kind.tagOf? token = some tag) :
    tag < 2 ^ kind.tagBits := by
  obtain ⟨table, htable, -⟩ := tagOf?_eq_some h
  obtain ⟨hlt, -⟩ := List.getElem?_eq_some_iff.1 htable
  exact Nat.lt_of_lt_of_le hlt kind.length_candidates_le

theorem encode_eq_ok_iff {kind : CodedKind} {token : Token} {value : Nat}
    (hrow : token.isNull = false) :
    kind.encode token = .ok value ↔
      ∃ tag, kind.tagOf? token = some tag ∧ value = token.row * 2 ^ kind.tagBits + tag := by
  rw [encode, if_neg (by simp [hrow])]
  cases htag : kind.tagOf? token with
  | none => simp
  | some tag => simp [Nat.shiftLeft_eq, eq_comm]

/-- A token of a candidate table has a coded value. -/
theorem encode_of_candidate {kind : CodedKind} {token : Token} {table : TableKind}
    (hmem : some table ∈ kind.candidates) (hin : token.isIn table = true) :
    ∃ value, kind.encode token = .ok value := by
  rw [encode]
  split_ifs
  · exact ⟨0, rfl⟩
  · cases htag : kind.tagOf? token with
    | none =>
      have hnone := List.findIdx?_eq_none_iff.1 htag (some table) hmem
      simp [hin] at hnone
    | some tag => exact ⟨_, rfl⟩

/-- The coded value of a token gives the token back. -/
theorem decode_of_encode {kind : CodedKind} {token : Token} {value : Nat}
    (h : kind.encode token = .ok value) (hrow : token.isNull = false) :
    kind.decode value = .ok (some token) := by
  obtain ⟨tag, htag, rfl⟩ := (encode_eq_ok_iff hrow).1 h
  obtain ⟨table, htable, hin⟩ := tagOf?_eq_some htag
  have hlt := tag_lt htag
  -- The tag and the row are the remainder and the quotient by the number of tags.
  have hmod : (token.row * 2 ^ kind.tagBits + tag) % 1 <<< kind.tagBits = tag := by
    rw [Nat.one_shiftLeft, Nat.mul_comm, Nat.mul_add_mod, Nat.mod_eq_of_lt hlt]
  have hdiv : (token.row * 2 ^ kind.tagBits + tag) >>> kind.tagBits = token.row := by
    rw [Nat.shiftRight_eq_div_pow, Nat.mul_comm, Nat.mul_add_div (Nat.two_pow_pos _),
      Nat.div_eq_of_lt hlt, Nat.add_zero]
  have hne : token.row ≠ 0 := by simpa [Token.isNull] using hrow
  simp only [decode, hmod, hdiv, htable, if_neg hne, Token.ofRow_row hin]

theorem lt_of_encode {kind : CodedKind} {token : Token} {value : Nat}
    (h : kind.encode token = .ok value) (hrow : token.isNull = false) :
    value < 2 ^ 24 * 2 ^ kind.tagBits := by
  obtain ⟨tag, htag, rfl⟩ := (encode_eq_ok_iff hrow).1 h
  have hmul : (token.row + 1) * 2 ^ kind.tagBits ≤ 2 ^ 24 * 2 ^ kind.tagBits :=
    Nat.mul_le_mul_right _ token.row_lt
  have hlt := tag_lt htag
  rw [Nat.add_mul, Nat.one_mul] at hmul
  omega

end CilMetadata.CodedKind

import CilMetadata.Proofs.Table.Aliasing
import CilMetadata.Table.Widths

/-!
# Where a coded index becomes wide

A value of two bytes has `16 - tagBits` bits for the row, so that a table of `2 ^ (16 - tagBits)`
rows has a row too many (`isWide_iff`). Below that, all rows of all candidate tables fit
(`encode_le`); from there on, row `2 ^ (16 - tagBits)` does not (`encode_threshold`).

* `isWide_eq_false_iff` says that the decision is exact, and that widths made from row counts have
  taken the same decision for every kind.
-/

namespace CilMetadata

namespace CodedKind

variable {kind : CodedKind} {count : TableKind → Nat}

theorem tagBits_le (kind : CodedKind) : kind.tagBits ≤ 5 := by
  cases kind <;> decide

theorem encode_of_isNull {token : Token} (h : token.isNull = true) : kind.encode token = .ok 0 :=
  if_pos h

/-- Two bytes are divided into the tag and the row. -/
theorem two_pow_row_mul_tag (kind : CodedKind) :
    2 ^ (16 - kind.tagBits) * 2 ^ kind.tagBits = 2 ^ 16 := by
  have hbits := kind.tagBits_le
  rw [← Nat.pow_add, Nat.sub_add_cancel (by omega)]

theorem isWide_iff :
    kind.isWide count = true ↔
      ∃ table, some table ∈ kind.candidates ∧ 2 ^ (16 - kind.tagBits) ≤ count table := by
  simp only [isWide, List.any_eq_true, Option.any_eq_true, decide_eq_true_eq, Nat.one_shiftLeft]
  constructor
  · rintro ⟨_, hmem, table, rfl, hle⟩
    exact ⟨table, hmem, hle⟩
  · rintro ⟨table, hmem, hle⟩
    exact ⟨some table, hmem, table, rfl, hle⟩

example : isWide .typeDefOrRef (fun _ => 0x3FFF) = false ∧ isWide .typeDefOrRef (fun _ => 0x4000) :=
  by decide

/-- Where coded values take two bytes, no row of a candidate table needs more. -/
theorem encode_le {token : Token} {value : Nat} (hnarrow : kind.isWide count = false)
    (h : kind.encode token = .ok value)
    (hrow : ∀ table, token.isIn table = true → token.row ≤ count table) : value ≤ 0xFFFF := by
  cases hnull : token.isNull with
  | true =>
    rw [encode_of_isNull hnull] at h
    cases h
    exact Nat.zero_le _
  | false =>
    obtain ⟨tag, htag, rfl⟩ := (encode_eq_ok_iff hnull).1 h
    obtain ⟨table, htable, hin⟩ := tagOf?_eq_some htag
    have hcount : count table < 2 ^ (16 - kind.tagBits) := by
      by_contra hle
      have hwide := isWide_iff.2 ⟨table, List.mem_of_getElem? htable, Nat.not_lt.1 hle⟩
      rw [hnarrow] at hwide
      cases hwide
    have hlt : token.row < 2 ^ (16 - kind.tagBits) := Nat.lt_of_le_of_lt (hrow table hin) hcount
    have hmul : (token.row + 1) * 2 ^ kind.tagBits ≤ 2 ^ 16 :=
      kind.two_pow_row_mul_tag ▸ Nat.mul_le_mul_right _ hlt
    have htagLt := tag_lt htag
    rw [Nat.add_mul, Nat.one_mul] at hmul
    omega

/-- The first row that two bytes have no room for. -/
theorem encode_threshold {table : TableKind} {value : Nat}
    (h : kind.encode (Token.ofRow table (2 ^ (16 - kind.tagBits))) = .ok value) :
    0xFFFF < value := by
  have hlt : 2 ^ (16 - kind.tagBits) < 2 ^ 24 :=
    Nat.pow_lt_pow_right (by decide) (by omega)
  have hrow : (Token.ofRow table (2 ^ (16 - kind.tagBits))).row = 2 ^ (16 - kind.tagBits) := by
    rw [Token.row_ofRow, Nat.mod_eq_of_lt hlt]
  have hnull : (Token.ofRow table (2 ^ (16 - kind.tagBits))).isNull = false := by
    simp [Token.isNull, hrow]
  obtain ⟨tag, -, rfl⟩ := (encode_eq_ok_iff hnull).1 h
  rw [hrow, kind.two_pow_row_mul_tag]
  omega

end CodedKind

theorem Widths.isWideCoded_ofFlags (count : TableKind → Nat) (heapFlags : Nat) (kind : CodedKind) :
    (Widths.ofFlags count heapFlags).isWideCoded kind = kind.isWide count := by
  cases kind <;> rfl

/-- A kind of coded index is narrow exactly when every row of every candidate table has a coded
value of two bytes; and the widths for these row counts say the same of every kind. -/
theorem CodedKind.isWide_eq_false_iff (kind : CodedKind) (count : TableKind → Nat) :
    (kind.isWide count = false ↔
      ∀ table, some table ∈ kind.candidates → ∀ row, 1 ≤ row → row ≤ count table →
        ∃ value, kind.encode (Token.ofRow table row) = .ok value ∧ value ≤ 0xFFFF) ∧
    ∀ heapFlags, (Widths.ofFlags count heapFlags).isWideCoded kind = kind.isWide count := by
  refine ⟨⟨fun hnarrow table hmem row _ hle => ?_, fun hfits => ?_⟩,
    fun heapFlags => Widths.isWideCoded_ofFlags count heapFlags kind⟩
  · obtain ⟨value, hvalue⟩ := encode_of_candidate hmem (Token.isIn_ofRow table row)
    refine ⟨value, hvalue, encode_le hnarrow hvalue fun table' hin => ?_⟩
    obtain rfl := Token.isIn_unique (Token.isIn_ofRow table row) hin
    rw [Token.row_ofRow]
    exact (Nat.mod_le _ _).trans hle
  · rw [Bool.eq_false_iff, ne_eq, isWide_iff]
    rintro ⟨table, hmem, hle⟩
    obtain ⟨value, hvalue, hsmall⟩ := hfits table hmem _ Nat.one_le_two_pow hle
    exact absurd hsmall (Nat.not_le.2 (encode_threshold hvalue))

end CilMetadata

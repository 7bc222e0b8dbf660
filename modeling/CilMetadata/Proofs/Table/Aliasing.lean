import CilMetadata.Proofs.Table.CodedIndex
import Mathlib.Tactic.Common

/-!
# Which coded values alias

A coded value has room for more row numbers than a token keeps, so that decoding gives values of
different rows one token. A value is free of this when its tag is wrong anyway or its row number
fits into the 24 bits of a token.

* `tableIn?` and `rowIn` take a coded value apart;
* `decode_eq` and `decodeWithin_eq` are decoding by these parts;
* `Unaliased` is what decoding should tell about a value, `unaliased_iff` of which values it does.
-/

namespace CilMetadata.CodedKind

/-! ### The parts of a value -/

/-- The table that the tag of a coded value selects, if it selects one. -/
def tableIn? (kind : CodedKind) (value : Nat) : Option TableKind :=
  (kind.candidates[value % 2 ^ kind.tagBits]?).join

/-- The row number that a coded value holds above its tag. -/
def rowIn (kind : CodedKind) (value : Nat) : Nat := value / 2 ^ kind.tagBits

theorem decode_eq (kind : CodedKind) (value : Nat) :
    kind.decode value =
      match kind.tableIn? value with
      | some table =>
        .ok (if kind.rowIn value = 0 then none else some (Token.ofRow table (kind.rowIn value)))
      | none => .error (.invalidTag kind (value % 2 ^ kind.tagBits)) := by
  simp only [decode, tableIn?, rowIn, Nat.one_shiftLeft, Nat.shiftRight_eq_div_pow]
  rcases kind.candidates[value % 2 ^ kind.tagBits]? with _ | _ | table <;> rfl

/-- Decoding within counts looks at the row number that the token has kept. -/
theorem decodeWithin_eq (kind : CodedKind) (count : TableKind → Nat) (value : Nat) :
    kind.decodeWithin count value =
      match kind.tableIn? value with
      | some table =>
        let kept := kind.rowIn value % 2 ^ 24
        if kind.rowIn value = 0 then .ok none
        else if kept ≤ count table then .ok (some (Token.ofRow table (kind.rowIn value)))
        else .error (.rowOutOfRange table kept (count table))
      | none => .error (.invalidTag kind (value % 2 ^ kind.tagBits)) := by
  rw [decodeWithin, decode_eq]
  cases kind.tableIn? value with
  | none => rfl
  | some table =>
    by_cases hrow : kind.rowIn value = 0
    · simp only [if_pos hrow]
      rfl
    · simp only [if_neg hrow, bind, Except.bind, Token.decode_ofRow]
      rfl

/-! ### The place of a table among the candidates -/

theorem candidates_pairwise (kind : CodedKind) :
    kind.candidates.Pairwise fun first second => first.isSome → first ≠ second := by
  cases kind <;> decide

theorem tag_unique {kind : CodedKind} {table : TableKind} {first second : Nat}
    (h : kind.candidates[first]? = some (some table))
    (h' : kind.candidates[second]? = some (some table)) : first = second := by
  obtain ⟨hfirst, heq⟩ := List.getElem?_eq_some_iff.1 h
  obtain ⟨hsecond, heq'⟩ := List.getElem?_eq_some_iff.1 h'
  have hdistinct := List.pairwise_iff_getElem.1 kind.candidates_pairwise
  rcases Nat.lt_trichotomy first second with hlt | hsame | hgt
  · exact absurd (heq.trans heq'.symm) (hdistinct first second hfirst hsecond hlt (by simp [heq]))
  · exact hsame
  · exact absurd (heq'.trans heq.symm) (hdistinct second first hsecond hfirst hgt (by simp [heq']))

theorem tagOf?_of_candidate {kind : CodedKind} {token : Token} {table : TableKind} {tag : Nat}
    (h : kind.candidates[tag]? = some (some table)) (hin : token.isIn table = true) :
    kind.tagOf? token = some tag := by
  cases htag : kind.tagOf? token with
  | none =>
    have hnone := List.findIdx?_eq_none_iff.1 htag (some table) (List.mem_of_getElem? h)
    simp [hin] at hnone
  | some other =>
    obtain ⟨table', h', hin'⟩ := tagOf?_eq_some htag
    obtain rfl := Token.isIn_unique hin hin'
    rw [tag_unique h' h]

/-- The token of a row that a token can keep is coded by the value that holds the row. -/
theorem encode_ofRow_rowIn {kind : CodedKind} {value : Nat} {table : TableKind}
    (htable : kind.tableIn? value = some table) (hpos : kind.rowIn value ≠ 0)
    (hfits : kind.rowIn value < 2 ^ 24) :
    kind.encode (Token.ofRow table (kind.rowIn value)) = .ok value := by
  have hrow : (Token.ofRow table (kind.rowIn value)).row = kind.rowIn value := by
    rw [Token.row_ofRow, Nat.mod_eq_of_lt hfits]
  have htag : kind.tagOf? (Token.ofRow table (kind.rowIn value)) =
      some (value % 2 ^ kind.tagBits) :=
    tagOf?_of_candidate (Option.join_eq_some_iff.1 htable) (Token.isIn_ofRow _ _)
  refine (encode_eq_ok_iff (by simpa [Token.isNull, hrow] using hpos)).2 ⟨_, htag, ?_⟩
  rw [hrow, rowIn, Nat.mul_comm, Nat.div_add_mod]

/-! ### Values that do not alias -/

/-- What decoding tells about a coded value, if it tells the truth: the row that the value holds is
the row of the token, and is what is held against the row count of the table. -/
structure Unaliased (kind : CodedKind) (value : Nat) : Prop where
  /-- A decoded token has the row of the value, and is coded by no other value. -/
  decoded : ∀ token, kind.decode value = .ok (some token) →
    token.row = kind.rowIn value ∧ token.isNull = false ∧ kind.encode token = .ok value
  /-- A token comes out exactly when the row of the value lies in the table. -/
  within : ∀ count, (∃ token, kind.decodeWithin count value = .ok (some token)) ↔
    ∃ table, kind.tableIn? value = some table ∧ 1 ≤ kind.rowIn value ∧
      kind.rowIn value ≤ count table
  /-- A row past the end of the table is reported with its number. -/
  outOfRange : ∀ count table, kind.tableIn? value = some table → count table < kind.rowIn value →
    kind.decodeWithin count value = .error (.rowOutOfRange table (kind.rowIn value) (count table))
  /-- A tag that selects no table is reported. -/
  invalidTag : ∀ count, kind.tableIn? value = none →
    kind.decodeWithin count value = .error (.invalidTag kind (value % 2 ^ kind.tagBits))
  /-- Nothing comes out for row 0 alone. -/
  nothing : ∀ count, kind.decodeWithin count value = .ok none → kind.rowIn value = 0

theorem unaliased_of_tableIn?_none {kind : CodedKind} {value : Nat}
    (htable : kind.tableIn? value = none) : Unaliased kind value where
  decoded token h := by simp [decode_eq, htable] at h
  within count := by simp [decodeWithin_eq, htable]
  outOfRange count table h := by simp [htable] at h
  invalidTag count _ := by rw [decodeWithin_eq, htable]
  nothing count h := by simp [decodeWithin_eq, htable] at h

theorem unaliased_of_rowIn_lt {kind : CodedKind} {value : Nat} {table : TableKind}
    (htable : kind.tableIn? value = some table) (hfits : kind.rowIn value < 2 ^ 24) :
    Unaliased kind value := by
  have hkept : kind.rowIn value % 2 ^ 24 = kind.rowIn value := Nat.mod_eq_of_lt hfits
  have hwithin : ∀ count, kind.decodeWithin count value =
      if kind.rowIn value = 0 then .ok none
      else if kind.rowIn value ≤ count table then
        .ok (some (Token.ofRow table (kind.rowIn value)))
      else .error (.rowOutOfRange table (kind.rowIn value) (count table)) := by
    intro count
    rw [decodeWithin_eq, htable, hkept]
  constructor
  case decoded =>
    intro token h
    rw [decode_eq, htable] at h
    by_cases hrow : kind.rowIn value = 0
    · simp [hrow] at h
    · simp only [if_neg hrow, Except.ok.injEq, Option.some.injEq] at h
      subst h
      have hkeep : (Token.ofRow table (kind.rowIn value)).row = kind.rowIn value := by
        rw [Token.row_ofRow, hkept]
      exact ⟨hkeep, by simpa [Token.isNull, hkeep] using hrow,
        encode_ofRow_rowIn htable hrow hfits⟩
  case within =>
    intro count
    rw [hwithin, htable]
    by_cases hrow : kind.rowIn value = 0
    · simp [hrow]
    · have hpos : 1 ≤ kind.rowIn value := Nat.one_le_iff_ne_zero.2 hrow
      by_cases hle : kind.rowIn value ≤ count table
      · simp [hrow, hle, hpos]
      · simp [hrow, hle]
  case outOfRange =>
    intro count table' htable' hlt
    obtain rfl : table = table' := by simpa [htable] using htable'
    rw [hwithin, if_neg (Nat.ne_zero_of_lt hlt), if_neg (Nat.not_le.2 hlt)]
  case invalidTag =>
    intro count hnone
    simp [htable] at hnone
  case nothing =>
    intro count h
    rw [hwithin] at h
    by_contra hrow
    rw [if_neg hrow] at h
    split_ifs at h
    all_goals simp at h

/-- The token of a non-null reference is decoded from its coded value, always. The value of a coded
index is decoded faithfully exactly when its tag selects no table or its row number fits into a
token; of other row numbers the low 24 bits are looked at alone. -/
theorem unaliased_iff (kind : CodedKind) (value : Nat) :
    (∀ token, token.isNull = false → kind.encode token = .ok value →
      kind.decode value = .ok (some token)) ∧
    (Unaliased kind value ↔ kind.tableIn? value = none ∨ kind.rowIn value < 2 ^ 24) := by
  refine ⟨fun token hrow hencode => decode_of_encode hencode hrow, ?_, ?_⟩
  · intro h
    cases htable : kind.tableIn? value with
    | none => exact .inl rfl
    | some table =>
      refine .inr (Nat.lt_of_not_le fun hwide => ?_)
      have hpos : kind.rowIn value ≠ 0 := by omega
      have hdecode : kind.decode value = .ok (some (Token.ofRow table (kind.rowIn value))) := by
        rw [decode_eq, htable]
        simp only [if_neg hpos]
      -- The token has fewer bits of the row than the value.
      have hrow := (h.decoded _ hdecode).1
      rw [Token.row_ofRow] at hrow
      omega
  · rintro (htable | hfits)
    · exact unaliased_of_tableIn?_none htable
    · cases htable : kind.tableIn? value with
      | none => exact unaliased_of_tableIn?_none htable
      | some table => exact unaliased_of_rowIn_lt htable hfits

/-- Row 16777217 of a table with one row is accepted as row 1, and row 16777216 gives a token that
names no row. -/
theorem not_unaliased_wideRow :
    rowIn .typeDefOrRef 0x04000004 = 16777217 ∧
    tableIn? .typeDefOrRef 0x04000004 = some .typeDef ∧
    decodeWithin .typeDefOrRef (fun _ => 1) 0x04000004 = .ok (some (Token.ofRow .typeDef 1)) ∧
    ¬ Unaliased .typeDefOrRef 0x04000004 ∧
    decode .typeDefOrRef 0x04000000 = .ok (some (Token.ofRow .typeDef 0)) ∧
    (Token.ofRow .typeDef 0).isNull = true := by
  refine ⟨rfl, rfl, rfl, fun h => ?_, rfl, rfl⟩
  obtain ⟨table, -, -, hle⟩ := (h.within fun _ => 1).1 ⟨_, rfl⟩
  exact absurd hle (by decide)

end CilMetadata.CodedKind

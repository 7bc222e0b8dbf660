import CilMetadata.Proofs.Token
import CilMetadata.Table.Store
import Mathlib.Tactic.Common

/-!
# Which references are checked

The check of all references goes through coded columns that are named one by one. These are all
coded columns of all layouts, in a fixed order of the tables.

* `RowKind.referenceOrder` is that order, and `references_eq` says that a table is gone through row
  by row, and a row from left to right; by `mem_references` no coded column is left out;
* `Tables.Holds` is what makes a reference sound;
* `validate_eq_ok_iff` and `validate_eq_error_iff` are the two outcomes of the check: every
  reference holds, or the first one that does not is reported.
-/

namespace CilMetadata

/-! ### The order of the check -/

/-- The tables with coded columns, in the order in which their references are checked. -/
def RowKind.referenceOrder : List RowKind :=
  [.typeRef, .typeDef, .interfaceImpl, .memberRef, .declSecurity, .methodImpl, .exportedType,
   .event, .genericParam, .methodSpec]

/-- The coded columns of a layout. -/
def RowKind.codedColumns (kind : RowKind) : List Column :=
  kind.columns.filter fun column => column.type matches .coded _

/-- Every table with a coded column has its place in the order. -/
theorem RowKind.mem_referenceOrder_iff {kind : RowKind} :
    kind ∈ referenceOrder ↔ kind.codedColumns ≠ [] := by
  cases kind <;> decide

/-- A row has one reference for each coded column. -/
theorem Row.length_references {kind : RowKind} (row : Row kind) :
    row.references.length = kind.codedColumns.length := by
  cases kind <;> rfl

/-- Where a layout has no coded column, rows refer to nothing. -/
theorem Row.references_eq_nil {kind : RowKind} (h : kind ∉ RowKind.referenceOrder)
    (row : Row kind) : row.references = [] := by
  cases kind <;> first | rfl | exact absurd (by decide) h

/-! ### What comes first -/

/-- An element has a property that none before it has. -/
def IsFirst {α : Type} (p : α → Prop) (l : List α) (a : α) : Prop :=
  ∃ before after, l = before ++ a :: after ∧ p a ∧ ∀ b ∈ before, ¬ p b

theorem findSome?_flatMap {α β γ : Type} (f : α → List β) (g : β → Option γ) (l : List α) :
    (l.flatMap f).findSome? g = l.findSome? fun a => (f a).findSome? g := by
  induction l with
  | nil => rfl
  | cons a l ih =>
    rw [List.flatMap_cons, List.findSome?_append, ih, List.findSome?_cons]
    cases (f a).findSome? g <;> rfl

variable {α β : Type} {f : α → Option β} {p : α → Prop} {l : List α}

/-- The first result of a search is that of the first element with one. -/
theorem findSome?_eq_some_iff {b : β} (hp : ∀ a, f a ≠ none ↔ p a) :
    l.findSome? f = some b ↔ ∃ a, IsFirst p l a ∧ f a = some b := by
  rw [List.findSome?_eq_some_iff]
  constructor
  · rintro ⟨before, a, after, hl, ha, hbefore⟩
    have hfound : p a := (hp a).1 (by simp [ha])
    exact ⟨a, ⟨before, after, hl, hfound, fun x hx hpx => (hp x).2 hpx (hbefore x hx)⟩, ha⟩
  · rintro ⟨a, ⟨before, after, hl, -, hbefore⟩, ha⟩
    refine ⟨before, a, after, hl, ha, fun x hx => ?_⟩
    by_contra hx'
    exact hbefore x hx ((hp x).1 hx')

theorem findSome?_ne_none_iff (hp : ∀ a, f a ≠ none ↔ p a) :
    l.findSome? f ≠ none ↔ ∃ a ∈ l, p a := by
  simp [List.findSome?_eq_none_iff, ← hp]

/-! ### The outcomes of the check -/

namespace Tables

variable {tables : Tables}

theorem references_eq (tables : Tables) :
    tables.references =
      RowKind.referenceOrder.flatMap fun kind =>
        (tables.rows kind).toList.flatMap Row.references := by
  simp only [references, List.map_eq_flatMap, RowKind.referenceOrder, List.flatMap_cons,
    List.flatMap_nil, List.append_nil, List.append_assoc]
  rfl

/-- The tokens of every row are among those that are checked. -/
theorem mem_references {tables : Tables} {kind : RowKind} {row : Row kind} {token : Token}
    (hrow : row ∈ tables.rows kind) (htoken : token ∈ row.references) :
    token ∈ tables.references := by
  have horder : kind ∈ RowKind.referenceOrder := by
    by_contra hnone
    rw [Row.references_eq_nil hnone] at htoken
    cases htoken
  rw [references_eq]
  refine List.mem_flatMap.2 ⟨kind, horder, List.mem_flatMap.2 ⟨row, ?_, htoken⟩⟩
  simpa using hrow

theorem mem_of_row? {kind : RowKind} {rid : Nat} {row : Row kind}
    (h : tables.row? kind rid = some row) : row ∈ tables.rows kind := by
  rw [row?, RowArray.row?] at h
  split_ifs at h
  exact Array.mem_of_getElem? h

/-- A token names no row, or no table, or a row within the count of its table. -/
def Holds (tables : Tables) (token : Token) : Prop :=
  token.isNull = true ∨ token.table? = none ∨
    ∃ table, token.isIn table = true ∧ token.row ≤ tables.count table

theorem dangling?_eq_none_iff {token : Token} :
    tables.dangling? token = none ↔ tables.Holds token := by
  rw [dangling?, Token.decode, Holds, Token.isNull]
  cases htable : token.table? with
  | none => simp
  | some table =>
    have hin := Token.isIn_of_table? htable
    have hunique (other : TableKind) : token.isIn other = true ↔ other = table :=
      ⟨fun hother => Token.isIn_unique hother hin, fun heq => heq ▸ hin⟩
    simp only [Option.map_some, ite_eq_right_iff, reduceCtorEq, imp_false, Nat.not_lt, hunique,
      exists_eq_left, beq_iff_eq, false_or]
    omega

theorem dangling?_eq_some_iff {token : Token} {fault : Fault} :
    tables.dangling? token = some fault ↔
      ∃ table, token.isIn table = true ∧ tables.count table < token.row ∧
        fault = .rowOutOfRange table token.row (tables.count table) := by
  rw [dangling?, Token.decode]
  constructor
  · intro h
    cases htable : token.table? with
    | none => simp [htable] at h
    | some table =>
      simp only [htable, Option.map_some] at h
      split_ifs at h with hlt
      cases h
      exact ⟨table, Token.isIn_of_table? htable, hlt, rfl⟩
  · rintro ⟨table, hin, hlt, rfl⟩
    rw [Token.table?, Token.isIn_iff.1 hin, TableKind.ofCode?_code, Option.map_some]
    exact if_pos hlt

/-- A row has a reference that does not hold. -/
def RowDangles (tables : Tables) {kind : RowKind} (row : Row kind) : Prop :=
  ∃ token ∈ row.references, ¬ tables.Holds token

/-- The first reference that does not hold: in the order of the tables, in the order of the rows of
a table, and from left to right in a row. -/
structure FirstDangling (tables : Tables) {kind : RowKind} (row : Row kind) (token : Token) :
    Prop where
  ofTables : IsFirst (fun kind => ∃ row ∈ (tables.rows kind).toList, tables.RowDangles row)
    RowKind.referenceOrder kind
  ofRows : IsFirst tables.RowDangles (tables.rows kind).toList row
  ofColumns : IsFirst (fun token => ¬ tables.Holds token) row.references token

theorem dangling?_ne_none_iff (token : Token) :
    tables.dangling? token ≠ none ↔ ¬ tables.Holds token :=
  not_congr dangling?_eq_none_iff

theorem findSome?_row_ne_none_iff {kind : RowKind} (row : Row kind) :
    row.references.findSome? tables.dangling? ≠ none ↔ tables.RowDangles row :=
  findSome?_ne_none_iff dangling?_ne_none_iff

theorem findSome?_table_ne_none_iff (kind : RowKind) :
    ((tables.rows kind).toList.flatMap Row.references).findSome? tables.dangling? ≠ none ↔
      ∃ row ∈ (tables.rows kind).toList, tables.RowDangles row := by
  rw [findSome?_flatMap]
  exact findSome?_ne_none_iff findSome?_row_ne_none_iff

theorem validate_eq_ok_iff :
    tables.validate = .ok () ↔
      ∀ kind, ∀ row ∈ tables.rows kind, ∀ token ∈ row.references, tables.Holds token := by
  have hnone : tables.validate = .ok () ↔ tables.references.findSome? tables.dangling? = none := by
    rw [validate]
    cases tables.references.findSome? tables.dangling? <;> simp
  rw [hnone, List.findSome?_eq_none_iff]
  simp only [dangling?_eq_none_iff]
  constructor
  · intro hall kind row hrow token htoken
    exact hall token (mem_references hrow htoken)
  · intro hall token htoken
    rw [references_eq] at htoken
    obtain ⟨kind, -, htoken⟩ := List.mem_flatMap.1 htoken
    obtain ⟨row, hrow, htoken⟩ := List.mem_flatMap.1 htoken
    exact hall kind row (Array.mem_toList_iff.1 hrow) token htoken

theorem validate_eq_error_iff {fault : Fault} :
    tables.validate = .error fault ↔
      ∃ (kind : RowKind) (row : Row kind) (token : Token) (table : TableKind),
        tables.FirstDangling row token ∧ token.isIn table = true ∧
          fault = .rowOutOfRange table token.row (tables.count table) := by
  have hsome : tables.validate = .error fault ↔
      tables.references.findSome? tables.dangling? = some fault := by
    rw [validate]
    cases tables.references.findSome? tables.dangling? <;> simp
  rw [hsome, references_eq, findSome?_flatMap, findSome?_eq_some_iff findSome?_table_ne_none_iff]
  refine exists_congr fun kind => ?_
  rw [findSome?_flatMap, findSome?_eq_some_iff findSome?_row_ne_none_iff, ← exists_and_left]
  refine exists_congr fun row => ?_
  rw [findSome?_eq_some_iff dangling?_ne_none_iff, ← exists_and_left, ← exists_and_left]
  refine exists_congr fun token => ?_
  rw [dangling?_eq_some_iff]
  constructor
  · rintro ⟨hkind, hrow, htoken, table, hin, -, hfault⟩
    exact ⟨table, ⟨hkind, hrow, htoken⟩, hin, hfault⟩
  · rintro ⟨table, ⟨hkind, hrow, htoken⟩, hin, hfault⟩
    refine ⟨hkind, hrow, htoken, table, hin, ?_, hfault⟩
    obtain ⟨-, -, -, hdangles, -⟩ := htoken
    exact Nat.not_le.1 fun hle => hdangles (.inr (.inr ⟨table, hin, hle⟩))

/-- Where the check succeeds, references stay within the counts. -/
theorem row_le_count (hvalid : tables.validate = .ok ()) {kind : RowKind} {row : Row kind}
    {token : Token} (hrow : row ∈ tables.rows kind) (htoken : token ∈ row.references)
    {table : TableKind} (hin : token.isIn table = true) : token.row ≤ tables.count table := by
  obtain hnull | hnone | ⟨other, hother, hle⟩ :=
    validate_eq_ok_iff.1 hvalid kind row hrow token htoken
  · rw [Token.isNull, beq_iff_eq] at hnull
    omega
  · rw [Token.table?, Token.isIn_iff.1 hin, TableKind.ofCode?_code] at hnone
    cases hnone
  · exact Token.isIn_unique hother hin ▸ hle

end Tables

end CilMetadata

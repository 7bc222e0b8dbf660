import CilMetadata.Proofs.Bytes.Success
import CilMetadata.Proofs.Table.References
import CilMetadata.Relocation.Buffer
import CilMetadata.Relocation.Values

/-!
# Stored rows know their places

The number of a row is kept in the row, beside the place that the row stands in. Rows come with
whatever number their maker gave them; a row that is stored gets the number of its place.

* `RowArray.Numbered` says so of the rows of one table, and `Tables.Numbered` of all tables;
* `Tables.Edit` is everything that changes tables, `Tables.edit` does it and `Tables.run` does many
  of them, from empty tables on;
* `Tables.Numbered.edit` is the step and `Tables.numbered_run` the run: numbers are right behind
  every edit;
* `Tables.Located` is what right numbers are good for: rows are found by their numbers and by their
  tokens;
* `Tables.Numbered.rows_relocate_eq_self` says that it makes no difference to go through tables that
  have no token to replace.
-/

namespace CilMetadata

/-! ### Rows without tokens -/

/-- By induction on the columns: a cell of a column that is not coded has no token. -/
theorem Cells.mapTokens_eq_self (f : Token → Token) {columns : List Column}
    (h : ∀ column ∈ columns, ∀ kind, column.type ≠ .coded kind) (cells : Cells columns) :
    Cells.mapTokens f columns cells = cells := by
  induction columns with
  | nil => rfl
  | cons column rest ih =>
    obtain ⟨name, type⟩ := column
    obtain ⟨cell, cells⟩ := cells
    obtain ⟨hcolumn, hrest⟩ := List.forall_mem_cons.1 h
    rw [mapTokens, ih hrest]
    cases type with
    | coded kind => exact absurd rfl (hcolumn kind)
    | _ => rfl

/-- Where a layout has no coded column, a row has no token to change. -/
theorem Row.mapTokens_eq_self {kind : RowKind} (h : kind ∉ RowKind.referenceOrder)
    (f : Token → Token) (row : Row kind) : row.mapTokens f = row := by
  rw [RowKind.mem_referenceOrder_iff, not_not, RowKind.codedColumns, List.filter_eq_nil_iff] at h
  have hcolumns : ∀ column ∈ kind.columns, ∀ coded, column.type ≠ .coded coded := by
    intro column hcolumn coded heq
    exact h column hcolumn (by rw [heq])
  rw [mapTokens, Cells.mapTokens_eq_self f hcolumns]

/-! ### The rows of one table -/

namespace RowArray

variable {kind : RowKind} {rows : RowArray kind}

/-- Rows that know their places: the row in place `i` has the number `i + 1`. -/
def Numbered (rows : RowArray kind) : Prop :=
  ∀ (i : Nat) (row : Row kind), rows[i]? = some row → row.rid = i + 1

theorem numbered_empty : Numbered (#[] : RowArray kind) := by
  intro i row hrow
  simp at hrow

theorem Numbered.append (h : rows.Numbered) (row : Row kind) : (rows.append row).Numbered := by
  intro i other hother
  rw [RowArray.append, Array.getElem?_push] at hother
  split_ifs at hother with hlast
  · cases hother
    rw [hlast]
  · exact h i other hother

theorem Numbered.replace (h : rows.Numbered) (rid : Nat) (row : Row kind) :
    (rows.replace rid row).Numbered := by
  cases rid with
  | zero => exact h
  | succ place =>
    intro i other hother
    rw [replace_succ, Array.getElem?_setIfInBounds] at hother
    split_ifs at hother with hplace
    · cases hother
      rw [hplace]
    · exact h i other hother

/-- Rows are stored one after the other, so their own numbers do not matter. -/
theorem numbered_ofList (rows : List (Row kind)) : (ofList rows).Numbered :=
  List.foldlRecOn rows RowArray.append numbered_empty fun _ h row _ => h.append row

theorem Numbered.mapTokensAt (h : rows.Numbered) (f : Token → Token) (rid : Nat) :
    (rows.mapTokensAt f rid).Numbered := by
  rw [RowArray.mapTokensAt]
  cases rows.row? rid with
  | none => exact h
  | some row => exact h.replace rid _

theorem Numbered.mapTokens (h : rows.Numbered) (f : Token → Token) : (rows.mapTokens f).Numbered :=
  List.foldlRecOn _ (RowArray.mapTokensAt f) h fun _ h' rid _ => h'.mapTokensAt f rid

/-- A numbered row is put in its own place without any change. -/
theorem Numbered.replace_self (h : rows.Numbered) {rid : Nat} {row : Row kind}
    (hrow : rows.row? rid = some row) : rows.replace rid row = rows := by
  cases rid with
  | zero => rfl
  | succ place =>
    rw [row?_succ] at hrow
    have hsame : { row with rid := place + 1 } = row := by rw [← h place row hrow]
    apply Array.ext_getElem?
    intro i
    rw [replace_succ, hsame, Array.getElem?_setIfInBounds]
    split_ifs with hplace hlt
    · rw [← hplace, hrow]
    · rw [← hplace, Array.getElem?_eq_none (Nat.not_lt.1 hlt)]
    · rfl

/-- Where a layout has no coded column, a numbered table stays as it is when tokens are changed. -/
theorem Numbered.mapTokens_eq_self (h : rows.Numbered) (hcoded : kind ∉ RowKind.referenceOrder)
    (f : Token → Token) : rows.mapTokens f = rows := by
  have hstep (rid : Nat) : rows.mapTokensAt f rid = rows := by
    rw [RowArray.mapTokensAt]
    cases hrow : rows.row? rid with
    | none => rfl
    | some row => exact (congrArg _ (row.mapTokens_eq_self hcoded f)).trans (h.replace_self hrow)
  exact List.foldlRecOn (motive := (· = rows)) _ _ rfl fun _ h' rid _ => h' ▸ hstep rid

/-- By induction on the number of rows to read, each of which is read under the next number. -/
theorem rid_of_readFrom {w : Widths} {n rid : Nat} {c c' : Cursor} {list : List (Row kind)}
    (h : readFrom w kind n rid c = .ok list c') {i : Nat} {row : Row kind}
    (hrow : list[i]? = some row) : row.rid = rid + i := by
  induction n generalizing rid c list i with
  | zero =>
    cases h
    simp at hrow
  | succ n ih =>
    obtain ⟨cells, mid, -, htail⟩ := bind_eq_ok.1 h
    obtain ⟨rest, last, hrest, hdone⟩ := bind_eq_ok.1 htail
    cases hdone
    cases i with
    | zero =>
      cases hrow
      rfl
    | succ i => rw [ih hrest hrow, Nat.add_assoc, Nat.add_comm 1]

theorem numbered_of_read? {w : Widths} {n : Nat} {bytes : Array UInt8}
    (h : read? w kind n bytes = .ok rows) : rows.Numbered := by
  cases hlist : (readFrom w kind n 1).value? bytes with
  | error fault =>
    rw [read?, hlist] at h
    cases h
  | ok list =>
    rw [read?, hlist] at h
    cases h
    obtain ⟨c, hrun⟩ := Decoder.value?_eq_ok.1 hlist
    intro i row hrow
    rw [rid_of_readFrom hrun (by simpa using hrow), Nat.add_comm]

end RowArray

/-! ### All tables -/

namespace Tables

variable {tables : Tables} {kind : RowKind}

/-- The rows of every table know their places. -/
def Numbered (tables : Tables) : Prop := ∀ kind, (tables.rows kind).Numbered

theorem numbered_empty : Numbered {} := by
  intro kind
  cases kind <;> exact RowArray.numbered_empty

theorem Numbered.set (h : tables.Numbered) {rows : RowArray kind} (hrows : rows.Numbered) :
    (tables.set kind rows).Numbered := by
  intro other
  by_cases hkind : other = kind
  · subst hkind
    rw [rows_set_self]
    exact hrows
  · rw [rows_set_of_ne _ _ hkind]
    exact h other

/-- Everything that changes tables. -/
inductive Edit
  /-- Read a table of `n` rows from the start of some bytes. -/
  | read (kind : RowKind) (w : Widths) (n : Nat) (bytes : Array UInt8)
  | push {kind : RowKind} (row : Row kind)
  | replace {kind : RowKind} (rid : Nat) (row : Row kind)
  | clear (kind : RowKind)
  /-- Replace the tokens in the coded columns of one table. -/
  | relocateRows (kind : RowKind) (moves : Relocation)
  /-- Replace the tokens in the coded columns of all tables. -/
  | relocate (moves : Relocation)
  | flush {kind : RowKind} (buffer : RowBuffer kind)
  /-- Announce the row count of a table without a layout. -/
  | announce (table : TableKind) (count : Nat)

/-- One edit; a table that cannot be read stays as it is. -/
def edit (tables : Tables) : Edit → Tables
  | .read kind w n bytes =>
    match RowArray.read? w kind n bytes with
    | .ok rows => tables.set kind rows
    | .error _ => tables
  | .push row => (tables.push row).1
  | .replace rid row => (tables.replace rid row).1
  | .clear kind => tables.set kind #[]
  | .relocateRows kind moves => tables.set kind ((tables.rows kind).mapTokens moves.resolve)
  | .relocate moves => tables.relocate moves
  | .flush buffer => (buffer.flush tables).2.1
  | .announce table count => tables.setExternal table count

/-- Edits in turn, from empty tables on. -/
def run (edits : List Edit) : Tables := edits.foldl edit {}

theorem rows_relocate (tables : Tables) (moves : Relocation) (kind : RowKind) :
    (tables.relocate moves).rows kind = (tables.rows kind).mapTokens moves.resolve := by
  rw [Tables.relocate, Tables.mapTokens, rows_map]

/-- Every edit numbers the rows that it stores, and leaves the others in their places. -/
theorem Numbered.edit (h : tables.Numbered) (change : Edit) : (tables.edit change).Numbered := by
  cases change with
  | read kind w n bytes =>
    rw [Tables.edit]
    cases hread : RowArray.read? w kind n bytes with
    | error fault => exact h
    | ok rows => exact h.set (RowArray.numbered_of_read? hread)
  | push row => exact h.set ((h _).append row)
  | @replace kind rid row =>
    rw [Tables.edit, Tables.replace]
    cases tables.row? kind rid with
    | none => exact h
    | some previous => exact h.set ((h kind).replace rid row)
  | clear kind => exact h.set RowArray.numbered_empty
  | relocateRows kind moves => exact h.set ((h kind).mapTokens moves.resolve)
  | relocate moves =>
    intro kind
    rw [Tables.edit, rows_relocate]
    exact (h kind).mapTokens moves.resolve
  | flush buffer => exact h.set (RowArray.numbered_ofList _)
  | announce table count => exact fun kind => h kind

theorem numbered_run (edits : List Edit) : (run edits).Numbered :=
  List.foldlRecOn edits Tables.edit numbered_empty fun _ h change _ => h.edit change

/-! ### Rows are found where they say they are -/

theorem count_table (tables : Tables) (kind : RowKind) :
    tables.count kind.table = (tables.rows kind).size := by
  rw [count, RowKind.ofTable?_table]

theorem exists_row?_iff {rid : Nat} :
    (∃ row, tables.row? kind rid = some row) ↔ 1 ≤ rid ∧ rid ≤ tables.count kind.table := by
  rw [count_table, row?]
  cases rid with
  | zero => simp [RowArray.row?]
  | succ place =>
    rw [RowArray.row?_succ]
    constructor
    · rintro ⟨row, hrow⟩
      exact ⟨Nat.le_add_left 1 place, (Array.getElem?_eq_some_iff.1 hrow).1⟩
    · rintro ⟨-, hle⟩
      exact ⟨_, Array.getElem?_eq_getElem hle⟩

theorem Numbered.rid_eq (h : tables.Numbered) {rid : Nat} {row : Row kind}
    (hrow : tables.row? kind rid = some row) : row.rid = rid := by
  cases rid with
  | zero => cases hrow
  | succ place =>
    rw [row?, RowArray.row?_succ] at hrow
    exact h kind place row hrow

/-- A numbered row is found by its token, as long as its number fits one. -/
theorem Numbered.rowOf?_token (h : tables.Numbered) (hcount : tables.count kind.table < 2 ^ 24)
    {rid : Nat} {row : Row kind} (hrow : tables.row? kind rid = some row) :
    tables.rowOf? kind row.token = some row := by
  have hle := (exists_row?_iff.1 ⟨row, hrow⟩).2
  rw [rowOf?, Row.token, if_pos (Token.isIn_ofRow _ _), Token.row_ofRow, h.rid_eq hrow,
    Nat.mod_eq_of_lt (hle.trans_lt hcount), hrow]

/-- The rows of one table stand where their numbers and their tokens say. -/
structure Located (tables : Tables) (kind : RowKind) : Prop where
  place : ∀ (i : Nat) (row : Row kind), (tables.rows kind)[i]? = some row → row.rid = i + 1
  /-- There is a row for exactly the numbers from 1 to the row count. -/
  found : ∀ rid, (∃ row, tables.row? kind rid = some row) ↔
    1 ≤ rid ∧ rid ≤ tables.count kind.table
  token : ∀ rid row, tables.row? kind rid = some row →
    row.rid = rid ∧ row.token = Token.ofRow kind.table rid
  /-- Where the row count fits a token, the token of a row names its table, its number and it. -/
  named : tables.count kind.table < 2 ^ 24 → ∀ rid row, tables.row? kind rid = some row →
    row.token.decode = some (kind.table, rid) ∧ tables.rowOf? kind row.token = some row

theorem Numbered.located (h : tables.Numbered) (kind : RowKind) : tables.Located kind where
  place := h kind
  found _ := exists_row?_iff
  token rid row hrow := ⟨h.rid_eq hrow, by rw [Row.token, h.rid_eq hrow]⟩
  named hcount rid row hrow := by
    have hle := (exists_row?_iff.1 ⟨row, hrow⟩).2
    refine ⟨?_, h.rowOf?_token hcount hrow⟩
    rw [Row.token, Token.decode_ofRow, h.rid_eq hrow, Nat.mod_eq_of_lt (hle.trans_lt hcount)]

/-- A fix-up leaves the tables without coded columns as they are. -/
theorem Numbered.rows_relocate_eq_self (h : tables.Numbered)
    (hcoded : kind ∉ RowKind.referenceOrder) (moves : Relocation) :
    (tables.relocate moves).rows kind = tables.rows kind := by
  rw [rows_relocate, (h kind).mapTokens_eq_self hcoded]

end Tables

end CilMetadata

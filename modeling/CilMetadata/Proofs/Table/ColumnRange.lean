import CilMetadata.Heap.All
import CilMetadata.Proofs.Table.References
import CilMetadata.Proofs.Table.RowCodec

/-!
# Columns are wide enough

A table can be written when every cell fits the width of its column (`write?_isOk_iff`). The widths
follow from the sizes of the heaps and of the tables, and so does what a cell may hold:

* `Column.InRange` is what a cell may hold, and `Tables.InRange` says so of all rows;
* `Column.Overruns` is the one case in which such a cell does not fit: a run of rows that starts
  behind the last row of a table which is just small enough for two bytes;
* `Tables.write?_isOk_of_inRange` says that there is no other case.
-/

namespace CilMetadata

open Encoder

/-! ### When cells can be written -/

theorem emitsWhen_column (n : Nat) (large : Bool) (value : Nat) :
    EmitsWhen n (indexBytes large) (Encoder.column large value)
      (large = true ∨ value ≤ 0xFFFF) := by
  cases large with
  | true => exact (emitsWhen_number n 4 value).congr (by simp)
  | false => exact (emitsWhen_ite fun _ => emitsWhen_number n 2 value).congr (by simp)

namespace ColumnType

/-- The number that stands in a column for a cell. -/
def stored : (type : ColumnType) → type.Cell → Except Fault Nat
  | .u16, (cell : UInt16) => .ok cell.toNat
  | .u32, (cell : UInt32) | .string, cell | .blob, cell | .row _, cell => .ok cell.toNat
  | .coded kind, (cell : Token) => kind.encode cell

/-- A cell has a number, which does not take more bytes than its column. -/
def Fits (w : Widths) (type : ColumnType) (cell : type.Cell) : Prop :=
  ∃ value, type.stored cell = .ok value ∧ (type.isWide w = true ∨ value ≤ 0xFFFF)

theorem fits_iff_of_stored {w : Widths} {type : ColumnType} {cell : type.Cell} {value : Nat}
    (h : type.stored cell = .ok value) :
    type.Fits w cell ↔ type.isWide w = true ∨ value ≤ 0xFFFF := by
  simp [Fits, h]

theorem write_eq (w : Widths) (type : ColumnType) (cell : type.Cell) :
    type.write w cell =
      match type.stored cell with
      | .ok value => Encoder.column (type.isWide w) value
      | .error fault => throw fault := by
  cases type <;> rfl

end ColumnType

theorem emitsWhen_cell (w : Widths) (n : Nat) (type : ColumnType) (cell : type.Cell) :
    EmitsWhen n (type.size w) (type.write w cell) (type.Fits w cell) := by
  rw [ColumnType.write_eq, ColumnType.Fits]
  cases type.stored cell with
  | error fault => exact (emitsWhen_throw n _ fault).congr (by simp)
  | ok value => exact (emitsWhen_column n _ value).congr (by simp)

/-- Every cell has a property that depends on its column. -/
def Cells.All (p : (column : Column) → column.type.Cell → Prop) :
    (columns : List Column) → Cells columns → Prop
  | [], _ => True
  | first :: rest, (cell, cells) => p first cell ∧ All p rest cells

theorem emitsWhen_cells (w : Widths) (n : Nat) (columns : List Column) (cells : Cells columns) :
    EmitsWhen n (Cells.size w columns) (Cells.write w columns cells)
      (Cells.All (fun column => column.type.Fits w) columns cells) := by
  induction columns generalizing n with
  | nil => exact emitsWhen_of_emitsAt (emitsAt_pure n)
  | cons column rest ih =>
    obtain ⟨cell, cells⟩ := cells
    exact (emitsWhen_cell w n column.type cell).bind (ih _ cells)

/-- A table can be written when the cells of all its rows fit. -/
theorem RowArray.write?_isOk_iff {kind : RowKind} (w : Widths) (rows : RowArray kind) :
    (∃ bytes, rows.write? w = .ok bytes) ↔
      ∀ row ∈ rows, Cells.All (fun column => column.type.Fits w) kind.columns row.cells := by
  have hrow (row : Row kind) (_ : row ∈ rows.toList) (n : Nat) :=
    emitsWhen_cells w n kind.columns row.cells
  have hrows := (emitsWhen_each hrow 0).bytes?_isOk
  simp only [Array.mem_toList_iff] at hrows
  exact hrows

/-! ### What cells may hold -/

namespace Column

/-- Whether a column holds the first row of a run, which may be empty. -/
def startsRun (column : Column) : Bool :=
  ["field_list", "method_list", "param_list", "event_list"].contains column.name

/-- What a cell refers to is there: a place in a heap, a row or no row. A run of rows may start
right behind the last row. -/
def InRange (tables : Tables) (heaps : Heaps) : (column : Column) → column.type.Cell → Prop
  | ⟨_, .u16⟩, _ | ⟨_, .u32⟩, _ => True
  | ⟨_, .string⟩, (cell : UInt32) => cell.toNat < heaps.strings.bytes.size
  | ⟨_, .blob⟩, (cell : UInt32) => cell.toNat < heaps.blobs.bytes.size
  | ⟨name, .row table⟩, (cell : UInt32) =>
    cell.toNat ≤ tables.count table + if startsRun ⟨name, .row table⟩ then 1 else 0
  | ⟨_, .coded kind⟩, (cell : Token) =>
    cell.isNull = true ∨ ∃ table, some table ∈ kind.candidates ∧ cell.isIn table = true

/-- A run of rows starts right behind the last row that two bytes can name. -/
def Overruns (tables : Tables) : (column : Column) → column.type.Cell → Prop
  | ⟨name, .row table⟩, (cell : UInt32) =>
    startsRun ⟨name, .row table⟩ = true ∧ tables.count table = 0xFFFF ∧ cell.toNat = 0x10000
  | ⟨_, .u16⟩, _ | ⟨_, .u32⟩, _ | ⟨_, .string⟩, _ | ⟨_, .blob⟩, _ | ⟨_, .coded _⟩, _ => False

end Column

namespace Tables

/-- What the cells of all rows refer to is there. -/
def InRange (tables : Tables) (heaps : Heaps) : Prop :=
  ∀ kind, ∀ row ∈ tables.rows kind, Cells.All (Column.InRange tables heaps) kind.columns row.cells

end Tables

/-! ### What cells may hold fits -/

theorem Heaps.wideStrings_iff {heaps : Heaps} :
    heaps.sizeFlags.testBit 0 = true ↔ 0xFFFF < heaps.strings.bytes.size := by
  unfold Heaps.sizeFlags
  by_cases hstrings : 0xFFFF < heaps.strings.bytes.size
  · simp only [hstrings, ↓reduceIte]
    split_ifs <;> decide
  · simp only [hstrings, ↓reduceIte]
    split_ifs <;> decide

theorem Heaps.wideBlobs_iff {heaps : Heaps} :
    heaps.sizeFlags.testBit 2 = true ↔ 0xFFFF < heaps.blobs.bytes.size := by
  unfold Heaps.sizeFlags
  by_cases hblobs : 0xFFFF < heaps.blobs.bytes.size
  · simp only [hblobs, ↓reduceIte]
    split_ifs <;> decide
  · simp only [hblobs, ↓reduceIte]
    split_ifs <;> decide

variable {tables : Tables} {heaps : Heaps}

/-- A cell in range fits the width of its column, unless it overruns it. -/
theorem Column.fits_iff {column : Column} {cell : column.type.Cell}
    (hrange : column.InRange tables heaps cell)
    (hrow : ∀ token ∈ column.type.token? cell, ∀ table, token.isIn table = true →
      token.row ≤ tables.count table) :
    column.type.Fits (tables.widths heaps.sizeFlags) cell ↔ ¬column.Overruns tables cell := by
  obtain ⟨name, type⟩ := column
  cases type with
  | u16 =>
    have hle : UInt16.toNat cell ≤ 0xFFFF := Nat.le_of_lt_succ (UInt16.toNat_lt cell)
    exact iff_of_true ⟨_, rfl, Or.inr hle⟩ id
  | u32 => exact iff_of_true ⟨_, rfl, Or.inl rfl⟩ id
  | string =>
    have hlt : UInt32.toNat cell < heaps.strings.bytes.size := hrange
    refine iff_of_true ⟨_, rfl, ?_⟩ id
    change heaps.sizeFlags.testBit 0 = true ∨ _
    rw [Heaps.wideStrings_iff]
    omega
  | blob =>
    have hlt : UInt32.toNat cell < heaps.blobs.bytes.size := hrange
    refine iff_of_true ⟨_, rfl, ?_⟩ id
    change heaps.sizeFlags.testBit 2 = true ∨ _
    rw [Heaps.wideBlobs_iff]
    omega
  | row table =>
    have hle : UInt32.toNat cell ≤ _ := hrange
    have hwide : (ColumnType.row table).isWide (tables.widths heaps.sizeFlags) = true ↔
        0xFFFF < tables.count table := decide_eq_true_iff
    rw [ColumnType.fits_iff_of_stored rfl, hwide]
    simp only [Overruns]
    -- Past the row count there is at most one more value, and only where a run starts.
    split_ifs at hle with hstart
    · simp only [hstart, true_and]
      omega
    · simp only [hstart]
      omega
  | coded kind =>
    have hcode : ∃ value, kind.encode cell = .ok value := by
      rcases hrange with hnull | ⟨table, hmem, hin⟩
      · exact ⟨0, CodedKind.encode_of_isNull hnull⟩
      · exact CodedKind.encode_of_candidate hmem hin
    obtain ⟨value, hvalue⟩ := hcode
    refine iff_of_true ⟨value, hvalue, ?_⟩ id
    cases hwide : kind.isWide tables.count with
    | true => exact Or.inl ((Widths.isWideCoded_ofFlags _ _ kind).trans hwide)
    | false => exact Or.inr (CodedKind.encode_le hwide hvalue (hrow cell rfl))

theorem Cells.all_fits_iff {columns : List Column} {cells : Cells columns}
    (hrange : Cells.All (Column.InRange tables heaps) columns cells)
    (hrow : ∀ token ∈ Cells.tokens columns cells, ∀ table, token.isIn table = true →
      token.row ≤ tables.count table) :
    Cells.All (fun column => column.type.Fits (tables.widths heaps.sizeFlags)) columns cells ↔
      Cells.All (fun column cell => ¬column.Overruns tables cell) columns cells := by
  induction columns with
  | nil => exact Iff.rfl
  | cons column rest ih =>
    obtain ⟨cell, cells⟩ := cells
    obtain ⟨hcell, hcells⟩ := hrange
    refine and_congr (Column.fits_iff hcell ?_) (ih hcells ?_)
    · intro token htoken
      exact hrow token (List.mem_append_left _ (Option.mem_toList.2 htoken))
    · intro token htoken
      exact hrow token (List.mem_append_right _ htoken)

/-- Where all references are in range, a table can be written exactly when no run of its rows
starts right behind the last row that two bytes can name. -/
theorem Tables.write?_isOk_of_inRange (tables : Tables) (heaps : Heaps)
    (hvalid : tables.validate = .ok ()) (hrange : tables.InRange heaps) (kind : RowKind) :
    (∃ bytes, (tables.rows kind).write? (tables.widths heaps.sizeFlags) = .ok bytes) ↔
      ∀ row ∈ tables.rows kind,
        Cells.All (fun column cell => ¬column.Overruns tables cell) kind.columns row.cells := by
  rw [RowArray.write?_isOk_iff]
  refine forall₂_congr fun row hrow => Cells.all_fits_iff (hrange kind row hrow) ?_
  intro token htoken table hin
  exact row_le_count hvalid hrow htoken hin

/-- One method, whose parameters start at a row of a table with the given row count. -/
def Tables.paramRun (count : Nat) (start : UInt32) : Tables where
  methodDef :=
    #[⟨1, ((0 : UInt32), (0 : UInt16), (0 : UInt16), (0 : UInt32), (0 : UInt32), start, ())⟩]
  external table := if table = .param then count else 0

theorem Tables.inRange_paramRun {count : Nat} {start : UInt32} (h : start.toNat ≤ count + 1) :
    (paramRun count start).InRange {} := by
  intro kind row hrow
  cases kind with
  | methodDef =>
    obtain rfl := Array.mem_singleton.1 hrow
    exact ⟨trivial, trivial, trivial, Nat.one_pos, Nat.one_pos, h, trivial⟩
  | _ => exact absurd hrow (Array.not_mem_empty row)

theorem Tables.write?_isOk_of_inRange_paramRun :
    ∃ bytes, ((paramRun 0x10000 0x10001).rows .methodDef).write?
      ((paramRun 0x10000 0x10001).widths ({} : Heaps).sizeFlags) = .ok bytes := by
  have hrange := @inRange_paramRun 0x10000 0x10001 (by decide)
  refine (write?_isOk_of_inRange (paramRun 0x10000 0x10001) {} rfl hrange .methodDef).2 ?_
  intro row hrow
  obtain rfl := Array.mem_singleton.1 hrow
  exact ⟨id, id, id, id, id, fun hover => absurd hover.2.1 (by decide), trivial⟩

/-- The empty run behind the last of 65535 rows is in range, and cannot be written. -/
theorem Tables.overruns_paramRun :
    (paramRun 0xFFFF 0x10000).validate = .ok () ∧ (paramRun 0xFFFF 0x10000).InRange {} ∧
      ((paramRun 0xFFFF 0x10000).rows .methodDef).write?
          ((paramRun 0xFFFF 0x10000).widths ({} : Heaps).sizeFlags) =
        .error (.malformed (.narrowColumn 0x10000)) :=
  ⟨rfl, inRange_paramRun (by decide), rfl⟩

end CilMetadata

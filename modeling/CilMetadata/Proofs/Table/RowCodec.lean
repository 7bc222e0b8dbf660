import CilMetadata.Proofs.Bytes.Success
import CilMetadata.Proofs.Table.Threshold
import CilMetadata.Table.Store

/-!
# Rows are read back

Sizes, reading and writing of rows go through one list of columns, so that they agree as soon as
they agree on a column.

* `Token.readBack` and `RowArray.readBack` are what becomes of tokens and rows that are written and
  read again: they differ where a token names no row;
* `Cells.cut` cuts bytes at columns, and `CellBytes.settled` is what becomes of the bytes of a cell
  that are read and written again: they differ where a coded cell has row 0;
* `recoversAt_cells` and `takesAt_cells` say both of the cells of a row, `codec_agrees` of tables.
-/

namespace CilMetadata

open Decoder Encoder

/-! ### Columns of two or four bytes -/

theorem recoversAt_column (n : Nat) (large : Bool) {value : Nat} (h : value < 256 ^ 4) :
    RecoversAt n (indexBytes large) (Encoder.column large value) (Decoder.column large) value := by
  have hnumber {width : Nat} (hlt : value < 256 ^ width) :
      RecoversAt n width (Encoder.number width value) (Decoder.number .little width) value := by
    have hback := recoversAt_of_emitsAt (emitsAt_number n width value) (readsAt_number_toLE n hlt)
    rwa [Bytes.length_toLE] at hback
  intro out out' hout hrun
  unfold Encoder.column at hrun
  split_ifs at hrun with hlarge hnarrow
  · subst hlarge
    exact hnumber h out out' hout hrun
  · obtain rfl : large = false := by simpa using hlarge
    exact @hnumber 2 (Nat.lt_succ_of_le hnarrow) out out' hout hrun
  · cases hrun

theorem takesAt_column (n : Nat) (large : Bool) :
    TakesAt n (Decoder.column large) fun bytes value =>
      bytes.length = indexBytes large ∧ value = Bytes.ofLE bytes :=
  takesAt_number n .little (indexBytes large)

/-- A column is written as the bytes that its value was read from. -/
theorem emitsAt_column (n : Nat) {large : Bool} {bytes : List UInt8}
    (h : bytes.length = indexBytes large) :
    EmitsAt n (Encoder.column large (Bytes.ofLE bytes)) bytes := by
  have hnumber := emitsAt_number n bytes.length (Bytes.ofLE bytes)
  have hlt := Bytes.ofLE_lt bytes
  rw [Bytes.toLE_ofLE] at hnumber
  rw [h] at hnumber hlt
  cases large with
  | true => exact hnumber
  | false =>
    have hnarrow : Bytes.ofLE bytes ≤ 0xFFFF := Nat.le_of_lt_succ hlt
    rw [Encoder.column, if_neg (by decide), if_pos hnarrow]
    exact hnumber

/-! ### Tokens in coded columns -/

/-- A token as it is read back: one that names no row has become the null token. -/
def Token.readBack (token : Token) : Token := if token.isNull then .null else token

namespace CodedKind

theorem encode_lt {kind : CodedKind} {token : Token} {value : Nat}
    (h : kind.encode token = .ok value) : value < 256 ^ 4 := by
  cases hnull : token.isNull with
  | true =>
    rw [encode_of_isNull hnull] at h
    cases h
    decide
  | false =>
    have hlt := lt_of_encode h hnull
    have hbits : 2 ^ kind.tagBits ≤ 2 ^ 5 := Nat.pow_le_pow_right (by decide) kind.tagBits_le
    omega

/-- Where the value 0 is a reference to nothing, every token that can be coded is read back. -/
theorem decode_readBack {kind : CodedKind} {token : Token} {value : Nat}
    (hzero : kind.decode 0 = .ok none) (h : kind.encode token = .ok value) :
    ∃ found, kind.decode value = .ok found ∧ found.getD .null = token.readBack := by
  cases hnull : token.isNull with
  | true =>
    rw [encode_of_isNull hnull] at h
    cases h
    exact ⟨none, hzero, by simp [Token.readBack, hnull]⟩
  | false => exact ⟨some token, decode_of_encode h hnull, by simp [Token.readBack, hnull]⟩

/-- A decoded token has the coded value that it was decoded from, unless that has row 0 or a row
that no token can hold. -/
theorem encode_of_decode {kind : CodedKind} {value : Nat} {found : Option Token}
    (h : kind.decode value = .ok found) (hfits : kind.rowIn value < 2 ^ 24) :
    kind.encode (found.getD .null) = .ok (if kind.rowIn value = 0 then 0 else value) := by
  rw [decode_eq] at h
  cases htable : kind.tableIn? value with
  | none => simp [htable] at h
  | some table =>
    obtain rfl := Except.ok.inj (by simpa only [htable] using h)
    by_cases hrow : kind.rowIn value = 0
    · rw [if_pos hrow, if_pos hrow]
      rfl
    · rw [if_neg hrow, if_neg hrow]
      exact encode_ofRow_rowIn htable hrow hfits

end CodedKind

/-! ### Written cells are read back -/

/-- The value 0 of a column is a reference to nothing and not one with a reserved tag. -/
def ColumnType.ReadsNull : ColumnType → Prop
  | .coded kind => kind.decode 0 = .ok none
  | _ => True

theorem RowKind.readsNull {kind : RowKind} {column : Column} (h : column ∈ kind.columns) :
    column.type.ReadsNull := by
  have hall : ∀ column ∈ kind.columns, column.type.ReadsNull := by
    cases kind <;> simp [RowKind.columns, ColumnType.ReadsNull] <;> rfl
  exact hall column h

theorem recoversAt_wordCell {α : Type} {ofNat : Nat → α} {toNat : α → Nat} (n : Nat) {large : Bool}
    (cell : α) (h : ofNat (toNat cell) = cell) (hlt : toNat cell < 256 ^ 4) :
    RecoversAt n (indexBytes large) (Encoder.column large (toNat cell))
      (do return ofNat (← Decoder.column large)) cell := by
  have hback := (recoversAt_column n large hlt).map ofNat
  rwa [h] at hback

theorem recoversAt_codedCell (w : Widths) (n : Nat) {kind : CodedKind}
    (hzero : kind.decode 0 = .ok none) (token : Token) :
    RecoversAt n ((ColumnType.coded kind).size w) ((ColumnType.coded kind).write w token)
      ((ColumnType.coded kind).read w) token.readBack := by
  rw [ColumnType.write]
  cases hcode : kind.encode token with
  | error fault =>
    intro out out' _ hrun
    cases hrun
  | ok value =>
    obtain ⟨found, hfound, hback⟩ := CodedKind.decode_readBack hzero hcode
    refine (recoversAt_column n _ (CodedKind.encode_lt hcode)).andThen ?_
    rw [hfound, ← hback]
    exact readsAt_pure _ _

theorem recoversAt_cell (w : Widths) (n : Nat) {type : ColumnType} (h : type.ReadsNull)
    (cell : type.Cell) :
    RecoversAt n (type.size w) (type.write w cell) (type.read w)
      (type.mapToken Token.readBack cell) := by
  have hword (large : Bool) (cell : UInt32) :
      RecoversAt n (indexBytes large) (Encoder.column large cell.toNat)
        (do return UInt32.ofNat (← Decoder.column large)) cell :=
    recoversAt_wordCell n cell UInt32.ofNat_toNat cell.toNat_lt
  cases type with
  | u16 =>
    have hlt := UInt16.toNat_lt cell
    exact recoversAt_wordCell n cell UInt16.ofNat_toNat (by omega)
  | u32 => exact hword true cell
  | string => exact hword w.wideStrings cell
  | blob => exact hword w.wideBlobs cell
  | row table => exact hword (w.isWide table) cell
  | coded kind => exact recoversAt_codedCell w n h cell

/-- The cells of a row are read back from what they are written as. -/
theorem recoversAt_cells (w : Widths) {columns : List Column}
    (h : ∀ column ∈ columns, column.type.ReadsNull) (cells : Cells columns) (n : Nat) :
    RecoversAt n (Cells.size w columns) (Cells.write w columns cells) (Cells.read w columns)
      (Cells.mapTokens Token.readBack columns cells) := by
  induction columns generalizing n with
  | nil => exact recoversAt_of_emitsAt (emitsAt_pure n) (readsAt_pure n ())
  | cons column rest ih =>
    obtain ⟨cell, cells⟩ := cells
    have hfirst := recoversAt_cell w n (h column List.mem_cons_self) cell
    have hrest := ih (fun other hmem => h other (List.mem_cons_of_mem _ hmem)) cells
      (n + column.type.size w)
    exact hfirst.bind (hrest.map (column.type.mapToken Token.readBack cell, ·))

/-! ### Read cells are written back -/

/-- The bytes of a cell, with the type of its column. -/
structure CellBytes where
  type : ColumnType
  bytes : List UInt8

namespace CellBytes

/-- The row number that a coded cell stores. -/
def row? : CellBytes → Option Nat
  | ⟨.coded kind, bytes⟩ => some (kind.rowIn (Bytes.ofLE bytes))
  | _ => none

/-- The row number of a coded cell fits the 24 bits that a token has for it. -/
def FitsToken (cell : CellBytes) : Prop := ∀ row ∈ cell.row?, row < 2 ^ 24

instance : DecidablePred FitsToken := fun cell =>
  inferInstanceAs (Decidable (∀ row ∈ cell.row?, row < 2 ^ 24))

/-- The bytes that a cell is written back as: zeros where a coded cell stores row 0. -/
def settled (cell : CellBytes) : List UInt8 :=
  if cell.row? = some 0 then List.replicate cell.bytes.length 0 else cell.bytes

end CellBytes

namespace Cells

/-- The first bytes of a list, cut at the given columns. -/
def cut (w : Widths) : List Column → List UInt8 → List CellBytes
  | [], _ => []
  | first :: rest, bytes =>
    ⟨first.type, bytes.take (first.type.size w)⟩ :: cut w rest (bytes.drop (first.type.size w))

theorem size_append (w : Widths) (first second : List Column) :
    size w (first ++ second) = size w first + size w second := by
  induction first with
  | nil => simp [size]
  | cons column rest ih => rw [List.cons_append, size, size, ih, Nat.add_assoc]

theorem size_replicate (w : Widths) (columns : List Column) (n : Nat) :
    size w (List.replicate n columns).flatten = n * size w columns := by
  induction n with
  | zero => simp [size]
  | succ n ih =>
    rw [List.replicate_succ, List.flatten_cons, size_append, ih, Nat.succ_mul, Nat.add_comm]

/-- Only the bytes that the columns take are cut. -/
theorem cut_take (w : Widths) (columns : List Column) (bytes : List UInt8) :
    cut w columns (bytes.take (size w columns)) = cut w columns bytes := by
  induction columns generalizing bytes with
  | nil => rfl
  | cons column rest ih =>
    rw [cut, cut, size, List.take_take, List.drop_take, Nat.min_eq_left (Nat.le_add_right _ _),
      Nat.add_sub_cancel_left, ih]

/-- Nothing gets lost when bytes are cut. -/
theorem flatMap_cut (w : Widths) (columns : List Column) (bytes : List UInt8) :
    (cut w columns bytes).flatMap CellBytes.bytes = bytes.take (size w columns) := by
  induction columns generalizing bytes with
  | nil => simp [cut, size]
  | cons column rest ih => rw [cut, List.flatMap_cons, ih, size, List.take_add]

theorem cut_append (w : Widths) {first : List Column} (second : List Column) {head : List UInt8}
    (tail : List UInt8) (h : head.length = size w first) :
    cut w (first ++ second) (head ++ tail) = cut w first head ++ cut w second tail := by
  induction first generalizing head with
  | nil =>
    obtain rfl : head = [] := List.eq_nil_of_length_eq_zero h
    rfl
  | cons column rest ih =>
    rw [size] at h
    have hcell : column.type.size w ≤ head.length := by omega
    have hrest : (head.drop (column.type.size w)).length = size w rest := by
      rw [List.length_drop]
      omega
    rw [List.cons_append, cut, cut, List.take_append_of_le_length hcell,
      List.drop_append_of_le_length hcell, ih hrest, List.cons_append]

end Cells

/-- The bytes have the size of the columns, and are what the encoder writes but for coded cells of
row 0, as long as their rows fit a token. -/
structure WritesBack (w : Widths) (columns : List Column) (e : Encoder Unit) (bytes : List UInt8) :
    Prop where
  size : bytes.length = Cells.size w columns
  emits : (∀ cell ∈ Cells.cut w columns bytes, cell.FitsToken) →
    ∀ n, EmitsAt n e ((Cells.cut w columns bytes).flatMap CellBytes.settled)

namespace WritesBack

variable {w : Widths}

theorem nil : WritesBack w [] (pure ()) [] := ⟨rfl, fun _ n => emitsAt_pure n⟩

theorem append {first second : List Column} {e e' : Encoder Unit} {head tail : List UInt8}
    (h : WritesBack w first e head) (h' : WritesBack w second e' tail) :
    WritesBack w (first ++ second) (do e; e') (head ++ tail) := by
  constructor
  · rw [List.length_append, h.size, h'.size, Cells.size_append]
  · intro hfits n
    rw [Cells.cut_append w second tail h.size] at hfits ⊢
    rw [List.flatMap_append]
    have hhead := h.emits (fun cell hmem => hfits cell (List.mem_append_left _ hmem)) n
    exact hhead.bind (h'.emits (fun cell hmem => hfits cell (List.mem_append_right _ hmem)) _)

/-- For one column it is enough to look at its cell. -/
theorem cell {column : Column} {e : Encoder Unit} {bytes : List UInt8}
    (hsize : bytes.length = column.type.size w)
    (h : (CellBytes.mk column.type bytes).FitsToken →
      ∀ n, EmitsAt n e (CellBytes.mk column.type bytes).settled) :
    WritesBack w [column] e bytes := by
  have hcut : Cells.cut w [column] bytes = [⟨column.type, bytes⟩] := by
    rw [Cells.cut, List.take_of_length_le (Nat.le_of_eq hsize)]
    rfl
  constructor
  · simpa [Cells.size] using hsize
  · intro hfits n
    rw [hcut] at hfits ⊢
    simpa using h (hfits _ List.mem_cons_self) n

end WritesBack

theorem takesAt_wordCell {α : Type} (ofNat : Nat → α) (toNat : α → Nat) (n : Nat) (large : Bool)
    (h : ∀ value < 256 ^ indexBytes large, toNat (ofNat value) = value) :
    TakesAt n (do return ofNat (← Decoder.column large)) fun bytes cell =>
      bytes.length = indexBytes large ∧
        ∀ m, EmitsAt m (Encoder.column large (toNat cell)) bytes := by
  refine TakesAt.map ((takesAt_column n large).mono ?_)
  rintro bytes value ⟨hlen, rfl⟩
  have hlt := Bytes.ofLE_lt bytes
  rw [hlen] at hlt
  rw [h _ hlt]
  exact ⟨hlen, fun m => emitsAt_column m hlen⟩

theorem takesAt_codedCell (w : Widths) (n : Nat) (kind : CodedKind) :
    TakesAt n ((ColumnType.coded kind).read w) fun bytes token =>
      bytes.length = (ColumnType.coded kind).size w ∧
        ((CellBytes.mk (.coded kind) bytes).FitsToken →
          ∀ m, EmitsAt m ((ColumnType.coded kind).write w token)
            (CellBytes.mk (.coded kind) bytes).settled) := by
  refine (takesAt_column n (w.isWideCoded kind)).bind ?_
  rintro bytes value ⟨hlen, rfl⟩
  cases hdecode : kind.decode (Bytes.ofLE bytes) with
  | error fault => exact takesAt_throw _ _ _
  | ok found =>
    rw [← List.append_nil bytes] at hlen
    refine takesAt_pure ⟨hlen, fun hfits m => ?_⟩
    rw [List.append_nil] at hlen hfits ⊢
    have hcode := CodedKind.encode_of_decode hdecode (hfits _ rfl)
    simp only [ColumnType.write, hcode, CellBytes.settled, CellBytes.row?, Option.some.injEq]
    by_cases hrow : kind.rowIn (Bytes.ofLE bytes) = 0
    · -- Row 0 loses its tag, and is written as the value 0.
      rw [if_pos hrow, if_pos hrow, ← Bytes.ofLE_replicate_zero bytes.length]
      exact emitsAt_column m (List.length_replicate.trans hlen)
    · rw [if_neg hrow, if_neg hrow]
      exact emitsAt_column m hlen

theorem takesAt_cell (w : Widths) (n : Nat) (column : Column) :
    TakesAt n (column.type.read w) fun bytes cell =>
      WritesBack w [column] (column.type.write w cell) bytes := by
  obtain ⟨name, type⟩ := column
  have hword (large : Bool) (hlarge : type.size w = indexBytes large)
      (hplain : ∀ bytes, (CellBytes.mk type bytes).row? = none) :
      TakesAt n (do return UInt32.ofNat (← Decoder.column large)) fun bytes cell =>
        WritesBack w [⟨name, type⟩] (Encoder.column large cell.toNat) bytes := by
    refine (takesAt_wordCell UInt32.ofNat UInt32.toNat n large ?_).mono ?_
    · intro value hlt
      refine UInt32.toNat_ofNat_of_lt' (Nat.lt_of_lt_of_le hlt ?_)
      cases large <;> decide
    · rintro bytes cell ⟨hlen, hemit⟩
      refine WritesBack.cell (hlen.trans hlarge.symm) fun _ m => ?_
      rw [CellBytes.settled, hplain, if_neg (by simp)]
      exact hemit m
  cases type with
  | u16 =>
    have hu16 (value : Nat) (hlt : value < 256 ^ 2) : (UInt16.ofNat value).toNat = value :=
      UInt16.toNat_ofNat_of_lt' hlt
    refine (takesAt_wordCell UInt16.ofNat UInt16.toNat n false hu16).mono ?_
    rintro bytes cell ⟨hlen, hemit⟩
    exact WritesBack.cell hlen fun _ m => hemit m
  | u32 => exact hword true rfl fun _ => rfl
  | string => exact hword w.wideStrings rfl fun _ => rfl
  | blob => exact hword w.wideBlobs rfl fun _ => rfl
  | row table => exact hword (w.isWide table) rfl fun _ => rfl
  | coded kind =>
    refine (takesAt_codedCell w n kind).mono ?_
    rintro bytes token ⟨hlen, hemit⟩
    exact WritesBack.cell hlen hemit

/-- The cells of a row are written back as the bytes they are read from. -/
theorem takesAt_cells (w : Widths) (columns : List Column) (n : Nat) :
    TakesAt n (Cells.read w columns) fun bytes cells =>
      WritesBack w columns (Cells.write w columns cells) bytes := by
  induction columns generalizing n with
  | nil => exact takesAt_pure WritesBack.nil
  | cons column rest ih =>
    refine (takesAt_cell w n column).bind fun head cell hcell => ?_
    refine TakesAt.map ((ih _).mono fun tail cells hcells => ?_)
    exact hcell.append hcells

/-! ### Tables -/

namespace RowArray

variable {kind : RowKind}

/-- The rows as they are read back: numbered from 1, with the null token where a token names no
row. -/
def readBack (rows : RowArray kind) : RowArray kind :=
  rows.mapIdx fun i row =>
    { rid := i + 1, cells := Cells.mapTokens Token.readBack kind.columns row.cells }

theorem recoversAt_rows (w : Widths) (rows : List (Row kind)) (n rid : Nat) :
    RecoversAt n (rows.length * Cells.size w kind.columns)
      (Encoder.each (fun row : Row kind => Cells.write w kind.columns row.cells) rows)
      (readFrom w kind rows.length rid)
      (rows.mapIdx fun i row =>
        { rid := rid + i, cells := Cells.mapTokens Token.readBack kind.columns row.cells }) := by
  induction rows generalizing n rid with
  | nil =>
    rw [List.length_nil, Nat.zero_mul]
    exact recoversAt_of_emitsAt (emitsAt_pure n) (readsAt_pure n [])
  | cons row rest ih =>
    have hcells := recoversAt_cells w (fun _ => RowKind.readsNull) row.cells n
    have hrest := ih (n + Cells.size w kind.columns) (rid + 1)
    simp only [List.mapIdx_cons, List.length_cons, Nat.succ_mul, Nat.add_zero, ← Nat.add_assoc,
      Nat.add_right_comm rid _ 1, Nat.add_comm (_ * _)]
    exact hcells.bind (hrest.map (_ :: ·))

theorem takesAt_rows (w : Widths) (n count rid : Nat) :
    TakesAt n (readFrom w kind count rid) fun bytes rows =>
      WritesBack w (List.replicate count kind.columns).flatten
        (Encoder.each (fun row : Row kind => Cells.write w kind.columns row.cells) rows) bytes := by
  induction count generalizing n rid with
  | zero => exact takesAt_pure WritesBack.nil
  | succ count ih =>
    refine (takesAt_cells w kind.columns n).bind fun head cells hcells => ?_
    refine TakesAt.map ((ih _ (rid + 1)).mono fun tail rows hrows => ?_)
    rw [List.replicate_succ, List.flatten_cons]
    exact hcells.append hrows

/-- What is written has the size of the rows, and they are read back from it, whatever follows. -/
theorem read?_of_write? {w : Widths} {rows : RowArray kind} {bytes : Array UInt8}
    (h : rows.write? w = .ok bytes) :
    bytes.size = rows.size * Cells.size w kind.columns ∧
      ∀ suffix, read? w kind rows.size (bytes ++ suffix) = .ok rows.readBack := by
  have hrun := bytes?_eq_ok.1 h
  obtain ⟨written, hlen, hbytes, hread⟩ := recoversAt_rows w rows.toList 0 1 #[] bytes rfl hrun
  obtain rfl : bytes = written.toArray := by simpa using hbytes
  constructor
  · simpa using hlen
  · intro suffix
    have hvalue := hread.value? suffix
    rw [Array.length_toList] at hvalue
    rw [read?, hvalue]
    apply congrArg Except.ok
    apply Array.toList_inj.1
    simp [readBack, Nat.add_comm]

/-- What was read has the size of the rows, and is written back but for coded cells of row 0, as
long as the rows of coded cells fit a token. -/
theorem write?_of_read? {w : Widths} {n : Nat} {bytes : Array UInt8} {rows : RowArray kind}
    (h : read? w kind n bytes = .ok rows) :
    let size := n * Cells.size w kind.columns
    let cells := Cells.cut w (List.replicate n kind.columns).flatten bytes.toList
    size ≤ bytes.size ∧ cells.flatMap CellBytes.bytes = bytes.toList.take size ∧
      ((∀ cell ∈ cells, cell.FitsToken) →
        rows.write? w = .ok (cells.flatMap CellBytes.settled).toArray) := by
  intro size cells
  have hsize : Cells.size w (List.replicate n kind.columns).flatten = size :=
    Cells.size_replicate w kind.columns n
  cases hrows : (readFrom w kind n 1).value? bytes with
  | error fault =>
    rw [read?, hrows] at h
    cases h
  | ok list =>
    rw [read?, hrows] at h
    cases h
    obtain ⟨taken, hahead, hback⟩ := (takesAt_rows w 0 n 1).start hrows
    have htaken : taken = bytes.toList.take size := by
      rw [List.prefix_iff_eq_take.1 hahead, hback.size, hsize]
    have hcut : Cells.cut w (List.replicate n kind.columns).flatten taken = cells := by
      rw [htaken, ← hsize, Cells.cut_take]
    refine ⟨?_, ?_, fun hfits => ?_⟩
    · have hlen := hahead.length_le
      rwa [hback.size, hsize] at hlen
    · rw [← hsize]
      exact Cells.flatMap_cut w _ _
    · have hemit := hback.emits (hcut ▸ hfits) 0
      rw [hcut] at hemit
      exact hemit.bytes?

/-- Sizes, reading and writing of the rows of a table agree.

* Rows that can be written take the size of a row each, and are read back with the numbers from 1
  and the null token for every token that names no row, whatever follows.
* The cells of a row are read from the bytes of its size.
* Rows that can be read are written back as the bytes they were read from, but for zeros in coded
  cells of row 0, as long as the rows of coded cells fit a token. -/
theorem codec_agrees (w : Widths) (kind : RowKind) :
    (∀ (rows : RowArray kind) (bytes : Array UInt8), rows.write? w = .ok bytes →
      bytes.size = rows.size * Cells.size w kind.columns ∧
        ∀ suffix, read? w kind rows.size (bytes ++ suffix) = .ok rows.readBack) ∧
    (∀ c c' cells, Cells.read w kind.columns c = .ok cells c' →
      c' = c.forward (Cells.size w kind.columns)) ∧
    ∀ (n : Nat) (bytes : Array UInt8) (rows : RowArray kind), read? w kind n bytes = .ok rows →
      let size := n * Cells.size w kind.columns
      let cells := Cells.cut w (List.replicate n kind.columns).flatten bytes.toList
      size ≤ bytes.size ∧ cells.flatMap CellBytes.bytes = bytes.toList.take size ∧
        ((∀ cell ∈ cells, cell.FitsToken) →
          rows.write? w = .ok (cells.flatMap CellBytes.settled).toArray) := by
  refine ⟨fun rows bytes h => read?_of_write? h, ?_, fun n bytes rows h => write?_of_read? h⟩
  intro c c' cells hrun
  obtain ⟨bytes, -, hstop, hback⟩ := takesAt_cells w kind.columns c.pos c c' cells rfl hrun
  rw [hstop, hback.size]

/-- Widths with which a row number of a type definition takes two bytes, a coded one four. -/
def manyTypes : Widths where
  rows table := if table = .typeDef then 20000 else 9
  wideStrings := false
  wideGuids := false
  wideBlobs := false

/-- Type definition 3 implements nothing that is there, type definition 4 type reference 7. -/
def implementations (nothing : Token) : RowArray .interfaceImpl :=
  #[⟨1, ((3 : UInt32), (nothing, ()))⟩, ⟨2, ((4 : UInt32), ((⟨0x01000007⟩ : Token), ()))⟩]

theorem codec_agrees_implementations :
    (#[3, 0, 0, 0, 0, 0, 4, 0, 29, 0, 0, 0] : Array UInt8).size = 2 * 6 ∧
      read? manyTypes .interfaceImpl 2 (#[3, 0, 0, 0, 0, 0, 4, 0, 29, 0, 0, 0] ++ #[255]) =
        .ok (implementations .null) ∧
      (⟨#[3, 0, 0, 0, 0, 0, 4], 6⟩ : Cursor) = Cursor.forward ⟨#[3, 0, 0, 0, 0, 0, 4], 0⟩ 6 ∧
      (implementations .null).write? manyTypes =
        .ok #[3, 0, 0, 0, 0, 0, 4, 0, 29, 0, 0, 0] := by
  obtain ⟨hwritten, hforward, hread⟩ := codec_agrees manyTypes .interfaceImpl
  obtain ⟨hsize, hback⟩ :=
    hwritten (implementations ⟨0x01000000⟩) #[3, 0, 0, 0, 0, 0, 4, 0, 29, 0, 0, 0] rfl
  -- The tag in the first coded cell belongs to type references, of which row 0 is none.
  obtain ⟨-, -, hrewritten⟩ :=
    hread 2 #[3, 0, 1, 0, 0, 0, 4, 0, 29, 0, 0, 0, 255] (implementations .null) rfl
  have hstop := hforward ⟨#[3, 0, 0, 0, 0, 0, 4], 0⟩ _ ((3 : UInt32), (Token.null, ())) rfl
  exact ⟨hsize, hback #[255], hstop, hrewritten (by decide)⟩

end RowArray

end CilMetadata

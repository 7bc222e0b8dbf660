import CilMetadata.Proofs.Relocation.Ledger
import CilMetadata.Proofs.Relocation.Numbering
import Mathlib.Data.Prod.Lex

/-!
# Flushing a buffer

A flush brings the rows that a buffer holds into their final order, numbers them, and tells where
the tokens have gone. `Flushed` says so in terms of the ledger of the buffer.

* `arrange` is the final order; `relocation_ordered` tells the two maps of the relocation by it;
* `flushed` is the case of any buffer that follows a ledger, `arrange_cells_eq` says that rows with
  distinct keys have one order only;
* `flush_run` puts them together for all edits.
-/

namespace CilMetadata

/-! ### The order of rows -/

namespace Row

variable {kind : RowKind}

theorem comesBefore_iff {a b : Row kind} :
    a.comesBefore b = true ↔ toLex a.sortKey ≤ toLex b.sortKey := by
  simp [comesBefore, Prod.Lex.toLex_le_toLex]

/-- The number of a row is no part of its key. -/
@[simp] theorem sortKey_rid (row : Row kind) (rid : Nat) :
    ({ row with rid } : Row kind).sortKey = row.sortKey := by
  cases kind <;> rfl

/-- The key of a row is read off its cells. -/
theorem sortKey_cells (row : Row kind) : (Row.mk 0 row.cells).sortKey = row.sortKey :=
  row.sortKey_rid 0

end Row

/-- Rows in order are numbered by their places. -/
theorem RowArray.toList_ofList {kind : RowKind} (rows : List (Row kind)) :
    (RowArray.ofList rows).toList = rows.mapIdx fun i row => { row with rid := i + 1 } := by
  have hall : ∀ stored : RowArray kind, (rows.foldl RowArray.append stored).toList =
      stored.toList ++ rows.mapIdx fun i row => { row with rid := stored.size + i + 1 } := by
    induction rows with
    | nil => simp
    | cons row rest ih =>
      intro stored
      rw [List.foldl_cons, ih, List.mapIdx_cons]
      simp [RowArray.append, Nat.add_assoc, Nat.add_comm 1]
  simpa [ofList] using hall #[]

namespace RowBuffer

variable {kind : RowKind} {order : FlushOrder}

/-- What is held, in the order of a flush. -/
def arrange : FlushOrder → List (Held kind) → List (Held kind)
  | .insertion, held => held
  | .sortKey, held => held.mergeSort fun a b => a.row.comesBefore b.row

theorem perm_arrange (order : FlushOrder) (held : List (Held kind)) :
    (arrange order held).Perm held := by
  cases order with
  | insertion => exact List.Perm.refl held
  | sortKey => exact List.mergeSort_perm held _

theorem comesBefore_trans (a b c : Held kind) (h : a.row.comesBefore b.row = true)
    (h' : b.row.comesBefore c.row = true) : a.row.comesBefore c.row = true := by
  rw [Row.comesBefore_iff] at *
  exact h.trans h'

theorem comesBefore_total (a b : Held kind) :
    (a.row.comesBefore b.row || b.row.comesBefore a.row) = true := by
  rw [Bool.or_eq_true, Row.comesBefore_iff, Row.comesBefore_iff]
  exact le_total _ _

theorem pairwise_arrange (held : List (Held kind)) :
    (arrange .sortKey held).Pairwise fun a b => toLex a.row.sortKey ≤ toLex b.row.sortKey := by
  have hsorted := List.pairwise_mergeSort comesBefore_trans comesBefore_total held
  exact hsorted.imp Row.comesBefore_iff.1

/-- Rows with equal keys keep their order. -/
theorem filter_arrange (order : FlushOrder) (held : List (Held kind)) (key : Nat × Nat) :
    (arrange order held).filter (·.row.sortKey = key) = held.filter (·.row.sortKey = key) := by
  cases order with
  | insertion => rfl
  | sortKey =>
    have hties : (held.filter (·.row.sortKey = key)).Pairwise
        fun a b => a.row.comesBefore b.row = true := by
      refine List.pairwise_of_forall_mem_list fun a ha b hb => Row.comesBefore_iff.2 ?_
      have hakey : a.row.sortKey = key := by simpa using (List.mem_filter.1 ha).2
      have hbkey : b.row.sortKey = key := by simpa using (List.mem_filter.1 hb).2
      rw [hakey, hbkey]
    -- What has the key is sorted as it stands, so that sorting everything keeps its order.
    have hsub := List.sublist_mergeSort comesBefore_trans comesBefore_total hties
      (List.filter_sublist (l := held))
    have hfiltered := hsub.filter (·.row.sortKey = key)
    rw [List.filter_filter] at hfiltered
    simp only [Bool.and_self] at hfiltered
    exact (hfiltered.eq_of_length ((perm_arrange .sortKey held).filter _).length_eq.symm).symm

/-- A flush writes what is held, in order. -/
theorem ordered_eq {buffer : RowBuffer kind} {held : List (Held kind)} (h : Follows buffer held)
    (hsize : held.length < 2 ^ 24) :
    buffer.ordered = (arrange buffer.order held).map fun entry => entry.under entry.token.row := by
  unfold ordered
  rw [h.entries_eq hsize]
  cases buffer.order with
  | insertion => rfl
  | sortKey =>
    refine (List.map_mergeSort fun a _ b _ => ?_).symm
    simp [Held.under, Row.comesBefore]

/-! ### The relocation -/

/-- The token that a row had in the module it comes from, if it comes from one. -/
def sourceToken? (kind : RowKind) (sourceRid : Nat) : Option Token :=
  if sourceRid = 0 then none else some (Token.ofRow kind.table sourceRid)

theorem relocationFrom_eq (n : Nat) (rows : List (BufferedRow kind)) (known : Relocation) :
    relocationFrom n rows known = {
      issued := TokenMap.assignFrom kind.table (fun entry => some entry.row.token) known.issued n
        rows
      source := TokenMap.assignFrom kind.table (sourceToken? kind ·.sourceRid) known.source n
        rows } := by
  induction rows generalizing n known with
  | nil => rfl
  | cons entry rest ih =>
    rw [relocationFrom, ih, TokenMap.assignFrom, TokenMap.assignFrom, sourceToken?]
    by_cases hnew : entry.sourceRid = 0
    · rw [if_pos hnew, if_pos hnew]
    · rw [if_neg hnew, if_neg hnew]

/-- What a relocation knows after a flush, by the tokens that were handed out. -/
theorem relocation_ordered {buffer : RowBuffer kind} {held : List (Held kind)}
    (h : Follows buffer held) (hsize : held.length < 2 ^ 24) :
    relocationFrom 1 buffer.ordered {} = {
      issued := TokenMap.assignFrom kind.table (fun entry => some entry.token) {} 1
        (arrange buffer.order held)
      source := TokenMap.assignFrom kind.table (sourceToken? kind ·.sourceRid) {} 1
        (arrange buffer.order held) } := by
  rw [relocationFrom_eq, ordered_eq h hsize, TokenMap.assignFrom_map, TokenMap.assignFrom_map]
  have htoken : ∀ entry ∈ arrange buffer.order held,
      some (entry.under entry.token.row).row.token = some entry.token := by
    intro entry hentry
    obtain ⟨i, hi⟩ := List.getElem?_of_mem ((perm_arrange buffer.order held).mem_iff.1 hentry)
    have hin : entry.token.isIn kind.table = true := by
      rw [h.tokens i entry hi]
      exact Token.isIn_ofRow _ _
    exact congrArg some (Token.ofRow_row hin)
  rw [TokenMap.assignFrom_congr htoken]
  rfl

/-! ### Flushes -/

/-- Whether a row comes from the row with a number in its module; a token keeps the low 24 bits of
a number, so that only these are compared. -/
def Held.IsFrom (entry : Held kind) (rid : Nat) : Prop :=
  entry.sourceRid ≠ 0 ∧ entry.sourceRid % 2 ^ 24 = rid % 2 ^ 24

theorem sourceToken?_eq_some_iff {entry : Held kind} {rid : Nat} :
    sourceToken? kind entry.sourceRid = some (Token.ofRow kind.table rid) ↔ entry.IsFrom rid := by
  unfold sourceToken? Held.IsFrom
  split_ifs with hnew <;> simp [hnew, Token.ofRow_eq_ofRow_iff]

/-- What a flush of a buffer that holds `held` does; `final` is what was held, in final order. -/
structure Flushed (order : FlushOrder) (tables : Tables) (held final : List (Held kind))
    (result : RowBuffer kind × Tables × Relocation) : Prop where
  /-- The buffer is empty. -/
  emptied : result.1 = { order }
  /-- The table holds the rows as they were last set, each once, numbered by their places. -/
  perm : final.Perm held
  rows : (result.2.1.rows kind).toList = final.mapIdx fun i entry => { entry.row with rid := i + 1 }
  /-- Other tables stay as they were. -/
  others : ∀ other, other ≠ kind → result.2.1.rows other = tables.rows other
  external : result.2.1.external = tables.external
  /-- Rows are sorted if they are to be, and rows with equal keys stay in the order of insertion. -/
  sorted : order = .sortKey →
    final.Pairwise fun a b => toLex a.row.sortKey ≤ toLex b.row.sortKey
  stable : ∀ key, final.filter (·.row.sortKey = key) = held.filter (·.row.sortKey = key)
  kept : order = .insertion → final = held
  /-- The tokens that were handed out are distinct, and each goes to the token of its row. -/
  distinct : (held.map Held.token).Nodup
  issued : ∀ (i : Nat) (h : i < final.length),
    result.2.2.issued.find? final[i].token = some (Token.ofRow kind.table (i + 1))
  /-- No two tokens go to the same row, and to every row of the table one goes. -/
  injective : ∀ a ∈ held, ∀ b ∈ held,
    result.2.2.issued.find? a.token = result.2.2.issued.find? b.token → a.token = b.token
  onto : ∀ row ∈ result.2.1.rows kind, ∃ entry ∈ held,
    result.2.2.issued.find? entry.token = some row.token
  /-- The rows are counted that changed their numbers. -/
  moved : result.2.2.moved =
    held.countP fun entry => result.2.2.issued.find? entry.token != some entry.token
  unmoved : order = .insertion → ∀ entry ∈ held,
    result.2.2.issued.find? entry.token = some entry.token
  /-- A number in the module that rows come from leads to the last of the rows with it. -/
  original : ∀ rid target, result.2.2.source.find? (Token.ofRow kind.table rid) = some target ↔
    ∃ before entry after, final = before ++ entry :: after ∧ entry.IsFrom rid ∧
      (∀ later ∈ after, ¬ later.IsFrom rid) ∧
      target = Token.ofRow kind.table (before.length + 1)

theorem Follows.nodup_arrange {buffer : RowBuffer kind} {held : List (Held kind)}
    (h : Follows buffer held) (hsize : held.length < 2 ^ 24) :
    ((arrange buffer.order held).map Held.token).Nodup :=
  ((perm_arrange buffer.order held).map _).nodup_iff.2 (h.nodup_tokens hsize)

/-- Distinct tokens are mapped to the places of their rows. -/
theorem find?_issued {final : List (Held kind)} (h : (final.map Held.token).Nodup) {i : Nat}
    (hi : i < final.length) :
    (TokenMap.assignFrom kind.table (fun entry => some entry.token) {} 1 final).find?
      final[i].token = some (Token.ofRow kind.table (i + 1)) := by
  have hsplit : final = final.take i ++ final[i] :: final.drop (i + 1) := by
    rw [List.getElem_cons_drop, List.take_append_drop]
  refine TokenMap.find?_assignFrom.2 (.inl ⟨_, _, _, hsplit, rfl, fun other hother heq => ?_, ?_⟩)
  · rw [hsplit, List.map_append, List.map_cons] at h
    have hafter := (List.nodup_cons.1 (List.nodup_append.1 h).2.1).1
    exact hafter (Option.some.inj heq ▸ List.mem_map_of_mem hother)
  · rw [List.length_take, Nat.min_eq_left (Nat.le_of_lt hi), Nat.add_comm]

/-- The rows that a flush stores are read off the cells of what is held. -/
theorem tables_flush {buffer : RowBuffer kind} {held : List (Held kind)} (h : Follows buffer held)
    (hsize : held.length < 2 ^ 24) (tables : Tables) :
    (buffer.flush tables).2.1 = tables.set kind
      (((arrange buffer.order held).map (·.row.cells)).mapIdx fun i cells =>
        { rid := i + 1, cells }).toArray := by
  change tables.set kind (RowArray.ofList (buffer.ordered.map BufferedRow.row)) = _
  refine congrArg (tables.set kind) (Array.toList_inj.1 ?_)
  rw [RowArray.toList_ofList, ordered_eq h hsize]
  simp [List.mapIdx_eq_zipIdx_map, List.zipIdx_map, Held.under]

theorem rows_flush {buffer : RowBuffer kind} {held : List (Held kind)} (h : Follows buffer held)
    (hsize : held.length < 2 ^ 24) (tables : Tables) :
    ((buffer.flush tables).2.1.rows kind).toList =
      (arrange buffer.order held).mapIdx fun i entry => { entry.row with rid := i + 1 } := by
  rw [tables_flush h hsize, Tables.rows_set_self]
  simp [List.mapIdx_eq_zipIdx_map, List.zipIdx_map]

/-- A token that was handed out goes to the place of its row. -/
theorem issued_flush {buffer : RowBuffer kind} {held : List (Held kind)} (h : Follows buffer held)
    (hsize : held.length < 2 ^ 24) (tables : Tables) {i : Nat}
    (hi : i < (arrange buffer.order held).length) :
    (buffer.flush tables).2.2.issued.find? (arrange buffer.order held)[i].token =
      some (Token.ofRow kind.table (i + 1)) := by
  change (relocationFrom 1 buffer.ordered {}).issued.find? _ = _
  rw [relocation_ordered h hsize]
  exact find?_issued (h.nodup_arrange hsize) hi

/-- Moved tokens are counted as tokens that were handed out. -/
theorem moved_flush {buffer : RowBuffer kind} {held : List (Held kind)} (h : Follows buffer held)
    (hsize : held.length < 2 ^ 24) (tables : Tables) :
    (buffer.flush tables).2.2.moved = held.countP fun entry =>
      (buffer.flush tables).2.2.issued.find? entry.token != some entry.token := by
  change Relocation.moved (relocationFrom 1 buffer.ordered {}) = held.countP fun entry =>
    (relocationFrom 1 buffer.ordered {}).issued.find? entry.token != some entry.token
  rw [relocation_ordered h hsize]
  have hfinal := h.nodup_arrange hsize
  have hkeys : (TokenMap.assignFrom kind.table (fun entry => some entry.token) {} 1
      (arrange buffer.order held)).keys =
        ((arrange buffer.order held).map Held.token).reverse ++ [] :=
    TokenMap.keys_assignFrom hfinal fun _ _ hmem => by cases hmem
  rw [List.append_nil] at hkeys
  have hcount := TokenMap.countP_pairs (hkeys ▸ List.nodup_reverse.2 hfinal)
  rw [hkeys, List.countP_reverse, List.countP_map] at hcount
  exact hcount.trans ((perm_arrange buffer.order held).countP_eq _)

/-- A number in the module that rows come from leads to the last of the rows with it. -/
theorem source_flush {buffer : RowBuffer kind} {held : List (Held kind)} (h : Follows buffer held)
    (hsize : held.length < 2 ^ 24) (tables : Tables) {rid : Nat} {target : Token} :
    (buffer.flush tables).2.2.source.find? (Token.ofRow kind.table rid) = some target ↔
      ∃ before entry after, arrange buffer.order held = before ++ entry :: after ∧
        entry.IsFrom rid ∧ (∀ later ∈ after, ¬ later.IsFrom rid) ∧
        target = Token.ofRow kind.table (before.length + 1) := by
  change (relocationFrom 1 buffer.ordered {}).source.find? _ = _ ↔ _
  rw [relocation_ordered h hsize, TokenMap.find?_assignFrom]
  simp only [ne_eq, sourceToken?_eq_some_iff]
  constructor
  · rintro (⟨before, entry, after, hsplit, hfrom, hlast, rfl⟩ | ⟨-, hnone⟩)
    · exact ⟨before, entry, after, hsplit, hfrom, hlast, by rw [Nat.add_comm]⟩
    · cases hnone
  · rintro ⟨before, entry, after, hsplit, hfrom, hlast, rfl⟩
    exact .inl ⟨before, entry, after, hsplit, hfrom, hlast, by rw [Nat.add_comm]⟩

/-- A flush does to a buffer what it should, whatever the buffer holds. -/
theorem flushed {buffer : RowBuffer kind} {held : List (Held kind)} (h : Follows buffer held)
    (hsize : held.length < 2 ^ 24) (tables : Tables) :
    Flushed buffer.order tables held (arrange buffer.order held) (buffer.flush tables) := by
  have hperm := perm_arrange buffer.order held
  have hissued := fun {i : Nat} (hi : i < (arrange buffer.order held).length) =>
    issued_flush h hsize tables hi
  refine {
    emptied := rfl
    perm := hperm
    rows := rows_flush h hsize tables
    others := fun other hne => Tables.rows_set_of_ne tables _ hne
    external := Tables.external_set tables kind _
    sorted := fun horder => horder ▸ pairwise_arrange held
    stable := filter_arrange buffer.order held
    kept := fun horder => by rw [horder, arrange]
    distinct := h.nodup_tokens hsize
    issued := fun i hi => hissued hi
    injective := ?_
    onto := ?_
    moved := moved_flush h hsize tables
    unmoved := ?_
    original := fun rid target => source_flush h hsize tables }
  · intro a ha b hb heq
    obtain ⟨i, hi, rfl⟩ := List.mem_iff_getElem.1 (hperm.mem_iff.2 ha)
    obtain ⟨j, hj, rfl⟩ := List.mem_iff_getElem.1 (hperm.mem_iff.2 hb)
    have hlength := hperm.length_eq
    rw [hissued hi, hissued hj, Option.some.injEq, Token.ofRow_eq_ofRow_iff] at heq
    have hsame : i = j := by omega
    subst hsame
    rfl
  · intro row hrow
    have hmem := Array.mem_toList_iff.2 hrow
    rw [rows_flush h hsize tables] at hmem
    obtain ⟨i, hi, rfl⟩ := List.mem_mapIdx.1 hmem
    exact ⟨_, hperm.mem_iff.1 (List.getElem_mem hi), hissued hi⟩
  · intro horder entry hentry
    obtain ⟨i, hi, rfl⟩ := List.mem_iff_getElem.1 hentry
    have hsame : arrange buffer.order held = held := by rw [horder, arrange]
    have hplace := @hissued i (by rw [hsame]; exact hi)
    simp only [hsame] at hplace
    rw [hplace, h.tokens i _ (List.getElem?_eq_getElem hi)]

/-! ### Rows in one order only -/

/-- Rows with distinct keys are brought into one order, whatever the order they came in. -/
theorem arrange_cells_eq {held held' : List (Held kind)}
    (hperm : (held'.map (·.row.cells)).Perm (held.map (·.row.cells)))
    (hkeys : (held.map (·.row.sortKey)).Nodup) :
    (arrange .sortKey held').map (·.row.cells) = (arrange .sortKey held).map (·.row.cells) := by
  have hcells : ∀ held : List (Held kind),
      ((arrange .sortKey held).map (·.row.cells)).Perm (held.map (·.row.cells)) :=
    fun held => (perm_arrange .sortKey held).map _
  have hsorted : ∀ held : List (Held kind),
      ((arrange .sortKey held).map (·.row.cells)).Pairwise fun a b =>
        toLex (Row.mk 0 a).sortKey ≤ toLex (Row.mk 0 b).sortKey := by
    intro held
    rw [List.pairwise_map]
    simpa only [Row.sortKey_cells] using pairwise_arrange held
  have hdistinct : ((held.map (·.row.cells)).map fun cells => (Row.mk 0 cells).sortKey).Nodup := by
    simpa only [List.map_map, Function.comp_def, Row.sortKey_cells] using hkeys
  -- Both lists are sorted by the same key, which tells their members apart.
  refine List.Perm.eq_of_pairwise (fun a b ha hb hab hba => ?_) (hsorted held') (hsorted held) ?_
  · have hkey : (Row.mk 0 a).sortKey = (Row.mk 0 b).sortKey := toLex.injective (le_antisymm hab hba)
    have ha' := ((hcells held').trans hperm).mem_iff.1 ha
    exact List.inj_on_of_nodup_map hdistinct ha' ((hcells held).mem_iff.1 hb) hkey
  · exact (hcells held').trans (hperm.trans (hcells held).symm)

/-- **Whatever the edits of a buffer, its flush is right.** The rows that are held are stored in
final order and the relocation leads there; rows with distinct keys give the same tables in
whatever order they are added. -/
theorem flush_run (kind : RowKind) (tables : Tables) :
    (∀ (order : FlushOrder) (edits : List (Edit kind)), (run order edits).2.length < 2 ^ 24 →
      ∃ final, Flushed order tables (run order edits).2 final ((run order edits).1.flush tables)) ∧
    ∀ edits edits' : List (Edit kind), (run .sortKey edits).2.length < 2 ^ 24 →
      ((run .sortKey edits').2.map (·.row.cells)).Perm
        ((run .sortKey edits).2.map (·.row.cells)) →
      ((run .sortKey edits).2.map (·.row.sortKey)).Nodup →
      ((run .sortKey edits').1.flush tables).2.1 = ((run .sortKey edits).1.flush tables).2.1 := by
  constructor
  · intro order edits hsize
    refine ⟨arrange order (run order edits).2, ?_⟩
    have hflushed := flushed (follows_run order edits) hsize tables
    rw [order_run] at hflushed
    exact hflushed
  · intro edits edits' hsize hperm hkeys
    have hsize' : (run .sortKey edits').2.length < 2 ^ 24 := by
      have hlength := hperm.length_eq
      rw [List.length_map, List.length_map] at hlength
      omega
    rw [tables_flush (follows_run .sortKey edits) hsize,
      tables_flush (follows_run .sortKey edits') hsize', order_run, order_run,
      arrange_cells_eq hperm hkeys]

/-- A nested class in the table of them. -/
def nestedRow (nested enclosing : UInt32) : Row .nestedClass :=
  { rid := 0, cells := (nested, enclosing, ()) }

/-- Two rows are added and the first one is replaced, so that the second one comes first. -/
def replaced : List (Edit .nestedClass) :=
  [.add (nestedRow 7 2) 4, .add (nestedRow 5 2) 6, .set 1 (nestedRow 9 3)]

/-- The same rows in the other order. -/
def swapped : List (Edit .nestedClass) := [.add (nestedRow 5 2) 1, .add (nestedRow 9 3) 0]

theorem flush_run_replaced_swapped :
    (∃ final, Flushed .sortKey {} (run .sortKey replaced).2 final
      ((run .sortKey replaced).1.flush {})) ∧
    ((run .sortKey swapped).1.flush {}).2.1 = ((run .sortKey replaced).1.flush {}).2.1 := by
  have hcells : (run .sortKey replaced).2.map (·.row.cells) = [(9, 3, ()), (5, 2, ())] := rfl
  have hcells' : (run .sortKey swapped).2.map (·.row.cells) = [(5, 2, ()), (9, 3, ())] := rfl
  have hkeys : (run .sortKey replaced).2.map (·.row.sortKey) = [(9, 0), (5, 0)] := rfl
  refine ⟨(flush_run .nestedClass {}).1 .sortKey replaced (by decide),
    (flush_run .nestedClass {}).2 replaced swapped (by decide) ?_ ?_⟩
  · rw [hcells, hcells']
    exact List.Perm.swap _ _ _
  · rw [hkeys]
    decide

/-- Two rows that come from numbers which differ only above the low 24 bits. -/
def farApart : List (Edit .nestedClass) :=
  [.add (nestedRow 1 9) 1, .add (nestedRow 2 9) (2 ^ 24 + 1)]

/-- The only row that comes from number 1 stands first, yet the token of that number leads to the
second row. -/
theorem source_farApart :
    (run .sortKey farApart).2.length < 2 ^ 24 ∧
    ∃ before entry after, (run .sortKey farApart).1.ordered = before ++ entry :: after ∧
      entry.sourceRid = 1 ∧ (∀ later ∈ after, later.sourceRid ≠ 1) ∧
      Token.ofRow .nestedClass (before.length + 1) ≠ Token.ofRow .nestedClass 2 ∧
      ((run .sortKey farApart).1.flush {}).2.2.source.find? (Token.ofRow .nestedClass 1) =
        some (Token.ofRow .nestedClass 2) := by
  have hordered : (run .sortKey farApart).1.ordered =
      [⟨{ nestedRow 1 9 with rid := 1 }, 1⟩, ⟨{ nestedRow 2 9 with rid := 2 }, 2 ^ 24 + 1⟩] := by
    unfold ordered
    exact List.mergeSort_of_pairwise (by decide)
  refine ⟨by decide, [], _, _, hordered, rfl, by decide, by decide, ?_⟩
  change (relocationFrom 1 (run .sortKey farApart).1.ordered {}).source.find? _ = _
  rw [hordered]
  decide

end RowBuffer

end CilMetadata

import CilMetadata.Proofs.Relocation.Tokens

/-!
# Relocations of two tables

The tokens that a buffer hands out are tokens of its table, and so are their final tokens. Two
relocations of different tables therefore know no token in common, and no token that one of them
gives is known to the other: it does not matter whether they are merged or applied in turn, nor
which of them comes first.

* `Relocation.Confined` says that a relocation knows tokens of one table only; a flush gives such
  a relocation (`confined_flush`);
* `Relocation.final` is the final token by two relocations, `InAnyOrder` says that the four ways to
  apply them lead to one result;
* `MethodBody.TokensMoved` and `Tables.TokensMoved` say what is changed in a body and in tables, and
  what is not;
* `relocate_flushed_inAnyOrder` puts them together.
-/

namespace CilMetadata

/-! ### Merged maps -/

namespace TokenMap

theorem nodup_keys_insert {map : TokenMap} (h : map.keys.Nodup) (token target : Token) :
    (map.insert token target).keys.Nodup := by
  refine List.nodup_cons.2 ⟨fun hmem => ?_, h.sublist (List.filter_sublist.map Prod.fst)⟩
  obtain ⟨pair, hpair, heq⟩ := List.mem_map.1 hmem
  simpa [heq] using (List.mem_filter.1 hpair).2

theorem nodup_keys_assignFrom {α : Type} {table : TableKind} {key : α → Option Token}
    {map : TokenMap} (h : map.keys.Nodup) (n : Nat) (items : List α) :
    (assignFrom table key map n items).keys.Nodup := by
  induction items generalizing map n with
  | nil => exact h
  | cons item rest ih =>
    rw [assignFrom]
    cases key item with
    | none => exact ih h _
    | some token => exact ih (nodup_keys_insert h token _) _

/-- What another map says of a token counts more. -/
theorem find?_merge {other : TokenMap} (h : other.keys.Nodup) (map : TokenMap) (token : Token) :
    (map.merge other).find? token = (other.find? token).or (map.find? token) := by
  obtain ⟨pairs⟩ := other
  unfold merge
  induction pairs generalizing map with
  | nil => rfl
  | cons pair rest ih =>
    obtain ⟨hfirst, hrest⟩ := List.nodup_cons.1 h
    have hlater : ((map.insert pair.1 pair.2).insertAll rest).find? token =
        (rest.lookup token).or ((map.insert pair.1 pair.2).find? token) := ih _ hrest
    change ((map.insert pair.1 pair.2).insertAll rest).find? token =
      ((pair :: rest).lookup token).or (map.find? token)
    rw [hlater, find?_insert, List.lookup_cons]
    by_cases htoken : token = pair.1
    · -- The key is no key of the others, so that they leave it as it was inserted.
      have hnone : rest.lookup token = none := by
        refine List.lookup_eq_none_iff.2 fun later hlater => bne_iff_ne.2 fun heq => ?_
        rw [← htoken, heq] at hfirst
        exact hfirst (List.mem_map_of_mem hlater)
      rw [hnone, if_pos htoken, htoken, beq_self_eq_true]
      rfl
    · rw [if_neg htoken, beq_false_of_ne htoken]

end TokenMap

/-! ### Relocations of one table -/

namespace Relocation

/-- A relocation that knows the final tokens of tokens of one table, which are tokens of the table
too. -/
structure Confined (moves : Relocation) (table : TableKind) : Prop where
  nodup : moves.issued.keys.Nodup
  isIn : ∀ {token target}, moves.issued.find? token = some target →
    token.isIn table = true ∧ target.isIn table = true

/-- The final token of a token by two relocations, or the token itself if none knows it. -/
def final (first second : Relocation) (token : Token) : Token :=
  ((first.issued.find? token).or (second.issued.find? token)).getD token

variable {first second : Relocation} {table other : TableKind}

theorem Confined.keepsStrings (h : first.Confined table) : KeepsStrings first.resolve := by
  intro token htag
  unfold resolve
  cases hfound : first.issued.find? token with
  | none => exact htag
  | some target =>
    have hcode := table.toNat_code_lt
    have htarget := congrArg UInt8.toNat (Token.isIn_iff.1 (h.isIn hfound).2)
    intro hstring
    rw [Option.getD_some] at hstring
    rw [hstring, Token.userStringTag] at htarget
    rw [← htarget] at hcode
    exact absurd hcode (by decide)

theorem resolve_merge (h : second.Confined other) :
    (first.merge second).resolve = final second first := by
  funext token
  exact congrArg (Option.getD · token) (TokenMap.find?_merge h.nodup first.issued token)

section Apart

variable (hne : table ≠ other) (h : first.Confined table) (h' : second.Confined other)
include hne h h'

/-- What one relocation gives, the other one does not know. -/
theorem find?_eq_none {token target : Token} (hfound : first.issued.find? token = some target) :
    second.issued.find? token = none ∧ second.issued.find? target = none := by
  have hunknown : ∀ token : Token, token.isIn table = true → second.issued.find? token = none := by
    intro token hin
    by_contra hsome
    obtain ⟨target, htarget⟩ := Option.ne_none_iff_exists'.1 hsome
    exact hne (Token.isIn_unique hin (h'.isIn htarget).1)
  exact ⟨hunknown token (h.isIn hfound).1, hunknown target (h.isIn hfound).2⟩

theorem final_comm : final second first = final first second := by
  funext token
  unfold final
  cases hfound : first.issued.find? token with
  | none => rw [Option.or_none, Option.none_or]
  | some target => rw [(find?_eq_none hne h h' hfound).1, Option.none_or, Option.some_or]

/-- A token that has been replaced is not replaced again. -/
theorem resolve_comp_resolve : second.resolve ∘ first.resolve = final first second := by
  funext token
  unfold Function.comp resolve final
  cases hfound : first.issued.find? token with
  | none => rfl
  | some target =>
    rw [Option.getD_some, (find?_eq_none hne h h' hfound).2, Option.some_or]
    rfl

end Apart

/-- Two relocations give one result, whether they are merged or applied in turn, in both orders. -/
structure InAnyOrder {α : Type} (fixUp : Relocation → α → α) (first second : Relocation)
    (value result : α) : Prop where
  merged : fixUp (first.merge second) value = result
  merged' : fixUp (second.merge first) value = result
  inTurn : fixUp second (fixUp first value) = result
  inTurn' : fixUp first (fixUp second value) = result

/-- Where relocating is a change of tokens, relocations of different tables may be applied in any
order. -/
theorem inAnyOrder {α : Type} {fixUp : Relocation → α → α} {change : (Token → Token) → α → α}
    (heq : ∀ moves value, fixUp moves value = change moves.resolve value)
    (hcomp : ∀ {f : Token → Token}, KeepsStrings f → ∀ g value,
      change g (change f value) = change (g ∘ f) value)
    (hne : table ≠ other) (h : first.Confined table) (h' : second.Confined other) (value : α) :
    InAnyOrder fixUp first second value (change (final first second) value) where
  merged := by rw [heq, resolve_merge h', final_comm hne h h']
  merged' := by rw [heq, resolve_merge h]
  inTurn := by rw [heq, heq, hcomp h.keepsStrings, resolve_comp_resolve hne h h']
  inTurn' := by
    rw [heq, heq, hcomp h'.keepsStrings, resolve_comp_resolve hne.symm h' h,
      final_comm hne h h']

end Relocation

theorem RowBuffer.confined_flush {kind : RowKind} (buffer : RowBuffer kind) (tables : Tables) :
    (buffer.flush tables).2.2.Confined kind.table := by
  change (relocationFrom 1 buffer.ordered {}).Confined kind.table
  rw [relocationFrom_eq]
  have hempty : ({} : TokenMap).keys.Nodup := List.nodup_nil
  refine ⟨TokenMap.nodup_keys_assignFrom hempty 1 _, fun {token target} hfound => ?_⟩
  rcases TokenMap.find?_assignFrom.1 hfound with
    ⟨before, entry, after, -, hkey, -, rfl⟩ | ⟨-, hnone⟩
  · cases hkey
    exact ⟨Token.isIn_ofRow _ _, Token.isIn_ofRow _ _⟩
  · cases hnone

/-! ### What is changed, and what is not -/

/-- The tokens of a method signature. -/
def MethodSig.tokens (sig : MethodSig) : List Token :=
  sig.returnType.tokens ++ TypeSig.tokensOfAll sig.params ++ TypeSig.tokensOfAll sig.varargs

theorem MethodSig.tokens_mapTokens (f : Token → Token) (sig : MethodSig) :
    (sig.mapTokens f).tokens = sig.tokens.map f := by
  simp only [tokens, mapTokens, ← TypeSig.mapTokensOfAll_eq, TypeSig.tokens_mapTokens,
    TypeSig.tokensOfAll_mapTokens, List.map_append]

/-- An instruction whose token is changed, unless it is the one of a user string. -/
structure Instruction.TokenMoved (f : Token → Token) (before after : Instruction) : Prop where
  opcode : after.opcode = before.opcode
  offset : after.offset = before.offset
  callEffect : after.callEffect = before.callEffect
  moved : ∀ token, before.operand = .token token → token.tag ≠ Token.userStringTag →
    after.operand = .token (f token)
  string : ∀ token, before.operand = .token token → token.tag = Token.userStringTag →
    after.operand = before.operand
  inline : before.token? = none → after.operand = before.operand

/-- A clause whose caught type is changed; the field stays as it is where it is the start of a
filter, or nothing. -/
structure Clause.TokenMoved (f : Token → Token) (before after : Clause) : Prop where
  flags : after.flags = before.flags
  protectedRange : (after.tryOffset, after.tryLength) = (before.tryOffset, before.tryLength)
  handlerRange : (after.handlerOffset, after.handlerLength) =
    (before.handlerOffset, before.handlerLength)
  moved : after.caughtType? = before.caughtType?.map f
  filter : after.filterStart? = before.filterStart?
  kept : before.caughtType? = none → after.classOrFilter = before.classOrFilter

/-- A body of which the tokens are changed and nothing else. -/
structure MethodBody.TokensMoved (f : Token → Token) (before after : MethodBody) : Prop where
  instructions : List.Forall₂ (Instruction.TokenMoved f) before.instructions after.instructions
  clauses : List.Forall₂ (Clause.TokenMoved f) before.clauses after.clauses
  localsToken : after.localsToken = f before.localsToken
  locals : after.locals = before.locals.map (TypeSig.mapTokens f)
  header : (after.maxStack, after.initLocals) = (before.maxStack, before.initLocals)
  settings : (after.computesDepth, after.checksLabels) =
    (before.computesDepth, before.checksLabels)

/-- The columns of a row that are not coded, with the numbers of their cells. -/
def Cells.uncoded : (columns : List Column) → Cells columns → List (String × Nat)
  | [], _ => []
  | column :: rest, (cell, cells) =>
    match column.type.token? cell with
    | none => (column.name, column.type.toNat cell) :: uncoded rest cells
    | some _ => uncoded rest cells

/-- A row of which the tokens in coded columns are changed, under a number: the one it is stored
under, which a stored row knows. -/
structure Row.TokensMoved (f : Token → Token) (rid : Nat) {kind : RowKind}
    (before after : Row kind) : Prop where
  rid : after.rid = rid
  references : after.references = before.references.map f
  uncoded : Cells.uncoded kind.columns after.cells = Cells.uncoded kind.columns before.cells

/-- Tables of which the tokens in coded columns are changed and nothing else. -/
structure Tables.TokensMoved (f : Token → Token) (before after : Tables) : Prop where
  count : ∀ table, after.count table = before.count table
  rows : ∀ kind rid, Option.Rel (Row.TokensMoved f rid) (before.row? kind rid)
    (after.row? kind rid)

variable (f : Token → Token)

theorem Instruction.tokenMoved (ins : Instruction) : ins.TokenMoved f (ins.mapToken f) where
  opcode := rfl
  offset := rfl
  callEffect := rfl
  moved token heq htag := by simp [mapToken, Operand.mapToken, heq, htag]
  string token heq htag := by simp [mapToken, Operand.mapToken, heq, htag]
  inline hnone := by
    obtain ⟨opcode, operand, offset, callEffect⟩ := ins
    cases operand with
    | token reference => cases hnone
    | _ => rfl

theorem Clause.tokenMoved (clause : Clause) : clause.TokenMoved f (clause.mapToken f) where
  flags := rfl
  protectedRange := rfl
  handlerRange := rfl
  moved := by by_cases hcatch : clause.flags = 0 <;> simp [mapToken, caughtType?, isCatch, hcatch]
  filter := by
    by_cases hcatch : clause.flags = 0 <;>
      simp [mapToken, filterStart?, isFilter, isCatch, hcatch]
  kept hnone := by
    by_cases hcatch : clause.flags = 0 <;> simp_all [mapToken, caughtType?, isCatch]

theorem MethodBody.tokensMoved (body : MethodBody) : body.TokensMoved f (body.mapTokens f) where
  instructions := List.forall₂_map_right_iff.2
    (List.forall₂_same.2 fun ins _ => ins.tokenMoved f)
  clauses := List.forall₂_map_right_iff.2
    (List.forall₂_same.2 fun clause _ => clause.tokenMoved f)
  localsToken := rfl
  locals := rfl
  header := rfl
  settings := rfl

theorem Cells.tokens_mapTokens (columns : List Column) (cells : Cells columns) :
    tokens columns (mapTokens f columns cells) = (tokens columns cells).map f := by
  induction columns with
  | nil => rfl
  | cons column rest ih =>
    obtain ⟨name, type⟩ := column
    obtain ⟨cell, cells⟩ := cells
    cases type <;> simp [tokens, mapTokens, ColumnType.mapToken, ColumnType.token?, ih]

theorem Cells.uncoded_mapTokens (columns : List Column) (cells : Cells columns) :
    uncoded columns (mapTokens f columns cells) = uncoded columns cells := by
  induction columns with
  | nil => rfl
  | cons column rest ih =>
    obtain ⟨name, type⟩ := column
    obtain ⟨cell, cells⟩ := cells
    cases type <;> simp [uncoded, mapTokens, ColumnType.mapToken, ColumnType.token?, ih]

theorem Row.tokensMoved {kind : RowKind} (row : Row kind) (rid : Nat) :
    row.TokensMoved f rid { row.mapTokens f with rid } where
  rid := rfl
  references := Cells.tokens_mapTokens f kind.columns row.cells
  uncoded := Cells.uncoded_mapTokens f kind.columns row.cells

theorem RowArray.row?_mapTokens {kind : RowKind} (rows : RowArray kind) (rid : Nat) :
    (rows.mapTokens f).row? rid = (rows.row? rid).map fun row => { row.mapTokens f with rid } := by
  unfold row?
  split_ifs with hzero
  · rfl
  · rw [← Array.getElem?_toList, toList_mapTokens, List.getElem?_mapIdx, Array.getElem?_toList,
      Nat.sub_add_cancel (Nat.pos_of_ne_zero hzero)]

theorem Tables.tokensMoved (tables : Tables) : tables.TokensMoved f (tables.mapTokens f) where
  count table := by
    unfold count
    cases RowKind.ofTable? table with
    | none => rfl
    | some kind => simp [mapTokens, ← Array.length_toList, RowArray.toList_mapTokens]
  rows kind rid := by
    rw [row?, row?, mapTokens, rows_map, RowArray.row?_mapTokens]
    cases (tables.rows kind).row? rid with
    | none => exact .none
    | some row => exact .some (row.tokensMoved f rid)

namespace Relocation

/-- **Fix-ups after two flushes are independent of their order.** The relocations of buffers of
two different tables, merged or applied in turn in either order, give one result. Every token of a
tree, a signature, a body or tables becomes its final token by the relocation that knows it, or
stays as it is, and nothing else is changed. -/
theorem relocate_flushed_inAnyOrder {kind other : RowKind} (hne : kind ≠ other)
    (buffer : RowBuffer kind) (buffer' : RowBuffer other) (tables tables' : Tables) :
    let first := (buffer.flush tables).2.2
    let second := (buffer'.flush tables').2.2
    (∀ sig : TypeSig, InAnyOrder TypeSig.relocate first second sig
        (sig.mapTokens (final first second)) ∧
      (sig.mapTokens (final first second)).tokens = sig.tokens.map (final first second)) ∧
    (∀ sig : MethodSig, InAnyOrder MethodSig.relocate first second sig
        (sig.mapTokens (final first second)) ∧
      (sig.mapTokens (final first second)).tokens = sig.tokens.map (final first second)) ∧
    (∀ body : MethodBody, InAnyOrder MethodBody.relocate first second body
        (body.mapTokens (final first second)) ∧
      body.TokensMoved (final first second) (body.mapTokens (final first second))) ∧
    ∀ stored : Tables, InAnyOrder Tables.relocate first second stored
        (stored.mapTokens (final first second)) ∧
      stored.TokensMoved (final first second) (stored.mapTokens (final first second)) := by
  intro first second
  have htables : kind.table ≠ other.table := by
    intro heq
    have hkinds := congrArg RowKind.ofTable? heq
    rw [RowKind.ofTable?_table, RowKind.ofTable?_table] at hkinds
    exact hne (Option.some.inj hkinds)
  have hfirst : first.Confined kind.table := buffer.confined_flush tables
  have hsecond : second.Confined other.table := buffer'.confined_flush tables'
  refine ⟨fun sig => ⟨?_, sig.tokens_mapTokens _⟩, fun sig => ⟨?_, sig.tokens_mapTokens _⟩,
    fun body => ⟨?_, body.tokensMoved _⟩, fun stored => ⟨?_, stored.tokensMoved _⟩⟩
  · exact inAnyOrder TypeSig.relocate_eq (fun _ g sig => sig.mapTokens_mapTokens _ g) htables
      hfirst hsecond sig
  · exact inAnyOrder MethodSig.relocate_eq (fun _ g sig => sig.mapTokens_mapTokens _ g) htables
      hfirst hsecond sig
  · exact inAnyOrder MethodBody.relocate_eq (fun hf g body => body.mapTokens_mapTokens hf g)
      htables hfirst hsecond body
  · exact inAnyOrder (fun _ _ => rfl) (fun _ g stored => stored.mapTokens_mapTokens _ g) htables
      hfirst hsecond stored

/-- A reference to a type. -/
def someReference : Row .typeRef := { rid := 0, cells := (Token.null, 1, 2, ()) }

/-- A buffer with one reference. -/
def oneReference : RowBuffer .typeRef := (RowBuffer.run .insertion [.add someReference 0]).1

/-- Two nested classes that change places, and a reference that stays. -/
theorem relocate_flushed_inAnyOrder_replaced :
    let first := ((RowBuffer.run .sortKey RowBuffer.replaced).1.flush {}).2.2
    let second := (oneReference.flush {}).2.2
    RowKind.nestedClass ≠ .typeRef ∧ InAnyOrder TypeSig.relocate first second
      (.applied .cls (Token.ofRow .typeRef 1) [.named .cls (Token.ofRow .nestedClass 1)])
      (.applied .cls (Token.ofRow .typeRef 1) [.named .cls (Token.ofRow .nestedClass 2)]) := by
  intro first second
  refine ⟨by decide, ?_⟩
  -- The second of the nested classes comes first in the table.
  have hfirst : first = RowBuffer.relocationFrom 1
      [⟨{ RowBuffer.nestedRow 5 2 with rid := 2 }, 6⟩,
        ⟨{ RowBuffer.nestedRow 9 3 with rid := 1 }, 4⟩] {} := by
    change RowBuffer.relocationFrom 1 (RowBuffer.run .sortKey RowBuffer.replaced).1.ordered {} = _
    refine congrArg (RowBuffer.relocationFrom 1 · {}) ?_
    simp [RowBuffer.ordered, RowBuffer.run, RowBuffer.replaced, RowBuffer.step, RowBuffer.add,
      RowBuffer.set, RowBuffer.get?, RowBuffer.nestedRow, Array.modify, Array.modifyM,
      List.mergeSort, List.MergeSort.Internal.splitInTwo, Row.comesBefore, Row.sortKey,
      Row.nestedClass]
  have hclass : final first second (Token.ofRow .nestedClass 1) = Token.ofRow .nestedClass 2 := by
    rw [hfirst]
    decide
  have htypeRef : final first second (Token.ofRow .typeRef 1) = Token.ofRow .typeRef 1 := by
    rw [hfirst]
    decide
  have hall := (relocate_flushed_inAnyOrder (by decide) (RowBuffer.run .sortKey
    RowBuffer.replaced).1 oneReference {} {}).1 (.applied .cls (Token.ofRow .typeRef 1)
      [.named .cls (Token.ofRow .nestedClass 1)])
  have htree := hall.1
  simp only [TypeSig.mapTokens, TypeSig.mapTokensOfAll] at htree
  rw [hclass, htypeRef] at htree
  exact htree

end Relocation

end CilMetadata

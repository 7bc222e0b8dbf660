import CilMetadata.Proofs.Graph.Answers
import CilMetadata.Proofs.Table.Places
import Mathlib.Data.List.Nodup
import Mathlib.Data.List.Perm.Subperm

/-!
# The rows that name an owner

The interfaces and overrides of a type and the generic parameters of a type or a method are the
rows that name it. A list of them is made from the numbers that these rows keep, so it is right as
long as stored rows know their places.

* `Tables.Addresses` relates tokens to the rows of a table that they lead to, each row once;
* `Tables.Numbered.addresses` makes tokens from the numbers of rows, whatever rows are picked and
  whatever order they are put in;
* `Collected` is that for one property of an owner: the tokens address the rows, and a coherent
  graph answers with all of them;
* `located_and_collected_run` is the result for tables behind any edits.
-/

namespace CilMetadata

/-! ### Tokens of rows -/

namespace Tables

variable {tables : Tables} {kind : RowKind} {rows : List (Row kind)}

/-- Tokens that lead to some rows of a table: to one row after the other, no token twice, and no
other token leads to any of the rows. -/
structure Addresses (tables : Tables) (tokens : List Token) (rows : List (Row kind)) : Prop where
  leads : tokens.map (tables.rowOf? kind) = rows.map some
  distinct : tokens.Nodup
  complete : ∀ token, ∀ row ∈ rows, tables.rowOf? kind token = some row → token ∈ tokens

/-- The numbers of all rows of a table are the numbers from 1 to the row count. -/
theorem Numbered.map_rid (h : tables.Numbered) (kind : RowKind) :
    (tables.rows kind).toList.map Row.rid = List.range' 1 (tables.count kind.table) := by
  apply List.ext_getElem?
  intro i
  rw [List.getElem?_map, Array.getElem?_toList, count_table]
  cases hrow : (tables.rows kind)[i]? with
  | none =>
    have hout : ¬ i < (tables.rows kind).size := Nat.not_lt.2 (Array.getElem?_eq_none_iff.1 hrow)
    simp [hout]
  | some row =>
    have hlt := (Array.getElem?_eq_some_iff.1 hrow).1
    simp [h kind i row hrow, hlt, Nat.add_comm]

/-- No row of a table stands in it twice. -/
theorem Numbered.nodup_rows (h : tables.Numbered) (kind : RowKind) :
    (tables.rows kind).toList.Nodup := by
  have hrids : ((tables.rows kind).toList.map Row.rid).Nodup := by
    rw [h.map_rid]
    exact List.nodup_range'
  exact hrids.of_map

theorem Numbered.row?_of_mem (h : tables.Numbered) {row : Row kind}
    (hrow : row ∈ (tables.rows kind).toList) : tables.row? kind row.rid = some row := by
  obtain ⟨i, hi⟩ := List.getElem?_of_mem hrow
  rw [Array.getElem?_toList] at hi
  rw [h kind i row hi, row?, RowArray.row?_succ, hi]

/-- The tokens of rows, made from the numbers in them. -/
theorem tokensOf_rid (rows : List (Row kind)) :
    Graph.tokensOf kind.table (rows.map Row.rid) = rows.map Row.token := by
  rw [Graph.tokensOf, List.map_map]
  rfl

/-- Tokens made from the numbers of rows address them, whatever rows of a table are picked and
whatever order they are put in. -/
theorem Numbered.addresses (h : tables.Numbered) (hcount : tables.count kind.table < 2 ^ 24)
    (hrows : rows.Subperm (tables.rows kind).toList) :
    tables.Addresses (Graph.tokensOf kind.table (rows.map Row.rid)) rows := by
  rw [tokensOf_rid]
  have hleads : (rows.map Row.token).map (tables.rowOf? kind) = rows.map some := by
    rw [List.map_map]
    exact List.map_congr_left fun row hrow =>
      h.rowOf?_token hcount (h.row?_of_mem (hrows.subset hrow))
  refine ⟨hleads, ?_, fun token row hrow hleadsTo => ?_⟩
  · obtain ⟨ordered, hperm, hsub⟩ := hrows
    have hnodup : rows.Nodup := hperm.nodup_iff.1 ((h.nodup_rows kind).sublist hsub)
    have hsome : (rows.map some).Nodup := hnodup.map (Option.some_injective _)
    rw [← hleads] at hsome
    exact hsome.of_map
  · rw [rowOf?] at hleadsTo
    split_ifs at hleadsTo with hin
    have htoken : row.token = token := by
      rw [Row.token, h.rid_eq hleadsTo, Token.ofRow_row hin]
    exact htoken ▸ List.mem_map_of_mem hrow

theorem Numbered.addresses_filter (h : tables.Numbered) (kind : RowKind)
    (hcount : tables.count kind.table < 2 ^ 24) (p : Row kind → Bool) :
    tables.Addresses
      (Graph.tokensOf kind.table (((tables.rows kind).toList.filter p).map Row.rid))
      ((tables.rows kind).toList.filter p) :=
  h.addresses hcount List.filter_sublist.subperm

/-- A token that leads to a row names a member of the row's kind. -/
theorem names_of_rowOf? {kind : MemberKind} {token : Token} {row : Row kind.rowKind}
    (h : tables.rowOf? kind.rowKind token = some row) : tables.names kind token = true := by
  rw [rowOf?] at h
  split_ifs at h with hin
  have hrange := exists_row?_iff.1 ⟨row, h⟩
  exact Graph.names_iff (g := { tables, heaps := {} }) |>.2 ⟨hin, hrange.1, hrange.2⟩

/-- So looking up what tokens address loses none of them. -/
theorem Addresses.filter_names {kind : MemberKind} {tokens : List Token}
    {rows : List (Row kind.rowKind)} (h : tables.Addresses tokens rows) :
    tokens.filter (tables.names kind) = tokens := by
  refine List.filter_eq_self.2 fun token htoken => ?_
  have hmem : tables.rowOf? kind.rowKind token ∈ rows.map some :=
    h.leads ▸ List.mem_map_of_mem htoken
  obtain ⟨row, -, hrow⟩ := List.mem_map.1 hmem
  exact names_of_rowOf? hrow.symm

end Tables

/-! ### Owners -/

namespace Graph

/-- The rows that a property of an owner is about are collected: the tokens address them, and every
coherent graph on the tables answers with all of the tokens. -/
structure Collected (tables : Tables) (kind : MemberKind) (owner : Token) (property : Property)
    {about : RowKind} (tokens : List Token) (rows : List (Row about)) : Prop where
  addresses : tables.Addresses tokens rows
  answered : ∀ (g : Graph) (typeArguments : Option (List TypeSig)), g.tables = tables →
    Coherent EverySlot g g → outcome (inspect typeArguments kind owner property) g =
      .ok (some (.tokens tokens))

/-- Where tokens address rows of members, an answer by the relation that they come from loses none
of them. -/
theorem collected_of_answered {tables : Tables} {kind : MemberKind} {owner : Token}
    {property : Property} {relation : Tables → Token → List Token} (about : MemberKind)
    {rows : List (Row about.rowKind)} (haddresses : tables.Addresses (relation tables owner) rows)
    (hanswered : ∀ (g : Graph) (typeArguments : Option (List TypeSig)), Coherent EverySlot g g →
      outcome (inspect typeArguments kind owner property) g = .ok (some (.tokens
        ((relation g.tables owner).filter (g.tables.names about))))) :
    Collected tables kind owner property (relation tables owner) rows where
  addresses := haddresses
  answered g typeArguments htables hg := by
    rw [hanswered g typeArguments hg, htables, haddresses.filter_names]

/-- The rows about the generic parameters of an owner, in the order of their numbers. -/
def genericRows (tables : Tables) (owner : Token) : List (Row .genericParam) :=
  (tables.genericParam.toList.filter fun row => row.genericOwner = owner).mergeSort
    fun a b => a.genericNumber ≤ b.genericNumber

theorem perm_genericRows (tables : Tables) (owner : Token) :
    (genericRows tables owner).Perm
      (tables.genericParam.toList.filter fun row => row.genericOwner = owner) :=
  List.mergeSort_perm _ _

theorem pairwise_genericRows (tables : Tables) (owner : Token) :
    (genericRows tables owner).Pairwise fun a b => a.genericNumber ≤ b.genericNumber := by
  have hsorted : (genericRows tables owner).Pairwise fun a b =>
      decide (a.genericNumber ≤ b.genericNumber) = true := by
    refine List.pairwise_mergeSort (fun a b c hab hbc => ?_) (fun a b => ?_) _
    · simp only [decide_eq_true_eq] at *
      exact UInt16.le_trans hab hbc
    · simp only [Bool.or_eq_true, decide_eq_true_eq]
      exact UInt16.le_total _ _
  exact hsorted.imp of_decide_eq_true

section Owners

variable {tables : Tables} (h : tables.Numbered)
include h

theorem collected_interfaces (hcount : tables.count .interfaceImpl < 2 ^ 24) {type : Token}
    (htype : type.isIn .typeDef = true) :
    Collected tables .typeDefinition type .interfaces (interfaceTokens tables type)
      (tables.interfaceImpl.toList.filter fun row => row.implementationClass.toNat = type.row) :=
  collected_of_answered .interfaceImplementation (h.addresses_filter .interfaceImpl hcount _)
    fun _ typeArguments hg => hg.interfaces typeArguments htype

theorem collected_overrides (hcount : tables.count .methodImpl < 2 ^ 24) {type : Token}
    (htype : type.isIn .typeDef = true) :
    Collected tables .typeDefinition type .overrides (overrideTokens tables type)
      (tables.methodImpl.toList.filter fun row => row.overrideClass.toNat = type.row) :=
  collected_of_answered .methodImplementation (h.addresses_filter .methodImpl hcount _)
    fun _ typeArguments hg => hg.overrides typeArguments htype

theorem collected_genericParams (hcount : tables.count .genericParam < 2 ^ 24) {kind : MemberKind}
    (hkind : relation? kind .genericParams = some genericTokens) {owner : Token}
    (howner : owner.isIn kind.table = true) :
    Collected tables kind owner .genericParams (genericTokens tables owner)
      (genericRows tables owner) := by
  have hsub : (genericRows tables owner).Subperm (tables.rows .genericParam).toList :=
    (perm_genericRows tables owner).subperm.trans List.filter_sublist.subperm
  have haddresses : tables.Addresses (genericTokens tables owner) (genericRows tables owner) :=
    h.addresses hcount hsub
  exact collected_of_answered .genericParameter haddresses
    fun _ typeArguments hg => hg.genericParams typeArguments hkind howner

end Owners

/-- **Stored rows know their places, whatever has been done to tables.** Behind any edits, the row
in a place has the number of the place, rows are found for the numbers from 1 to the row count, and
the token of a row is the token of its number. So the tokens that are made from the numbers of the
rows that name an owner address exactly these rows, each once, and generic parameters are listed in
the order of their numbers. -/
theorem located_and_collected_run (edits : List Tables.Edit) :
    let tables := Tables.run edits
    (∀ kind, tables.Located kind) ∧
    (tables.count .interfaceImpl < 2 ^ 24 → ∀ type : Token, type.isIn .typeDef = true →
      Collected tables .typeDefinition type .interfaces (interfaceTokens tables type)
        (tables.interfaceImpl.toList.filter fun row =>
          row.implementationClass.toNat = type.row)) ∧
    (tables.count .methodImpl < 2 ^ 24 → ∀ type : Token, type.isIn .typeDef = true →
      Collected tables .typeDefinition type .overrides (overrideTokens tables type)
        (tables.methodImpl.toList.filter fun row => row.overrideClass.toNat = type.row)) ∧
    (tables.count .genericParam < 2 ^ 24 → ∀ kind ∈ [MemberKind.typeDefinition, .methodDefinition],
      ∀ owner : Token, owner.isIn kind.table = true → ∃ rows : List (Row .genericParam),
        rows.Perm (tables.genericParam.toList.filter fun row => row.genericOwner = owner) ∧
        rows.Pairwise (fun a b => a.genericNumber ≤ b.genericNumber) ∧
        Collected tables kind owner .genericParams (genericTokens tables owner) rows) := by
  intro tables
  have hnumbered : tables.Numbered := Tables.numbered_run edits
  refine ⟨hnumbered.located, fun hcount _ htype => collected_interfaces hnumbered hcount htype,
    fun hcount _ htype => collected_overrides hnumbered hcount htype,
    fun hcount kind hkind owner howner => ?_⟩
  have hrelation : relation? kind .genericParams = some genericTokens := by
    rcases List.mem_pair.1 hkind with rfl | rfl <;> rfl
  exact ⟨genericRows tables owner, perm_genericRows tables owner, pairwise_genericRows tables owner,
    collected_genericParams hnumbered hcount hrelation howner⟩

/-- A row about an interface of a type, under a number of its own. -/
def implementation (rid : Nat) (type : UInt32) : Row .interfaceImpl :=
  { rid, cells := (type, .null, ()) }

/-- A generic parameter of the first method, under a number of its own. -/
def parameter (rid : Nat) (number : UInt16) : Row .genericParam :=
  { rid, cells := (number, 0, .ofRow .methodDef 1, 0, ()) }

/-- One row is read and three more are stored, all of them under wrong numbers. -/
def misnumbered : List Tables.Edit :=
  [.read .interfaceImpl (({} : Tables).widths 0) 1 #[2, 0, 0, 0], .push (implementation 40 1),
   .replace 1 (implementation 0 1), .push (implementation 1 2),
   .flush ({ order := .insertion, entries := #[⟨parameter 9 1, 0⟩, ⟨parameter 9 0, 4⟩] } :
     RowBuffer .genericParam),
   .relocate {}]

theorem located_and_collected_run_misnumbered :
    let tables := Tables.run misnumbered
    let g : Graph := { tables, heaps := {} }
    (∃ row, tables.row? .genericParam 2 = some row ∧ row.rid = 2) ∧
    tables.count .interfaceImpl < 2 ^ 24 ∧ tables.count .methodImpl < 2 ^ 24 ∧
    tables.count .genericParam < 2 ^ 24 ∧ Coherent EverySlot g g ∧
    outcome (inspect none .typeDefinition (.ofRow .typeDef 1) .interfaces) g =
      .ok (some (.tokens [.ofRow .interfaceImpl 1, .ofRow .interfaceImpl 2])) ∧
    outcome (inspect none .typeDefinition (.ofRow .typeDef 1) .overrides) g =
      .ok (some (.tokens [])) ∧
    ∃ rows : List (Row .genericParam), rows.length = 2 ∧
      rows.Pairwise (fun a b => a.genericNumber ≤ b.genericNumber) ∧
      tables.Addresses (genericTokens tables (.ofRow .methodDef 1)) rows := by
  intro tables g
  have hcoherent : Coherent EverySlot g g := coherent_bare EverySlot g
  obtain ⟨hlocated, hinterfaces, hoverrides, hparams⟩ := located_and_collected_run misnumbered
  obtain ⟨row, hrow⟩ := ((hlocated .genericParam).found 2).2 (by decide)
  obtain ⟨rows, hperm, hsorted, hcollected⟩ := hparams (by decide) .methodDefinition (by decide)
    (.ofRow .methodDef 1) (by decide)
  refine ⟨⟨row, hrow, ((hlocated .genericParam).token 2 row hrow).1⟩, by decide, by decide,
    by decide, hcoherent,
    (hinterfaces (by decide) (.ofRow .typeDef 1) (by decide)).answered g none rfl hcoherent,
    (hoverrides (by decide) (.ofRow .typeDef 1) (by decide)).answered g none rfl hcoherent,
    rows, hperm.length_eq.trans rfl, hsorted, hcollected.addresses⟩

end Graph

end CilMetadata

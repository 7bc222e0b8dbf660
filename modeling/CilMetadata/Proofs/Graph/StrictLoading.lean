import CilMetadata.Proofs.Graph.Identity
import CilMetadata.Proofs.Table.References

/-!
# Strict loading leaves no dangling link

Strict settings refuse tables with a reference past the end of a table. Of what is accepted, every
coded column leads to a member, if its token names a row of a table with members, as long as the
tables are the accepted ones.

* `create_eq_ok_iff` and `create_eq_error_iff` are the two outcomes of strict loading;
* `LinksResolve` says that the properties that follow a coded column find a member;
* `strict_loading` puts them together.
-/

namespace CilMetadata.Graph

variable {g : Graph} {tables : Tables} {heaps : Heaps} {settings : Settings}
variable {kind : MemberKind} {token : Token}

/-! ### The outcomes of strict loading -/

theorem create_of_strict (hstrict : settings.strictReferences = true) :
    create tables heaps settings =
      match tables.validate with
      | .ok () => .ok { tables, heaps, settings }
      | .error fault => .error fault := by
  rw [create, if_pos hstrict]
  cases tables.validate <;> rfl

theorem create_eq_ok_iff (hstrict : settings.strictReferences = true) :
    create tables heaps settings = .ok g ↔
      g = { tables, heaps, settings } ∧
        ∀ kind, ∀ row ∈ tables.rows kind, ∀ token ∈ row.references, tables.Holds token := by
  rw [create_of_strict hstrict, ← Tables.validate_eq_ok_iff]
  cases tables.validate with
  | ok => simp [eq_comm]
  | error fault => simp

theorem create_eq_error_iff (hstrict : settings.strictReferences = true) {fault : Fault} :
    create tables heaps settings = .error fault ↔
      ∃ (kind : RowKind) (row : Row kind) (token : Token) (table : TableKind),
        tables.FirstDangling row token ∧ token.isIn table = true ∧
          fault = .rowOutOfRange table token.row (tables.count table) := by
  rw [create_of_strict hstrict, ← Tables.validate_eq_error_iff]
  cases tables.validate with
  | ok => simp
  | error fault => simp

/-! ### Links -/

/-- A new graph has no members. -/
theorem wellFormed_new (tables : Tables) (heaps : Heaps) (settings : Settings)
    (bodies : Option (List (UInt32 × Array UInt8))) :
    WellFormed { tables, heaps, settings, bodies } := by
  constructor <;> simp

/-- A look-up of an existing row finds the member of the token. -/
theorem WellFormed.lookup (hg : WellFormed g) (h : g.Resolves token kind) :
    ∃ object, outcome (lookup token) g = .ok (some ⟨kind, token, object⟩) := by
  cases hmember : g.members[token]? with
  | some member =>
    refine ⟨member.object, ?_⟩
    rw [outcome_of_ok (lookup_of_some h hmember), ← hg.grown.kind_eq hmember h.isIn]
  | none => exact ⟨_, outcome_of_ok (lookup_of_none h hmember)⟩

/-- A link is one of the references of a row. -/
theorem link_mem_references {property : Property} {column : Row kind.rowKind → Token}
    (h : linkColumn? kind property = some column) (row : Row kind.rowKind) :
    column row ∈ row.references := by
  unfold linkColumn? at h
  split at h <;> cases h
  -- All links are first among the references of their rows, but for the second of an override.
  all_goals first
    | exact List.mem_cons_self
    | exact List.mem_cons_of_mem _ List.mem_cons_self

theorem inspect_of_link {property : Property} {column : Row kind.rowKind → Token}
    (h : linkColumn? kind property = some column) (typeArguments : Option (List TypeSig))
    (token : Token) :
    inspect typeArguments kind token property = do
      let target ← follow kind column token
      return some (.member (target.map fun member => (member.kind, member.token))) := by
  unfold linkColumn? at h
  split at h <;> cases h <;> rfl

/-- A reference that holds, of a row, names an existing row. -/
theorem resolves_of_holds {rows : RowKind} {row : Row rows} (hrow : row ∈ g.tables.rows rows)
    (hvalid : g.tables.validate = .ok ()) {reference : Token} (hmem : reference ∈ row.references)
    (hnull : reference.isNull = false) (hin : reference.isIn kind.table = true) :
    g.Resolves reference kind where
  isIn := hin
  pos := Nat.one_le_iff_ne_zero.2 (by simpa [Token.isNull] using hnull)
  le := Tables.row_le_count hvalid hrow hmem hin

/-- The properties that follow a coded column find a member, wherever the column names a row of a
table with members; the type around an exported type is found where it is an exported type. -/
structure LinksResolve (g : Graph) : Prop where
  link : ∀ {kind : MemberKind} {token : Token} {row : Row kind.rowKind} {property : Property}
    {column : Row kind.rowKind → Token} {target : MemberKind},
    g.tables.row? kind.rowKind token.row = some row → linkColumn? kind property = some column →
    (column row).isNull = false → (column row).isIn target.table = true →
    ∀ typeArguments, outcome (inspect typeArguments kind token property) g =
      .ok (some (.member (some (target, column row))))
  exported : ∀ {token : Token} {row : Row .exportedType},
    g.tables.row? .exportedType token.row = some row →
    row.exportedImplementation.isNull = false →
    row.exportedImplementation.isIn .exportedType = true →
    ∀ typeArguments, outcome (inspect typeArguments .exportedType token .enclosingType) g =
      .ok (some (.definition (some row.exportedImplementation)))

theorem outcome_bind_row {rows : RowKind} {row : Row rows} {α : Type}
    (hrow : g.tables.row? rows token.row = some row) (f : Row rows → GraphM α) :
    outcome (Graph.row rows token >>= f) g = outcome (f row) g := by
  rw [outcome_bind, outcome_of_ok (row_of_some hrow), after_of_ok (row_of_some hrow)]
  rfl

theorem linksResolve_of_validate (hg : WellFormed g) (hvalid : g.tables.validate = .ok ()) :
    LinksResolve g where
  link {kind token row property column target} hrow hlink hnull hin typeArguments := by
    have hmem := link_mem_references hlink row
    obtain ⟨object, hlookup⟩ :=
      hg.lookup (resolves_of_holds (Tables.mem_of_row? hrow) hvalid hmem hnull hin)
    rw [inspect_of_link hlink, follow, bind_assoc, outcome_bind_row hrow, outcome_bind, hlookup]
    rfl
  exported {token row} hrow hnull hin typeArguments := by
    have hmem : row.exportedImplementation ∈ row.references := List.mem_cons_self
    have hresolves : g.Resolves row.exportedImplementation .exportedType :=
      resolves_of_holds (Tables.mem_of_row? hrow) hvalid hmem hnull hin
    obtain ⟨object, hlookup⟩ := hg.lookup hresolves
    have hstep : outcome (exportingType token) g = .ok (some row.exportedImplementation) := by
      rw [exportingType, outcome_bind_row hrow, outcome_bind, Graph.find,
        if_pos hresolves.isIn, hlookup]
      rfl
    change outcome (do return some (Answer.definition (← exportingType token))) g = _
    rw [outcome_bind, hstep]
    rfl

/-- Under strict settings, tables are accepted exactly when every token in a coded column, of which
there are eleven in ten tables, names no row, no table or a row within the count of its table; and
otherwise the first one that does not is reported. Whatever is done with an accepted module, its
links lead to members wherever the tables are the accepted ones. -/
theorem strict_loading (tables : Tables) (heaps : Heaps) (settings : Settings)
    (hstrict : settings.strictReferences = true) :
    (∀ kind : RowKind, kind ∈ RowKind.referenceOrder ↔ kind.codedColumns ≠ []) ∧
    (RowKind.referenceOrder.map fun kind => kind.codedColumns.length) =
      [1, 1, 1, 1, 1, 2, 1, 1, 1, 1] ∧
    (∀ (kind : RowKind) (row : Row kind), row.references.length = kind.codedColumns.length) ∧
    (∀ g, create tables heaps settings = .ok g ↔
      g = { tables, heaps, settings } ∧
        ∀ kind, ∀ row ∈ tables.rows kind, ∀ token ∈ row.references, tables.Holds token) ∧
    (∀ fault, create tables heaps settings = .error fault ↔
      ∃ (kind : RowKind) (row : Row kind) (token : Token) (table : TableKind),
        tables.FirstDangling row token ∧ token.isIn table = true ∧
          fault = .rowOutOfRange table token.row (tables.count table)) ∧
    ∀ g, create tables heaps settings = .ok g → ∀ bodies calls,
      let later := run calls { g with bodies }
      later.tables = tables → LinksResolve later := by
  refine ⟨fun _ => RowKind.mem_referenceOrder_iff, by decide, fun _ => Row.length_references,
    fun _ => create_eq_ok_iff hstrict, fun _ => create_eq_error_iff hstrict, ?_⟩
  intro g hcreate bodies calls later htables
  obtain ⟨rfl, hholds⟩ := (create_eq_ok_iff hstrict).1 hcreate
  have hnew := wellFormed_new tables heaps settings bodies
  refine linksResolve_of_validate (hnew.grown.run calls).toWellFormed ?_
  rw [htables]
  exact Tables.validate_eq_ok_iff.2 hholds

/-- A type definition that is derived from the first one. -/
def derivedType : Row .typeDef := ⟨2, (0, 0, 0, Token.ofRow .typeDef 1, 1, 1, ())⟩

/-- A type and one derived from it, with an override whose body is the given method. -/
def derivedTypes (body : Token) : Tables where
  typeDef := #[⟨1, (0, 0, 0, .null, 1, 1, ())⟩, derivedType]
  methodImpl := #[⟨1, ((2 : UInt32), (body, (.null, ())))⟩]

/-- Without methods, an override must have none; and the base of the derived type is found, also
after a look-up. -/
theorem strict_loading_derivedTypes :
    let token := Token.ofRow .typeDef 2
    Settings.strict.strictReferences = true ∧
    create (derivedTypes (Token.ofRow .methodDef 1)) {} .strict =
      .error (.rowOutOfRange .methodDef 1 0) ∧
    ∃ g, create (derivedTypes .null) {} .strict = .ok g ∧
      outcome (inspect none .typeDefinition token .baseType) (run [.lookup token] g) =
        .ok (some (.member (some (.typeDefinition, Token.ofRow .typeDef 1)))) := by
  intro token
  refine ⟨rfl, rfl, _, rfl, ?_⟩
  obtain ⟨-, -, -, -, -, hlinks⟩ := strict_loading (derivedTypes .null) {} .strict rfl
  have hreads : ∀ call ∈ [GraphCall.lookup token], call.isRead = true := by
    simp [GraphCall.isRead]
  have hnew := wellFormed_new (derivedTypes .null) {} .strict none
  have htables := hnew.tables_of_reads hreads
  have hlater := hlinks _ rfl none [.lookup token] htables
  generalize run _ _ = later at htables hlater ⊢
  have hrow : later.tables.row? MemberKind.typeDefinition.rowKind token.row = some derivedType := by
    have hnumber : token.row = 2 := by decide
    rw [htables, hnumber]
    rfl
  have hlink : linkColumn? .typeDefinition .baseType = some Row.typeDefExtends := rfl
  have htarget : (Token.ofRow .typeDef 1).isIn MemberKind.typeDefinition.table = true := rfl
  exact hlater.link hrow hlink rfl htarget none

end CilMetadata.Graph

import CilMetadata.Proofs.Graph.Laziness

/-!
# What a replaced row leaves behind

The replacement of a row drops what has been kept of the member of the row, and nothing else. Values
of other members stay even where they have been computed from the old row; they are current still
if the table of the row is none of their sources.

* `IsRow kind rid` marks the replaced row, `sameBut_withRow` says that no other row changes;
* `Computes.withRow`: for slots that do not depend on its table the rows give what they gave, and
  `IsCurrent.withRow`: such slots stay current;
* `RowReplaced` lists what holds after the replacement, and `replaceRow_coherent` shows it;
* `enclosingType_stale`: a kept value that is no longer what the rows say.
-/

namespace CilMetadata

/-- The row of a table with a number. -/
def IsRow (kind : RowKind) (rid : Nat) : RowKind → Nat → Prop :=
  fun kind' rid' => kind' = kind ∧ rid' = rid

namespace Tables

variable {tables : Tables} {kind : RowKind}

theorem row?_replaced_self {rid : Nat} {previous : Row kind}
    (h : tables.row? kind rid = some previous) (row : Row kind) :
    (tables.set kind ((tables.rows kind).replace rid row)).row? kind rid =
      some { row with rid } := by
  rw [row?, RowArray.row?] at h
  split_ifs at h with hrid
  have hlt : rid - 1 < (tables.rows kind).size := (Array.getElem?_eq_some_iff.1 h).1
  rw [row?, rows_set_self, RowArray.row?, if_neg hrid, RowArray.replace, if_neg hrid,
    Array.getElem?_setIfInBounds_self_of_lt hlt]

theorem row?_replaced_of_ne (rid : Nat) (row : Row kind) {kind' : RowKind} {rid' : Nat}
    (h : ¬ IsRow kind rid kind' rid') :
    (tables.set kind ((tables.rows kind).replace rid row)).row? kind' rid' =
      tables.row? kind' rid' := by
  by_cases hkind : kind' = kind
  · subst hkind
    have hrid : rid' ≠ rid := fun hrid => h ⟨rfl, hrid⟩
    rw [row?, row?, rows_set_self, RowArray.row?, RowArray.row?, RowArray.replace]
    split_ifs with hzero hzero'
    · rfl
    · rfl
    · rw [Array.getElem?_setIfInBounds_ne (by omega)]
  · rw [row?, row?, rows_set_of_ne _ _ hkind]

theorem count_replaced (rid : Nat) (row : Row kind) (table : TableKind) :
    (tables.set kind ((tables.rows kind).replace rid row)).count table = tables.count table := by
  have hsize : ((tables.rows kind).replace rid row).size = (tables.rows kind).size := by
    rw [RowArray.replace]
    split_ifs
    · rfl
    · exact Array.size_setIfInBounds
  rw [count, count]
  cases RowKind.ofTable? table with
  | none => simp only [external_set]
  | some kind' =>
    by_cases hkind : kind' = kind
    · subst hkind
      simp only [rows_set_self, hsize]
    · simp only [rows_set_of_ne _ _ hkind]

end Tables

namespace Graph

variable {g : Graph} {kind : RowKind}

theorem sameBut_withRow (g : Graph) (rid : Nat) (row : Row kind) :
    SameBut (IsRow kind rid) g (g.withRow rid row) where
  heaps := rfl
  settings := rfl
  bodies := rfl
  count table := (Tables.count_replaced rid row table).symm
  row? _ _ h := (Tables.row?_replaced_of_ne rid row h).symm

theorem kept?_withRow_self (rid : Nat) (row : Row kind) (slot : Slot) :
    (g.withRow rid row).kept? (Token.ofRow kind.table rid) slot = none := by
  simp [kept?, withRow]

theorem kept?_withRow_of_ne (rid : Nat) (row : Row kind) {token : Token} (slot : Slot)
    (h : token ≠ Token.ofRow kind.table rid) :
    (g.withRow rid row).kept? token slot = g.kept? token slot := by
  have hbeq : (Token.ofRow kind.table rid == token) = false := by simpa using h.symm
  simp [kept?, withRow, Std.HashMap.getElem?_erase, hbeq]

/-- The rows give what they gave for a slot when the table of the replaced row is none of its
sources. -/
theorem Computes.withRow {token : Token} {slot : Slot} {value : slot.Value}
    (hcomputes : g.Computes token slot value) {rid : Nat}
    (hother : token ≠ Token.ofRow kind.table rid) (hsources : ∀ member : MemberKind,
      token.isIn member.table = true → kind ∉ slot.sources member) (row : Row kind) :
    (g.withRow rid row).Computes token slot value := by
  obtain ⟨member, step, hin, hfilling, hstep⟩ := hcomputes
  have same := sameBut_withRow g rid row
  have hrow : ¬ IsRow kind rid member.rowKind token.row := by
    rintro ⟨rfl, rfl⟩
    exact hother (Token.ofRow_row hin).symm
  have hsteady : ∀ source ∈ slot.sources member, ∀ rid', ¬ IsRow kind rid source rid' := by
    rintro source hsource rid' ⟨rfl, -⟩
    exact hsources member hin hsource
  refine ⟨member, step, hin, (same.filling? slot hrow).symm.trans hfilling, ?_⟩
  have hagree := (Coherent.simulation EverySlot same).filling hfilling hrow hsteady
    fun _ _ _ _ _ => trivial
  have hbare := coherent_bare EverySlot g
  have hbare' := coherent_bare EverySlot (g.withRow rid row)
  rw [← (hagree ⟨hbare, hbare'⟩).outcome.eq]
  exact hstep

/-- A slot stays current when the rows give what they gave, or when it is dropped. -/
theorem IsCurrent.withRow {token : Token} {slot : Slot} (hcurrent : g.IsCurrent token slot)
    {rid : Nat} {row : Row kind} (hunchanged : token ≠ Token.ofRow kind.table rid →
      ∀ value, g.Computes token slot value → (g.withRow rid row).Computes token slot value) :
    (g.withRow rid row).IsCurrent token slot := by
  intro kept hkept
  by_cases hown : token = Token.ofRow kind.table rid
  · subst hown
    rw [kept?_withRow_self] at hkept
    cases hkept
  · rw [kept?_withRow_of_ne rid row slot hown] at hkept
    exact hunchanged hown _ (hcurrent kept hkept)

/-! ### All that holds afterwards -/

/-- What holds of a graph `g'` in which row `rid` of `g` has been replaced. -/
structure RowReplaced (g : Graph) {kind : RowKind} (rid : Nat) (row : Row kind) (g' : Graph) :
    Prop where
  /-- The row is replaced, and no other one. -/
  row? : g'.tables.row? kind rid = some { row with rid } ∧ SameBut (IsRow kind rid) g g'
  members : g'.members = g.members
  /-- What has been kept of the member of the row is dropped, and nothing else. -/
  kept? : ∀ token slot, g'.kept? token slot =
    if token = Token.ofRow kind.table rid then none else g.kept? token slot
  /-- For what does not depend on the table of the row, the rows give what they gave. -/
  computes : ∀ token (slot : Slot) (value : slot.Value), token ≠ Token.ofRow kind.table rid →
    (∀ member : MemberKind, token.isIn member.table = true → kind ∉ slot.sources member) →
    g.Computes token slot value → g'.Computes token slot value
  /-- A slot is current wherever the rows give what they gave, if the member is another one. -/
  current : ∀ token slot, (token ≠ Token.ofRow kind.table rid →
    ∀ value, g.Computes token slot value → g'.Computes token slot value) → g'.IsCurrent token slot
  /-- Every property of the member of the row is answered from the current rows. -/
  own : ∀ (typeArguments : Option (List TypeSig)) (member : MemberKind) (property : Property),
    member.rowKind = kind →
    outcome (inspect typeArguments member (Token.ofRow kind.table rid) property) g' =
      outcome (inspect typeArguments member (Token.ofRow kind.table rid) property) g'.bare
  /-- So is every property of every member that is answered from slots that are current. -/
  others : ∀ (typeArguments : Option (List TypeSig)) (member : MemberKind) (token : Token)
    (property : Property), token.isIn member.table = true →
    (∀ target slot, Reads g' g'.Computes member token property target slot →
      g'.IsCurrent target slot) →
    outcome (inspect typeArguments member token property) g' =
      outcome (inspect typeArguments member token property) g'.bare

/-- A property is answered from the current rows where all the slots it is answered from are
current. -/
theorem inspect_of_current (hg : WellFormed g) (typeArguments : Option (List TypeSig))
    {member : MemberKind} {token : Token} {property : Property}
    (hin : token.isIn member.table = true)
    (hcurrent : ∀ target slot, Reads g g.Computes member token property target slot →
      g.IsCurrent target slot) :
    outcome (inspect typeArguments member token property) g =
      outcome (inspect typeArguments member token property) g.bare := by
  have hcoherent : Coherent g.IsCurrent g g := ⟨hg, rfl, fun _ _ => id⟩
  have sim := Coherent.simulation g.IsCurrent (SameBut.refl NoRow g)
  have hagree := sim.inspect hin typeArguments property hcurrent
  exact (hagree ⟨hcoherent, coherent_bare _ g⟩).outcome.eq

/-- Replacing an existing row where all that has been kept is current. -/
theorem replaceRow_coherent (hg : Coherent EverySlot g g) {rid : Nat}
    {previous : Row kind} (hrow : g.tables.row? kind rid = some previous) (row : Row kind) :
    outcome (replaceRow rid row) g = .ok (some previous) ∧
      RowReplaced g rid row (after (replaceRow rid row) g) := by
  have hstep := replaceRow_of_some hrow row
  rw [outcome_of_ok hstep, after_of_ok hstep]
  refine ⟨rfl, ?_⟩
  have hwell : WellFormed (g.withRow rid row) :=
    (hg.toWellFormed.grown.of_members _ _ (Nat.le_refl _)).toWellFormed
  have hkept : ∀ token slot, (g.withRow rid row).kept? token slot =
      if token = Token.ofRow kind.table rid then none else g.kept? token slot := by
    intro token slot
    split_ifs with hown
    · subst hown
      exact kept?_withRow_self rid row slot
    · exact kept?_withRow_of_ne rid row slot hown
  refine ⟨⟨Tables.row?_replaced_self hrow row, sameBut_withRow g rid row⟩, rfl, hkept,
    fun _ _ _ hother hsources hcomputes => hcomputes.withRow hother hsources row,
    fun token slot hunchanged => (hg.current token slot trivial).withRow hunchanged, ?_,
    fun typeArguments _ _ _ hin => inspect_of_current hwell typeArguments hin⟩
  have hcurrent : ∀ token slot, (∀ member : MemberKind, token.isIn member.table = true →
      kind ∉ slot.sources member) → (g.withRow rid row).IsCurrent token slot :=
    fun token slot hsources => (hg.current token slot trivial).withRow
      fun hother _ hcomputes => hcomputes.withRow hother hsources row
  rintro typeArguments member property rfl
  refine inspect_of_current hwell typeArguments (Token.isIn_ofRow _ _) fun target slot hreads => ?_
  -- The slots of other members that are read never depend on the table of the member itself.
  cases hreads with
  | own _ =>
    intro kept hfound
    rw [hkept, if_pos rfl] at hfound
    cases hfound
  | around _ hslot =>
    simp only [List.mem_cons, List.not_mem_nil, or_false] at hslot
    obtain rfl | rfl | rfl := hslot
    all_goals exact hcurrent _ _ fun _ _ => by simp [Slot.sources, MemberKind.rowKind]
  | callee _ _ | generic _ =>
    exact hcurrent _ _ fun _ _ => by simp [Slot.sources, MemberKind.rowKind]

/-! ### A value that stays behind -/

/-- The two types after the first one has been asked for the type around it. -/
def nestedGraph : Graph :=
  (({ tables := nestedTables 1 2, heaps := {} } : Graph).withMember .typeDefinition inner).withKept
    inner .enclosingType (some outer)

theorem nestedGraph_coherent : Coherent EverySlot nestedGraph nestedGraph := by
  have hnew : Coherent EverySlot nestedGraph
      { tables := nestedTables 1 2, heaps := {} } := coherent_bare _ nestedGraph
  have hmember : Coherent EverySlot nestedGraph
      (({ tables := nestedTables 1 2, heaps := {} } : Graph).withMember .typeDefinition inner) :=
    hnew.withMember rfl (by simp)
  have hin : inner.isIn MemberKind.typeDefinition.table = true := rfl
  exact hmember.withKept hin rfl rfl

theorem outcome_definition {token : Token} (h : g.Resolves token .typeDefinition)
    (hnone : g.members[token]? = none) :
    outcome (definition (some token)) g = .ok (some token) := by
  have hfind : find .typeDefinition token g = _ :=
    (congrFun (if_pos h.isIn) g).trans (lookup_of_none h hnone)
  change outcome (find .typeDefinition token >>= fun a => pure (a.map Member.token)) g = _
  rw [outcome_bind, outcome_of_ok hfind]
  rfl

/-- When the row that nests the first type in the second one is turned round, the first type is
still answered to be nested in the second one, though no row says so. -/
theorem enclosingType_stale :
    Coherent EverySlot nestedGraph nestedGraph ∧
    nestedGraph.tables.row? .nestedClass 1 = some (nestedRow 1 2) ∧
    outcome (inspect none .typeDefinition inner .enclosingType)
      (after (replaceRow 1 (nestedRow 2 1)) nestedGraph) =
        .ok (some (.definition (some outer))) ∧
    outcome (inspect none .typeDefinition inner .enclosingType)
      (after (replaceRow 1 (nestedRow 2 1)) nestedGraph).bare = .ok (some (.definition none)) := by
  have hrow : nestedGraph.tables.row? .nestedClass 1 = some (nestedRow 1 2) := rfl
  rw [after_of_ok (replaceRow_of_some hrow _)]
  refine ⟨nestedGraph_coherent, hrow, ?_, ?_⟩
  · have hkept : (nestedGraph.withRow 1 (nestedRow 2 1)).kept? inner .enclosingType =
        some ⟨some outer, 1⟩ := by
      rw [kept?_withRow_of_ne 1 (nestedRow 2 1) _ (by decide), nestedGraph, kept?_withKept_self]
      rfl
    have hnone : (nestedGraph.withRow 1 (nestedRow 2 1)).members[outer]? = none := by
      simp [nestedGraph, withRow, withKept, slotOf, withMember, inner, outer]
    rw [outcome_enclosingType (remember_of_some hkept _),
      outcome_definition ⟨rfl, by decide, by decide⟩ hnone]
    rfl
  · have hempty := kept?_bare (nestedGraph.withRow 1 (nestedRow 2 1)) inner .enclosingType
    rw [outcome_enclosingType ((remember_of_none hempty _).trans (keep_of_none hempty _))]
    rfl

/-- When the row of the first type is replaced, both types are answered to have the names that their
rows give them. -/
theorem replaceRow_coherent_renamed :
    let row := Row.ofNames .typeDef fun _ => 1
    let renamed := after (replaceRow 1 row) nestedGraph
    outcome (inspect none .typeDefinition inner .name) renamed =
        outcome (inspect none .typeDefinition inner .name) renamed.bare ∧
      outcome (inspect none .typeDefinition outer .name) renamed =
        outcome (inspect none .typeDefinition outer .name) renamed.bare := by
  intro row renamed
  have hrow : nestedGraph.tables.row? .typeDef 1 = some _ := rfl
  have hreplaced := (replaceRow_coherent nestedGraph_coherent hrow row).2
  refine ⟨hreplaced.own none .typeDefinition .name rfl, ?_⟩
  refine hreplaced.others none .typeDefinition outer .name rfl fun target slot hreads => ?_
  cases hreads with
  | own hslot =>
    obtain rfl := List.mem_singleton.1 hslot
    exact hreplaced.current outer .name fun hother _ =>
      hreplaced.computes outer .name _ hother fun _ _ => by simp [Slot.sources]

end Graph

end CilMetadata

import CilMetadata.Graph.Inspect
import CilMetadata.Proofs.Token

/-!
# What kept values depend on

Every slot of a member is filled by one step, which looks at the row of the member and at the rows
of a few tables. Where two graphs agree on these, so do the relations that are read from tables.

* `filling?` is the step that fills a slot, `relation?` the relation that it reads, if it reads one;
* `Slot.sources` lists the tables that a slot depends on beside the row of its member;
* `bare` is a graph without members and kept values;
* `SameBut changed g h`: the modules of two graphs differ in rows that count as changed, at most;
* `SameBut.relation`: relations whose sources have not changed are the same.
-/

namespace CilMetadata

/-- The kinds of row that a method body depends on, beside the row of the method. -/
def bodySources : List RowKind := [.typeSpec, .methodDef, .memberRef, .standAloneSig, .methodSpec]

/-- The kinds of row that a slot of a member depends on, beside the row of the member. -/
def Slot.sources (kind : MemberKind) : Slot → List RowKind
  | .name | .qualifier | .permissionSet => []
  | .enclosingType | .nestedTypes => [.nestedClass]
  | .fields | .methods => [.typeDef]
  | .events => [.eventMap]
  | .interfaces => [.interfaceImpl]
  | .overrides => [.methodImpl]
  | .genericParams => [.genericParam]
  | .declaringType => if kind = .eventDefinition then [.eventMap] else [.typeDef]
  | .signature => [.typeSpec]
  | .body => bodySources

theorem MemberKind.ofTable?_eq_some {table : TableKind} {kind : MemberKind}
    (h : ofTable? table = some kind) : kind.table = table := by
  simpa using List.find?_some h

theorem MemberKind.table_injective {first second : MemberKind} (h : first.table = second.table) :
    first = second := by
  cases first <;> cases second <;> first | rfl | cases h

@[simp] theorem MemberKind.ofTable?_table (kind : MemberKind) :
    ofTable? kind.table = some kind := by
  cases kind <;> rfl

namespace Graph

/-! ### Steps that fill slots -/

/-- The relation between members that a slot keeps, if it keeps one. -/
def relation? : (kind : MemberKind) → (slot : Slot) → Option (Tables → Token → slot.Value)
  | .typeDefinition, .enclosingType => some enclosingToken?
  | .typeDefinition, .nestedTypes => some nestedTokens
  | .typeDefinition, .fields =>
    some fun tables token => runTokens tables .field (fieldStarts tables) (token.row - 1)
  | .typeDefinition, .methods =>
    some fun tables token => runTokens tables .methodDef (methodStarts tables) (token.row - 1)
  | .typeDefinition, .events => some eventTokens
  | .typeDefinition, .interfaces => some interfaceTokens
  | .typeDefinition, .overrides => some overrideTokens
  | .typeDefinition, .genericParams | .methodDefinition, .genericParams => some genericTokens
  | .fieldDefinition, .declaringType => some fieldOwner?
  | .methodDefinition, .declaringType => some methodOwner?
  | .eventDefinition, .declaringType => some eventOwner?
  | _, _ => none

/-- The bytes of the body of a method, if it has one and they can be found. -/
def methodBytes? (g : Graph) (token : Token) : Option (Array UInt8) := do
  let row ← g.tables.row? .methodDef token.row
  if row.methodRva = 0 then none else g.bodyBytes? row.methodRva

/-- The step that fills a slot of a member, if members of the kind have the slot. -/
def filling? (g : Graph) (kind : MemberKind) (token : Token) :
    (slot : Slot) → Option (GraphM slot.Value)
  | .name =>
    (nameColumn? kind).map fun column => do string (column (← row kind.rowKind token))
  | .qualifier =>
    (namespaceColumn? kind).map fun column => do string (column (← row kind.rowKind token))
  | .signature => (signatureColumn? kind).map fun column => freshSignature kind column token
  | .permissionSet =>
    if kind = .securityDeclaration then
      some do blob (← row .declSecurity token).permissionSet
    else none
  | .body => if kind = .methodDefinition then (g.methodBytes? token).map readBody else none
  | slot => (relation? kind slot).map fun relation => do return relation (← get).tables token

theorem filling?_of_relation? {g : Graph} {kind : MemberKind} {token : Token} {slot : Slot}
    {relation : Tables → Token → slot.Value} (h : relation? kind slot = some relation) :
    filling? g kind token slot = some do return relation (← get).tables token := by
  cases slot
  case name | qualifier | signature | permissionSet | body => cases kind <;> cases h
  all_goals simp only [filling?, h, Option.map_some]

/-! ### Graphs on similar modules -/

/-- A graph without members and kept values. -/
def bare (g : Graph) : Graph := { g with members := {}, slots := {}, nextObject := 0 }

theorem kept?_bare (g : Graph) (token : Token) (slot : Slot) :
    g.bare.kept? token slot = none := by
  simp [kept?, bare]

theorem filling?_bare (g : Graph) (kind : MemberKind) (token : Token) (slot : Slot) :
    g.bare.filling? kind token slot = g.filling? kind token slot := by
  cases slot <;> rfl

theorem filling?_of_bare {g base : Graph} (h : g.bare = base.bare) (kind : MemberKind)
    (token : Token) (slot : Slot) :
    g.filling? kind token slot = base.filling? kind token slot := by
  rw [← filling?_bare g, h, filling?_bare]

/-- The modules of two graphs agree but for the rows that count as changed. -/
structure SameBut (changed : RowKind → Nat → Prop) (g h : Graph) : Prop where
  heaps : g.heaps = h.heaps
  settings : g.settings = h.settings
  bodies : g.bodies = h.bodies
  count : ∀ table, g.tables.count table = h.tables.count table
  row? : ∀ kind rid, ¬ changed kind rid → g.tables.row? kind rid = h.tables.row? kind rid

/-- No row has changed. -/
abbrev NoRow : RowKind → Nat → Prop := fun _ _ => False

namespace SameBut

variable {changed : RowKind → Nat → Prop} {g h base base' : Graph}

theorem refl (changed : RowKind → Nat → Prop) (g : Graph) : SameBut changed g g :=
  ⟨rfl, rfl, rfl, fun _ => rfl, fun _ _ _ => rfl⟩

theorem bare (same : SameBut changed g h) : SameBut changed g.bare h.bare :=
  ⟨same.heaps, same.settings, same.bodies, same.count, same.row?⟩

/-- Members and kept values do not matter. -/
theorem of_bare (same : SameBut changed base base') (hg : g.bare = base.bare)
    (hh : h.bare = base'.bare) : SameBut changed g h := by
  have hsame : SameBut changed g.bare h.bare := by
    rw [hg, hh]
    exact same.bare
  exact ⟨hsame.heaps, hsame.settings, hsame.bodies, hsame.count, hsame.row?⟩

theorem rows (same : SameBut changed g h) {kind : RowKind} (hrows : ∀ rid, ¬ changed kind rid) :
    g.tables.rows kind = h.tables.rows kind := by
  apply Array.ext_getElem?
  intro i
  have hrow := same.row? kind (i + 1) (hrows (i + 1))
  simpa [Tables.row?, RowArray.row?] using hrow

theorem contains (same : SameBut changed g h) (token : Token) :
    g.tables.contains token = h.tables.contains token := by
  simp only [Tables.contains, same.count]

theorem resolver (same : SameBut changed g h) (hspec : ∀ rid, ¬ changed .typeSpec rid) :
    g.resolver = h.resolver := by
  have htype : g.isType = h.isType := by
    funext token
    simp only [isType, same.contains]
  have hblob : g.specBlob? = h.specBlob? := by
    funext token
    simp only [specBlob?, Tables.rowOf?, same.row? _ _ (hspec _), same.heaps]
  simp only [Graph.resolver, htype, hblob]

theorem bodyBytes? (same : SameBut changed g h) (address : UInt32) :
    g.bodyBytes? address = h.bodyBytes? address := by
  simp only [Graph.bodyBytes?, same.bodies]

theorem methodBytes? (same : SameBut changed g h) {token : Token}
    (hrow : ¬ changed .methodDef token.row) : g.methodBytes? token = h.methodBytes? token := by
  simp only [Graph.methodBytes?, same.row? _ _ hrow, same.bodyBytes?]

/-- The same step fills a slot of a member whose row has not changed. -/
theorem filling? (same : SameBut changed g h) {kind : MemberKind} {token : Token} (slot : Slot)
    (hrow : ¬ changed kind.rowKind token.row) :
    g.filling? kind token slot = h.filling? kind token slot := by
  cases slot
  case body =>
    simp only [Graph.filling?]
    split_ifs with hkind
    · subst hkind
      rw [same.methodBytes? hrow]
    · rfl
  all_goals rfl

/-- A relation is the same on tables whose sources have not changed. -/
theorem relation (same : SameBut changed g h) {kind : MemberKind} {slot : Slot}
    {relation : Tables → Token → slot.Value} (hrelation : relation? kind slot = some relation)
    (hsources : ∀ source ∈ slot.sources kind, ∀ rid, ¬ changed source rid) (token : Token) :
    relation g.tables token = relation h.tables token := by
  have htable : ∀ source ∈ slot.sources kind, g.tables.rows source = h.tables.rows source :=
    fun source hsource => same.rows (hsources source hsource)
  unfold relation? at hrelation
  split at hrelation
  all_goals cases hrelation
  all_goals simp only [Slot.sources, reduceCtorEq, if_true, if_false, List.mem_singleton, forall_eq,
    Tables.rows] at htable
  all_goals simp only [enclosingToken?, nestedTokens, runTokens, fieldStarts, methodStarts,
    eventTokens, eventStarts, interfaceTokens, overrideTokens, genericTokens, fieldOwner?,
    methodOwner?, eventOwner?, runOwner?, Tables.row?, Tables.rows, htable, same.count]

end SameBut

end Graph

end CilMetadata

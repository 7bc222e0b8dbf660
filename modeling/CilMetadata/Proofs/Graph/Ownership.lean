import CilMetadata.Proofs.Graph.Answers
import CilMetadata.Proofs.Graph.Bisection
import CilMetadata.Proofs.Graph.Replacement
import CilMetadata.Proofs.Bytes.Following

/-!
# Runs divide the members among the types

A type owns the members of a run of rows, and two algorithms find out about it: the members of a
type are a clamped range of rows, and the type of a member comes from a halving search for the last
run that starts up to it. On starts that do not descend they agree, however empty, equal or far out
the runs are.

* `Runs.mem_rows_iff` and `Runs.owner?_eq_some_iff` are what the range and the search give, and
  `Runs.owner?_isSome_iff` says which rows have an owner;
* `inspect_of_keepsCurrent`: a relation that is kept as the rows have it is answered from the rows;
* `Divides` lists what it means that the members of a kind are divided among the types, and
  `Assigned.divides` shows it where each run is `Assigned` to one type;
* `members_divided`: where such relations are current, fields, methods and events are divided;
* `members_misdivided`: graphs that are not, though their list column does not descend.
-/

namespace CilMetadata

/-! ### Runs -/

/-- Halving counts the elements for which the condition holds. -/
theorem lt_partitionPoint_iff {α : Type} {p : α → Bool} {xs : Array α}
    (down : ∀ i j : Nat, i ≤ j → (xs[j]?).any p = true → (xs[i]?).any p = true) (i : Nat) :
    i < partitionPoint p xs ↔ (xs[i]?).any p = true := by
  have hbehind : ∀ i : Nat, 0 + xs.size ≤ i → (xs[i]?).any p = false := by
    intro i hi
    rw [Array.getElem?_eq_none (by omega)]
    rfl
  obtain ⟨hholds, hlast⟩ := bisect_spec down hbehind
  unfold partitionPoint
  dsimp only
  generalize bisect p xs 0 xs.size = last at hholds hlast
  by_cases h : (xs[last]?).any p = true
  · rw [if_pos h, Nat.lt_succ_iff]
    exact ⟨fun hi => down i last hi h, hlast i⟩
  · rw [if_neg h]
    have hstart := hholds.resolve_right h
    constructor
    · omega
    · intro hi
      have hle := hlast i hi
      obtain rfl : i = last := by omega
      exact absurd hi h

namespace Runs

variable {starts : Array Nat} {index row stop owner : Nat}

/-- A run holds the rows from its start on, up to the start of the next one. -/
theorem mem_rows_iff : row ∈ rows starts index stop ↔
    1 ≤ row ∧ row < stop ∧ (∃ start, starts[index]? = some start ∧ start ≤ row) ∧
      ∀ next, starts[index + 1]? = some next → row < next := by
  simp only [rows, range, clamp, List.mem_range'_1]
  cases starts[index]? <;> cases starts[index + 1]? <;> simp <;> omega

theorem lt_size (h : row ∈ rows starts index stop) : index < starts.size := by
  obtain ⟨-, -, ⟨start, hstart, -⟩, -⟩ := mem_rows_iff.1 h
  exact (Array.getElem?_eq_some_iff.1 hstart).1

section Ascending

variable (hstarts : starts.toList.Pairwise (· ≤ ·))
include hstarts

/-- Where a run starts up to a row, so do all runs before it. -/
theorem startsBy_mono {i j : Nat} (hij : i ≤ j)
    (h : (starts[j]?).any (fun start => decide (start ≤ row)) = true) :
    (starts[i]?).any (fun start => decide (start ≤ row)) = true := by
  obtain ⟨hj, hle⟩ := any_getElem?_iff.1 h
  have hi : i < starts.size := by omega
  refine any_getElem?_iff.2 ⟨hi, ?_⟩
  rcases Nat.lt_or_eq_of_le hij with hlt | rfl
  · have hmono := List.pairwise_iff_getElem.1 hstarts i j (by simpa) (by simpa) hlt
    simp only [Array.getElem_toList, decide_eq_true_eq] at hmono hle ⊢
    omega
  · exact hle

theorem lt_startsUpTo_iff (row i : Nat) :
    i < partitionPoint (fun start => decide (start ≤ row)) starts ↔
      ∃ start, starts[i]? = some start ∧ start ≤ row := by
  rw [lt_partitionPoint_iff fun i j => startsBy_mono hstarts]
  simp [Option.any_eq_true]

/-- The owner of a row is the one in whose run it lies. -/
theorem owner?_eq_some_iff :
    owner? starts row stop = some owner ↔
      ∃ index, owner = index + 1 ∧ row ∈ rows starts index stop := by
  have hcount := lt_startsUpTo_iff hstarts row
  simp only [mem_rows_iff]
  unfold owner?
  generalize partitionPoint _ starts = count at hcount ⊢
  split_ifs with hrow
  · simp only [false_iff]
    rintro ⟨index, -, hpos, hlt, -⟩
    omega
  cases count with
  | zero =>
    simp only [reduceCtorEq, false_iff]
    rintro ⟨index, -, -, -, hstart, -⟩
    exact absurd ((hcount index).2 hstart) (Nat.not_lt_zero index)
  | succ count =>
    simp only [Option.some.injEq]
    constructor
    · rintro rfl
      refine ⟨count, rfl, by omega, by omega, (hcount count).1 (Nat.lt_succ_self _), ?_⟩
      intro next hnext
      by_contra hle
      have := (hcount (count + 1)).2 ⟨next, hnext, by omega⟩
      omega
    · rintro ⟨index, rfl, -, -, hstart, hnext⟩
      have hlt := (hcount index).2 hstart
      have hge : ¬ index + 1 < count + 1 := by
        intro h
        obtain ⟨next, hget, hle⟩ := (hcount (index + 1)).1 h
        exact absurd (hnext next hget) (by omega)
      omega

/-- A row has an owner exactly when it does not lie before the first run. -/
theorem owner?_isSome_iff :
    (owner? starts row stop).isSome = true ↔
      1 ≤ row ∧ row < stop ∧ ∃ start, starts[0]? = some start ∧ start ≤ row := by
  have hcount := lt_startsUpTo_iff hstarts row 0
  rw [← hcount]
  unfold owner?
  generalize partitionPoint _ starts = count
  split_ifs with hrow
  · simp only [Option.isSome_none, Bool.false_eq_true, false_iff]
    omega
  · cases count with
    | zero => simp
    | succ count => simp; omega

end Ascending

end Runs

namespace Graph

variable {g : Graph} {tables : Tables} {table : TableKind} {starts : Array Nat} {index : Nat}
variable {token type : Token} {kind : MemberKind} {property : Property}

/-! ### Current answers -/

/-- What a graph keeps in a slot is current, whatever member it is kept of. -/
def KeepsCurrent (g : Graph) (slot : Slot) : Prop := ∀ token, g.IsCurrent token slot

theorem Coherent.keepsCurrent (hg : Coherent EverySlot g g) (slot : Slot) : g.KeepsCurrent slot :=
  fun token => hg.current token slot trivial

/-- A relation is answered from the current rows when its slot is current, whatever else is kept. -/
theorem inspect_of_keepsCurrent (hg : WellFormed g) {slot : Slot}
    {relation : Tables → Token → slot.Value} (hrelation : relation? kind slot = some relation)
    (hown : ownSlots property = [slot]) (hcurrent : g.KeepsCurrent slot)
    (hin : token.isIn kind.table = true) :
    outcome (inspect none kind token property) g =
      outcome (inspect none kind token property) g.bare := by
  refine inspect_of_current hg none hin fun target slot' hreads => ?_
  cases hreads with
  | own hslot =>
    rw [hown, List.mem_singleton] at hslot
    exact hslot ▸ hcurrent token
  | around _ _ => cases hown
  | callee _ _ =>
    cases hown
    cases hrelation
  | generic _ =>
    cases hown
    cases hrelation

/-- The type around a member is then the one that the rule of its kind finds in the rows. -/
theorem declaringType_of_keepsCurrent (hg : WellFormed g) {owner? : Tables → Token → Option Token}
    (hrelation : relation? kind .declaringType = some owner?)
    (hcurrent : g.KeepsCurrent .declaringType) (hin : token.isIn kind.table = true) :
    outcome (inspect none kind token .declaringType) g = .ok (some (.definition
      ((owner? g.tables token).filter (g.tables.names .typeDefinition)))) := by
  rw [inspect_of_keepsCurrent hg hrelation rfl hcurrent hin]
  exact (coherent_bare EverySlot g.bare).declaringType none hrelation hin

/-! ### Tokens of runs -/

/-- While the rows of a table have different tokens, a run holds the tokens of its rows. -/
theorem mem_runTokens_iff (hcount : tables.count table < 2 ^ 24) :
    token ∈ runTokens tables table starts index ↔
      token.isIn table = true ∧ token.row ∈ Runs.rows starts index (tables.count table + 1) := by
  unfold runTokens tokensOf
  rw [List.mem_map]
  constructor
  · rintro ⟨row, hrow, rfl⟩
    have hlt : row < tables.count table + 1 := (Runs.mem_rows_iff.1 hrow).2.1
    rw [Token.row_ofRow, Nat.mod_eq_of_lt (by omega)]
    exact ⟨Token.isIn_ofRow table row, hrow⟩
  · rintro ⟨hin, hrow⟩
    exact ⟨token.row, hrow, Token.ofRow_row hin⟩

/-! ### Members divided among types -/

/-- The members of a kind are divided among the types: `members` are the tokens that a property of a
type answers, and `owner` is the type that declares a member. -/
structure Divides (g : Graph) (property : Property) (kind : MemberKind) (starts : Array Nat)
    (members : Token → List Token) (owner : Token → Option Token) : Prop where
  members_answered : ∀ type, g.Resolves type .typeDefinition →
    outcome (inspect none .typeDefinition type property) g = .ok (some (.tokens (members type)))
  owner_answered : ∀ member, g.Resolves member kind →
    outcome (inspect none kind member .declaringType) g = .ok (some (.definition (owner member)))
  /-- Both directions agree. -/
  mem_iff : ∀ type member, g.Resolves type .typeDefinition → g.Resolves member kind →
    (member ∈ members type ↔ owner member = some type)
  /-- Types own existing members, and members are owned by existing types. -/
  member_resolves : ∀ type, g.Resolves type .typeDefinition → ∀ member ∈ members type,
    g.Resolves member kind
  owner_resolves : ∀ member, g.Resolves member kind → ∀ type, owner member = some type →
    g.Resolves type .typeDefinition
  disjoint : ∀ type other, g.Resolves type .typeDefinition → g.Resolves other .typeDefinition →
    type ≠ other → (members type).Disjoint (members other)
  /-- A member has an owner exactly when it does not lie before the first start. -/
  owned_iff : ∀ member, g.Resolves member kind →
    ((owner member).isSome = true ↔ ∃ start, starts[0]? = some start ∧ start ≤ member.row)

/-! ### Runs that belong to types -/

/-- The members of a type when it has the run at a place, if it has one. -/
def placedMembers (tables : Tables) (table : TableKind) (starts : Array Nat)
    (place : Token → Option Nat) (type : Token) : List Token :=
  (place type).elim [] (runTokens tables table starts)

/-- The type that a member is in when the runs belong to types. -/
def placedOwner (tables : Tables) (table : TableKind) (starts : Array Nat)
    (typeAt : Nat → Option Token) (member : Token) : Option Token :=
  (runOwner? tables table starts member).bind fun owner => typeAt (owner - 1)

/-- Each run belongs to an existing type, and to no other one. -/
structure Assigned (g : Graph) (starts : Array Nat) (place : Token → Option Nat)
    (typeAt : Nat → Option Token) : Prop where
  exists_type : ∀ index < starts.size, ∃ type, typeAt index = some type ∧
    g.Resolves type .typeDefinition
  place_iff : ∀ type index, g.Resolves type .typeDefinition → index < starts.size →
    (place type = some index ↔ typeAt index = some type)

theorem mem_placedMembers_iff {place : Token → Option Nat} :
    token ∈ placedMembers tables table starts place type ↔
      ∃ index, place type = some index ∧ token ∈ runTokens tables table starts index := by
  unfold placedMembers
  cases place type <;> simp

/-- The members of a type exist. -/
theorem resolves_of_mem_placedMembers (hcount : g.tables.count kind.table < 2 ^ 24)
    {place : Token → Option Nat} (h : token ∈ placedMembers g.tables kind.table starts place type) :
    g.Resolves token kind := by
  obtain ⟨index, -, hrun⟩ := mem_placedMembers_iff.1 h
  obtain ⟨hin, hrow⟩ := (mem_runTokens_iff hcount).1 hrun
  obtain ⟨hpos, hlt, -⟩ := Runs.mem_rows_iff.1 hrow
  exact ⟨hin, hpos, Nat.le_of_lt_succ hlt⟩

/-- So looking up what exists loses no member. -/
theorem filter_placedMembers (hcount : g.tables.count kind.table < 2 ^ 24) (starts : Array Nat)
    (place : Token → Option Nat) (type : Token) :
    (placedMembers g.tables kind.table starts place type).filter (g.tables.names kind) =
      placedMembers g.tables kind.table starts place type :=
  List.filter_eq_self.2 fun _ htoken => names_iff.2 (resolves_of_mem_placedMembers hcount htoken)

theorem placedOwner_eq_some_iff (hstarts : starts.toList.Pairwise (· ≤ ·))
    {typeAt : Nat → Option Token} :
    placedOwner tables table starts typeAt token = some type ↔
      ∃ index, token.row ∈ Runs.rows starts index (tables.count table + 1) ∧
        typeAt index = some type := by
  simp only [placedOwner, Option.bind_eq_some_iff, runOwner?, Runs.owner?_eq_some_iff hstarts]
  constructor
  · rintro ⟨-, ⟨index, rfl, hrow⟩, htype⟩
    exact ⟨index, hrow, htype⟩
  · rintro ⟨index, hrow, htype⟩
    exact ⟨index + 1, ⟨index, rfl, hrow⟩, htype⟩

namespace Assigned

variable {place : Token → Option Nat} {typeAt : Nat → Option Token} {member : Token}

/-- A member belongs to the type in whose run it lies. -/
theorem mem_iff (h : Assigned g starts place typeAt) (hstarts : starts.toList.Pairwise (· ≤ ·))
    (hcount : g.tables.count kind.table < 2 ^ 24) (htype : g.Resolves type .typeDefinition)
    (hmember : g.Resolves member kind) :
    member ∈ placedMembers g.tables kind.table starts place type ↔
      placedOwner g.tables kind.table starts typeAt member = some type := by
  rw [mem_placedMembers_iff, placedOwner_eq_some_iff hstarts]
  constructor
  · rintro ⟨index, hindex, hrun⟩
    have hrow := ((mem_runTokens_iff hcount).1 hrun).2
    exact ⟨index, hrow, (h.place_iff type index htype (Runs.lt_size hrow)).1 hindex⟩
  · rintro ⟨index, hrow, hindex⟩
    exact ⟨index, (h.place_iff type index htype (Runs.lt_size hrow)).2 hindex,
      (mem_runTokens_iff hcount).2 ⟨hmember.isIn, hrow⟩⟩

/-- The owner of a member exists. -/
theorem resolves (h : Assigned g starts place typeAt) (hstarts : starts.toList.Pairwise (· ≤ ·))
    (howner : placedOwner g.tables table starts typeAt member = some type) :
    g.Resolves type .typeDefinition := by
  obtain ⟨index, hrow, hindex⟩ := (placedOwner_eq_some_iff hstarts).1 howner
  obtain ⟨found, hfound, hresolves⟩ := h.exists_type index (Runs.lt_size hrow)
  obtain rfl := Option.some.inj (hfound.symm.trans hindex)
  exact hresolves

/-- So looking up what exists loses no owner either. -/
theorem filter_placedOwner (h : Assigned g starts place typeAt)
    (hstarts : starts.toList.Pairwise (· ≤ ·)) (table : TableKind) (member : Token) :
    (placedOwner g.tables table starts typeAt member).filter (g.tables.names .typeDefinition) =
      placedOwner g.tables table starts typeAt member := by
  refine Option.ext fun type => Option.filter_eq_some_iff.trans ⟨And.left, fun howner => ?_⟩
  exact ⟨howner, names_iff.2 (h.resolves hstarts howner)⟩

/-- A member has an owner exactly when it does not lie before the first run. -/
theorem isSome_iff (h : Assigned g starts place typeAt)
    (hstarts : starts.toList.Pairwise (· ≤ ·)) (hmember : g.Resolves member kind) :
    (placedOwner g.tables kind.table starts typeAt member).isSome = true ↔
      ∃ start, starts[0]? = some start ∧ start ≤ member.row := by
  have hle := hmember.le
  have hbound : (runOwner? g.tables kind.table starts member).isSome = true ↔
      ∃ start, starts[0]? = some start ∧ start ≤ member.row := by
    rw [runOwner?, Runs.owner?_isSome_iff hstarts]
    exact ⟨fun h => h.2.2, fun h => ⟨hmember.pos, by omega, h⟩⟩
  rw [← hbound]
  simp only [placedOwner, Option.isSome_iff_exists, Option.bind_eq_some_iff]
  constructor
  · rintro ⟨type, number, hnumber, -⟩
    exact ⟨number, hnumber⟩
  · rintro ⟨number, hnumber⟩
    obtain ⟨index, rfl, hrow⟩ := (Runs.owner?_eq_some_iff hstarts).1 hnumber
    obtain ⟨type, htype, -⟩ := h.exists_type index (Runs.lt_size hrow)
    exact ⟨type, _, hnumber, htype⟩

/-- Runs that belong to types divide the members among them. -/
theorem divides (h : Assigned g starts place typeAt) (hstarts : starts.toList.Pairwise (· ≤ ·))
    (hcount : g.tables.count kind.table < 2 ^ 24)
    (hmembers : ∀ type, g.Resolves type .typeDefinition →
      outcome (inspect none .typeDefinition type property) g =
        .ok (some (.tokens (placedMembers g.tables kind.table starts place type))))
    (howner : ∀ member, g.Resolves member kind →
      outcome (inspect none kind member .declaringType) g =
        .ok (some (.definition (placedOwner g.tables kind.table starts typeAt member)))) :
    ∃ members owner, Divides g property kind starts members owner := by
  have hresolves : ∀ type, ∀ member ∈ placedMembers g.tables kind.table starts place type,
      g.Resolves member kind := fun type member => resolves_of_mem_placedMembers hcount
  refine ⟨_, _, hmembers, howner, fun type member => h.mem_iff hstarts hcount,
    fun type _ => hresolves type, fun member _ type => h.resolves hstarts, ?_,
    fun member => h.isSome_iff hstarts⟩
  intro type other htype hother hne member hmember hmember'
  have hmember_resolves := hresolves type member hmember
  have howned := (h.mem_iff hstarts hcount htype hmember_resolves).1 hmember
  have howned' := (h.mem_iff hstarts hcount hother hmember_resolves).1 hmember'
  exact hne (Option.some.inj (howned.symm.trans howned'))

end Assigned

/-! ### Fields and methods -/

theorem resolves_ofRow {number : Nat} (htypes : g.tables.count .typeDef < 2 ^ 24)
    (hpos : 1 ≤ number) (hle : number ≤ g.tables.count .typeDef) :
    g.Resolves (Token.ofRow .typeDef number) .typeDefinition := by
  have hrow : (Token.ofRow .typeDef number).row = number := by
    rw [Token.row_ofRow, Nat.mod_eq_of_lt (by omega)]
  exact ⟨Token.isIn_ofRow .typeDef number, by rw [hrow]; exact hpos, by rw [hrow]; exact hle⟩

/-- The runs of a column of the types belong to the types in order. -/
theorem assigned_typeColumn (htypes : g.tables.count .typeDef < 2 ^ 24)
    (hsize : starts.size = g.tables.count .typeDef) :
    Assigned g starts (fun type => some (type.row - 1))
      fun index => some (Token.ofRow .typeDef (index + 1)) where
  exists_type index hindex := ⟨_, rfl, resolves_ofRow htypes (by omega) (by omega)⟩
  place_iff type index htype hindex := by
    have hpos := htype.pos
    simp only [Option.some.injEq]
    constructor
    · intro h
      rw [show index + 1 = type.row by omega]
      exact Token.ofRow_row htype.isIn
    · rintro rfl
      rw [Token.row_ofRow, Nat.mod_eq_of_lt (by omega)]
      rfl

theorem placedOwner_typeColumn (hstarts : starts.toList.Pairwise (· ≤ ·)) (member : Token) :
    placedOwner tables table starts (fun index => some (Token.ofRow .typeDef (index + 1))) member =
      (runOwner? tables table starts member).map (Token.ofRow .typeDef) := by
  unfold placedOwner
  cases hnumber : runOwner? tables table starts member with
  | none => rfl
  | some number =>
    obtain ⟨index, rfl, -⟩ := (Runs.owner?_eq_some_iff hstarts).1 hnumber
    rfl

/-- Runs that start in a column of the types divide members among the types. -/
theorem divides_of_typeColumn (htypes : g.tables.count .typeDef < 2 ^ 24)
    (hstarts : starts.toList.Pairwise (· ≤ ·)) (hsize : starts.size = g.tables.count .typeDef)
    (hcount : g.tables.count kind.table < 2 ^ 24)
    (hmembers : ∀ type, g.Resolves type .typeDefinition →
      outcome (inspect none .typeDefinition type property) g =
        .ok (some (.tokens (runTokens g.tables kind.table starts (type.row - 1)))))
    (howner : ∀ member, g.Resolves member kind →
      outcome (inspect none kind member .declaringType) g = .ok (some (.definition
        (((runOwner? g.tables kind.table starts member).map (Token.ofRow .typeDef)).filter
          (g.tables.names .typeDefinition))))) :
    ∃ members owner, Divides g property kind starts members owner := by
  have hassigned := assigned_typeColumn htypes hsize
  refine hassigned.divides hstarts hcount hmembers fun member hmember => ?_
  rw [howner member hmember, ← placedOwner_typeColumn hstarts, hassigned.filter_placedOwner hstarts]

/-! ### Events -/

/-- The entries of the event map are about existing types, and no two are about one type. -/
structure EventMapFits (tables : Tables) : Prop where
  distinct : (tables.eventMap.toList.map Row.eventMapParent).Nodup
  exists_parent : ∀ row ∈ tables.eventMap.toList,
    1 ≤ row.eventMapParent.toNat ∧ row.eventMapParent.toNat ≤ tables.count .typeDef

/-- The entry about a type, if there is one. -/
def entryAbout (tables : Tables) (type : Token) : Option Nat :=
  tables.eventMap.findIdx? fun row => row.eventMapParent.toNat == type.row

/-- The type that an entry is about. -/
def parentAt (tables : Tables) (index : Nat) : Option Token :=
  tables.eventMap[index]?.map fun row => Token.ofRow .typeDef row.eventMapParent.toNat

theorem exists_parentAt (htypes : g.tables.count .typeDef < 2 ^ 24) (hmap : EventMapFits g.tables)
    {index : Nat} (hindex : index < g.tables.eventMap.size) :
    ∃ type, parentAt g.tables index = some type ∧ g.Resolves type .typeDefinition := by
  obtain ⟨hpos, hle⟩ := hmap.exists_parent g.tables.eventMap[index] (by simp)
  refine ⟨_, ?_, resolves_ofRow htypes hpos hle⟩
  rw [parentAt, Array.getElem?_eq_getElem hindex]
  rfl

/-- The first entry about a type is the only one. -/
theorem entryAbout_eq_some_iff (htypes : g.tables.count .typeDef < 2 ^ 24)
    (hmap : EventMapFits g.tables) (htype : g.Resolves type .typeDefinition) {index : Nat}
    (hindex : index < g.tables.eventMap.size) :
    entryAbout g.tables type = some index ↔ parentAt g.tables index = some type := by
  have hparent : parentAt g.tables index = some type ↔
      g.tables.eventMap[index].eventMapParent.toNat = type.row := by
    obtain ⟨-, hle⟩ := hmap.exists_parent g.tables.eventMap[index] (by simp)
    rw [parentAt, Array.getElem?_eq_getElem hindex, Option.map_some, Option.some.injEq]
    constructor
    · rintro rfl
      rw [Token.row_ofRow, Nat.mod_eq_of_lt (by omega)]
    · intro h
      rw [h]
      exact Token.ofRow_row htype.isIn
  rw [hparent, entryAbout, Array.findIdx?_eq_some_iff_getElem]
  simp only [beq_iff_eq]
  constructor
  · rintro ⟨_, h, _⟩
    exact h
  · intro h
    refine ⟨hindex, h, fun j hj hother => ?_⟩
    have hne := List.pairwise_iff_getElem.1 hmap.distinct j index (by simp; omega) (by simpa) hj
    refine hne ?_
    simp only [List.getElem_map, Array.getElem_toList]
    exact UInt32.toNat_inj.1 (hother.trans h.symm)

theorem eventOwner?_eq (hstarts : (eventStarts tables).toList.Pairwise (· ≤ ·)) (member : Token) :
    eventOwner? tables member =
      placedOwner tables .event (eventStarts tables) (parentAt tables) member := by
  unfold eventOwner? placedOwner
  cases hnumber : runOwner? tables .event (eventStarts tables) member with
  | none => rfl
  | some number =>
    obtain ⟨index, rfl, -⟩ := (Runs.owner?_eq_some_iff hstarts).1 hnumber
    change (tables.eventMap[index]? >>= fun row => _) = tables.eventMap[index]?.map _
    cases tables.eventMap[index]? <;> rfl

theorem eventTokens_eq (tables : Tables) (type : Token) :
    eventTokens tables type =
      placedMembers tables .event (eventStarts tables) (entryAbout tables) type := by
  unfold eventTokens placedMembers entryAbout
  cases tables.eventMap.findIdx? fun row => row.eventMapParent.toNat == type.row <;> rfl

theorem divides_events (hg : WellFormed g) (htypes : g.tables.count .typeDef < 2 ^ 24)
    (hstarts : (eventStarts g.tables).toList.Pairwise (· ≤ ·))
    (hcount : g.tables.count .event < 2 ^ 24) (hmap : EventMapFits g.tables)
    (hevents : g.KeepsCurrent .events) (howners : g.KeepsCurrent .declaringType) :
    ∃ members owner,
      Divides g .events .eventDefinition (eventStarts g.tables) members owner := by
  have hsize : (eventStarts g.tables).size = g.tables.eventMap.size := Array.size_map
  have hassigned : Assigned g (eventStarts g.tables) (entryAbout g.tables) (parentAt g.tables) :=
    ⟨fun index hindex => exists_parentAt htypes hmap (hsize ▸ hindex),
      fun type index htype hindex => entryAbout_eq_some_iff htypes hmap htype (hsize ▸ hindex)⟩
  refine hassigned.divides hstarts hcount (fun type htype => ?_) fun member hmember => ?_
  · have hall : (placedMembers g.tables .event (eventStarts g.tables) (entryAbout g.tables)
        type).filter (g.tables.names .eventDefinition) = _ := filter_placedMembers hcount _ _ type
    have hrelation : relation? .typeDefinition .events = some eventTokens := rfl
    rw [inspect_of_keepsCurrent hg hrelation rfl hevents htype.isIn,
      (coherent_bare EverySlot g.bare).events none htype.isIn, eventTokens_eq]
    exact congrArg (fun tokens => Except.ok (some (Answer.tokens tokens))) hall
  · rw [declaringType_of_keepsCurrent hg rfl howners hmember.isIn, eventOwner?_eq hstarts,
      hassigned.filter_placedOwner hstarts]
    rfl

/-! ### All members -/

/-- Where the kept declaring types are current, so are the kept members of types and tokens tell all
rows apart, fields and methods are divided among the types by list columns that do not descend, and
events by an event map that does not descend and is about existing types, each at most once. -/
theorem members_divided (hg : WellFormed g) (howners : g.KeepsCurrent .declaringType)
    (htypes : g.tables.count .typeDef < 2 ^ 24) :
    ((fieldStarts g.tables).toList.Pairwise (· ≤ ·) → g.tables.count .field < 2 ^ 24 →
      g.KeepsCurrent .fields → ∃ members owner,
        Divides g .fieldTokens .fieldDefinition (fieldStarts g.tables) members owner) ∧
    ((methodStarts g.tables).toList.Pairwise (· ≤ ·) → g.tables.count .methodDef < 2 ^ 24 →
      g.KeepsCurrent .methods → ∃ members owner,
        Divides g .methodTokens .methodDefinition (methodStarts g.tables) members owner) ∧
    ((eventStarts g.tables).toList.Pairwise (· ≤ ·) → g.tables.count .event < 2 ^ 24 →
      EventMapFits g.tables → g.KeepsCurrent .events → ∃ members owner,
        Divides g .events .eventDefinition (eventStarts g.tables) members owner) := by
  have hbare : Coherent EverySlot g.bare g.bare := coherent_bare _ g.bare
  refine ⟨fun hstarts hcount hcurrent => ?_, fun hstarts hcount hcurrent => ?_,
    fun hstarts hcount hmap hcurrent => ?_⟩
  · have hfields : relation? .typeDefinition .fields = some _ := rfl
    refine divides_of_typeColumn htypes hstarts Array.size_map hcount (fun type htype => ?_)
      fun member hmember => declaringType_of_keepsCurrent hg rfl howners hmember.isIn
    rw [inspect_of_keepsCurrent hg hfields rfl hcurrent htype.isIn]
    exact hbare.fieldTokens none htype.isIn
  · have hmethods : relation? .typeDefinition .methods = some _ := rfl
    refine divides_of_typeColumn htypes hstarts Array.size_map hcount (fun type htype => ?_)
      fun member hmember => declaringType_of_keepsCurrent hg rfl howners hmember.isIn
    rw [inspect_of_keepsCurrent hg hmethods rfl hcurrent htype.isIn]
    exact hbare.methodTokens none htype.isIn
  · exact divides_events hg htypes hstarts hcount hmap hcurrent howners

/-- A type whose fields start at a row. -/
def typeFrom (rid : Nat) (fields : UInt32) : Row .typeDef :=
  { rid, cells := (0, 0, 0, .null, fields, 0, ()) }

/-- A field without a name. -/
def namelessField (rid : Nat) : Row .field := { rid, cells := (0, 0, 0, ()) }

/-- Four types, two of which start before the first field and one behind the last one, and two
entries for events. -/
def fourTypes : Tables where
  typeDef := #[typeFrom 1 0, typeFrom 2 0, typeFrom 3 2, typeFrom 4 9]
  field := #[namelessField 1, namelessField 2, namelessField 3]
  methodDef := #[{ rid := 1, cells := (0, 0, 0, 0, 0, 0, ()) }]
  eventMap := #[{ rid := 1, cells := (4, 2, ()) }, { rid := 2, cells := (2, 2, ()) }]
  event := #[{ rid := 1, cells := (0, 0, .null, ()) }, { rid := 2, cells := (0, 0, .null, ()) }]

theorem eventMapFits_fourTypes : EventMapFits fourTypes where
  distinct := by decide
  exists_parent := by decide

theorem starts_fourTypes : fieldStarts fourTypes = #[0, 0, 2, 9] ∧
    methodStarts fourTypes = #[0, 0, 0, 0] ∧ eventStarts fourTypes = #[2, 2] := by
  simp [fieldStarts, methodStarts, eventStarts, fourTypes, typeFrom, Row.typeDefFields,
    Row.typeDefMethods, Row.eventMapEvents]

/-- The four types after some of their relations have been asked for. -/
theorem members_divided_fourTypes :
    let g := run [.lookup (.ofRow .typeDef 3), .inspect none (.ofRow .typeDef 3) .fieldTokens]
      { tables := fourTypes, heaps := {} }
    Coherent EverySlot g g ∧
    (∃ members owner,
      Divides g .fieldTokens .fieldDefinition (fieldStarts g.tables) members owner) ∧
    (∃ members owner,
      Divides g .methodTokens .methodDefinition (methodStarts g.tables) members owner) ∧
    ∃ members owner, Divides g .events .eventDefinition (eventStarts g.tables) members owner := by
  intro g
  have hnew : Coherent EverySlot ({ tables := fourTypes, heaps := {} } : Graph)
      { tables := fourTypes, heaps := {} } := coherent_bare _ { tables := fourTypes, heaps := {} }
  have hreads : Coherent EverySlot ({ tables := fourTypes, heaps := {} } : Graph) g :=
    hnew.reads (by simp [GraphCall.isRead])
  have htables : g.tables = fourTypes := hreads.tables
  have hdivided := members_divided hreads.toWellFormed (hreads.self.keepsCurrent _)
    (by rw [htables]; decide)
  obtain ⟨hfields, hmethods, hevents⟩ := starts_fourTypes
  rw [htables, hfields, hmethods, hevents] at hdivided
  rw [htables, hfields, hmethods, hevents]
  exact ⟨hreads.self, hdivided.1 (by decide) (by decide) (hreads.self.keepsCurrent _),
    hdivided.2.1 (by decide) (by decide) (hreads.self.keepsCurrent _),
    hdivided.2.2 (by decide) (by decide) eventMapFits_fourTypes (hreads.self.keepsCurrent _)⟩

/-! ### Graphs that do not divide their fields -/

/-- Two types, the second of which starts at a row, and some fields. -/
def twoTypes (second : UInt32) (fields : Nat) : Tables where
  typeDef := #[typeFrom 1 1, typeFrom 2 second]
  field := Array.ofFn fun i : Fin fields => namelessField (i + 1)

/-- A graph that has been asked for the fields of its first type before the second type lost its
only field to it, behind the back of the graph. -/
def askedEarly : Graph :=
  run [.lookup (.ofRow .typeDef 1), .inspect none (.ofRow .typeDef 1) .fieldTokens,
    .edit fun _ => twoTypes 3 2] { tables := twoTypes 2 2, heaps := {} }

/-- A new graph with so many fields that the last one has the token of the first one. -/
def tooManyFields : Graph := { tables := twoTypes 16777217 16777217, heaps := {} }

/-- Types whose fields all start at the only field, so that the last type owns it. -/
def oneField (types : Nat) : Tables where
  typeDef := Array.ofFn fun i : Fin types => typeFrom (i + 1) 1
  field := #[namelessField 1]

/-- A new graph with so many types that the last one has the token of the first one. -/
def tooManyTypes : Graph := { tables := oneField 16777217, heaps := {} }

/-- The list column of the fields does not descend, and yet a type and a field do not agree on
whether the field belongs to the type. -/
def Misdivides (g : Graph) : Prop :=
  (fieldStarts g.tables).toList.Pairwise (· ≤ ·) ∧
  ∃ type field tokens owner, g.Resolves type .typeDefinition ∧ g.Resolves field .fieldDefinition ∧
    outcome (inspect none .typeDefinition type .fieldTokens) g = .ok (some (.tokens tokens)) ∧
    outcome (inspect none .fieldDefinition field .declaringType) g =
      .ok (some (.definition owner)) ∧
    ¬ (field ∈ tokens ↔ owner = some type)

theorem count_twoTypes (second : UInt32) (fields : Nat) :
    (twoTypes second fields).count .field = fields := Array.size_ofFn

theorem starts_twoTypes (second : UInt32) (fields : Nat) :
    fieldStarts (twoTypes second fields) = #[1, second.toNat] := by
  simp [fieldStarts, twoTypes, Row.typeDefFields, typeFrom]

/-- The graph of the early question, once the first type has become a member. -/
def asking : Graph :=
  ({ tables := twoTypes 2 2, heaps := {} } : Graph).withMember .typeDefinition (.ofRow .typeDef 1)

/-- The answer about the fields of a type is what the slot keeps. -/
theorem inspect_fieldTokens {g' : Graph} {kept : Kept (List Token)}
    (hkept : remember token .fields (do
      let tables := (← get).tables
      return runTokens tables .field (fieldStarts tables) (token.row - 1)) g = .ok kept g') :
    inspect none .typeDefinition token .fieldTokens g = .ok (some (.tokens kept.value)) g' := by
  change ((remember token .fields _ >>= fun a => pure a.value) >>=
    fun a => pure (some (Answer.tokens a))) g = _
  rw [bind_assoc]
  exact bind_of_ok hkept

/-- What the early question leaves behind: the only field that the first type had is kept. -/
theorem askedEarly_eq : askedEarly =
    { asking.withKept (.ofRow .typeDef 1) .fields [.ofRow .field 1] with
      tables := twoTypes 3 2 } := by
  have hresolves : ({ tables := twoTypes 2 2, heaps := {} } : Graph).Resolves (.ofRow .typeDef 1)
      .typeDefinition := ⟨rfl, by decide, by decide⟩
  have hlookup : after (lookup (.ofRow .typeDef 1)) { tables := twoTypes 2 2, heaps := {} } =
      asking := after_of_ok (lookup_of_none hresolves (by simp))
  have hmember : asking.members[Token.ofRow .typeDef 1]? =
      some ⟨.typeDefinition, .ofRow .typeDef 1, 0⟩ := Std.HashMap.getElem?_insert_self
  have hempty : asking.kept? (.ofRow .typeDef 1) .fields = none := by
    simp [asking, withMember, kept?]
  have hrun : runTokens (twoTypes 2 2) .field (fieldStarts (twoTypes 2 2))
      ((Token.ofRow .typeDef 1).row - 1) = [.ofRow .field 1] := by
    rw [runTokens, starts_twoTypes, count_twoTypes, Token.row_ofRow]
    rfl
  have hinspect := inspect_fieldTokens
    ((remember_of_none hempty _).trans (keep_of_none hempty (runTokens (twoTypes 2 2) .field
      (fieldStarts (twoTypes 2 2)) ((Token.ofRow .typeDef 1).row - 1))))
  rw [hrun] at hinspect
  simp only [askedEarly, run, List.foldl_cons, List.foldl_nil, GraphCall.after, hlookup, hmember,
    after_of_ok hinspect]

/-- What is kept does not hang on the tables. -/
theorem kept?_withTables (g : Graph) (tables : Tables) (token : Token) (slot : Slot) :
    ({ g with tables } : Graph).kept? token slot = g.kept? token slot := rfl

theorem misdivides_askedEarly : Misdivides askedEarly := by
  have htables : askedEarly.tables = twoTypes 3 2 := by rw [askedEarly_eq]
  have hstarts : fieldStarts askedEarly.tables = #[1, 3] := by
    rw [htables, starts_twoTypes]
    rfl
  have hwell : WellFormed askedEarly := by
    have hnew : WellFormed { tables := twoTypes 2 2, heaps := {} } := by constructor <;> simp
    exact (hnew.grown.run _).toWellFormed
  have hkept : askedEarly.kept? (.ofRow .typeDef 1) .fields = some ⟨[.ofRow .field 1], 1⟩ := by
    rw [askedEarly_eq, kept?_withTables, kept?_withKept_self]
    rfl
  have hempty : ∀ token, askedEarly.kept? token .declaringType = none := by
    intro token
    rw [askedEarly_eq, kept?_withTables, kept?_withKept_of_ne _ (.inr (by decide))]
    simp [asking, withMember, kept?]
  have hfirst : askedEarly.Resolves (.ofRow .typeDef 1) .typeDefinition :=
    ⟨rfl, by decide, by rw [htables]; decide⟩
  -- No declaring type is kept, so that the one of the second field is found in the present rows.
  have howner : outcome (inspect none .fieldDefinition (.ofRow .field 2) .declaringType)
      askedEarly = .ok (some (.definition (some (.ofRow .typeDef 1)))) := by
    have hcurrent : askedEarly.KeepsCurrent .declaringType := by
      intro token kept hfound
      rw [hempty token] at hfound
      cases hfound
    have hnumber : runOwner? askedEarly.tables .field #[1, 3] (.ofRow .field 2) = some 1 := by
      refine (Runs.owner?_eq_some_iff (by simp)).2 ⟨0, rfl, Runs.mem_rows_iff.2 ?_⟩
      rw [htables, count_twoTypes, Token.row_ofRow]
      simp
    have hrelation : relation? .fieldDefinition .declaringType = some fieldOwner? := rfl
    rw [declaringType_of_keepsCurrent hwell hrelation hcurrent rfl, fieldOwner?, hstarts, hnumber,
      Option.map_some, Option.filter_some, if_pos (names_iff.2 hfirst)]
  have hsecond : askedEarly.Resolves (.ofRow .field 2) .fieldDefinition := by
    refine ⟨rfl, by decide, ?_⟩
    change _ ≤ askedEarly.tables.count .field
    rw [htables, count_twoTypes]
    decide
  refine ⟨?_, _, _, _, _, hfirst, hsecond,
    outcome_of_ok (inspect_fieldTokens (remember_of_some hkept _)), howner, ?_⟩
  · rw [hstarts]
    simp
  · intro h
    have hmem := h.2 rfl
    revert hmem
    decide

theorem misdivides_tooManyFields : Misdivides tooManyFields := by
  have hcoherent : Coherent EverySlot tooManyFields tooManyFields := coherent_bare _ tooManyFields
  have hstarts : fieldStarts tooManyFields.tables = #[1, 16777217] := starts_twoTypes _ _
  have hsorted : (#[1, 16777217] : Array Nat).toList.Pairwise (· ≤ ·) := by simp
  have hcount : tooManyFields.tables.count .field = 16777217 := count_twoTypes _ _
  have hfirst : tooManyFields.Resolves (.ofRow .typeDef 1) .typeDefinition :=
    ⟨rfl, by decide, by decide⟩
  have hsecond : tooManyFields.Resolves (.ofRow .typeDef 2) .typeDefinition :=
    ⟨rfl, by decide, by decide⟩
  have hrow : (Token.ofRow .field 1).row = 1 := Token.row_ofRow .field 1
  have hfield : tooManyFields.Resolves (.ofRow .field 1) .fieldDefinition := by
    refine ⟨rfl, Nat.le_of_eq hrow.symm, ?_⟩
    change (Token.ofRow .field 1).row ≤ tooManyFields.tables.count .field
    rw [hrow, hcount]
    decide
  have howner : runOwner? tooManyFields.tables .field #[1, 16777217] (.ofRow .field 1) =
      some 1 := by
    refine (Runs.owner?_eq_some_iff hsorted).2 ⟨0, rfl, Runs.mem_rows_iff.2 ?_⟩
    rw [hrow, hcount]
    simp
  have hmem : Token.ofRow .field 1 ∈ runTokens tooManyFields.tables .field #[1, 16777217] 1 := by
    refine List.mem_map.2 ⟨16777217, Runs.mem_rows_iff.2 ?_, by decide⟩
    rw [hcount]
    simp
  refine ⟨hstarts ▸ hsorted, .ofRow .typeDef 2, .ofRow .field 1, _, _, hsecond, hfield,
    hcoherent.fieldTokens none rfl, hcoherent.declaringType none rfl rfl, ?_⟩
  rw [fieldOwner?, hstarts, howner, Option.map_some, Option.filter_some,
    if_pos (names_iff.2 hfirst)]
  intro h
  have howned := h.1 hmem
  revert howned
  decide

theorem count_oneField (types : Nat) : (oneField types).count .typeDef = types := Array.size_ofFn

theorem starts_oneField (types : Nat) :
    fieldStarts (oneField types) = Array.replicate types 1 := by
  apply Array.ext
  · rw [fieldStarts, Array.size_map, Array.size_replicate]
    exact Array.size_ofFn
  · intro i _ _
    simp [fieldStarts, oneField, Row.typeDefFields, typeFrom]

theorem misdivides_tooManyTypes : Misdivides tooManyTypes := by
  have hcoherent : Coherent EverySlot tooManyTypes tooManyTypes := coherent_bare _ tooManyTypes
  have hstarts : fieldStarts tooManyTypes.tables = Array.replicate 16777217 1 := starts_oneField _
  have hsorted : (Array.replicate 16777217 1).toList.Pairwise (· ≤ ·) := by
    rw [Array.toList_replicate]
    exact List.pairwise_replicate.2 (.inr (Nat.le_refl 1))
  have htype : tooManyTypes.Resolves (.ofRow .typeDef 1) .typeDefinition := by
    have hrow : (Token.ofRow .typeDef 1).row = 1 := Token.row_ofRow .typeDef 1
    have hcount : tooManyTypes.tables.count .typeDef = 16777217 := count_oneField _
    refine ⟨rfl, Nat.le_of_eq hrow.symm, ?_⟩
    change (Token.ofRow .typeDef 1).row ≤ tooManyTypes.tables.count .typeDef
    rw [hrow, hcount]
    decide
  have hfield : tooManyTypes.Resolves (.ofRow .field 1) .fieldDefinition :=
    ⟨rfl, by decide, by decide⟩
  have hrow : (Token.ofRow .field 1).row = 1 := Token.row_ofRow .field 1
  have hcount : tooManyTypes.tables.count .field = 1 := rfl
  have howner : runOwner? tooManyTypes.tables .field (Array.replicate 16777217 1)
      (.ofRow .field 1) = some 16777217 := by
    refine (Runs.owner?_eq_some_iff hsorted).2 ⟨16777216, rfl, Runs.mem_rows_iff.2 ?_⟩
    rw [hrow, hcount]
    simp
  have hmem : Token.ofRow .field 1 ∉
      runTokens tooManyTypes.tables .field (Array.replicate 16777217 1) 0 := by
    intro h
    have hrun := ((mem_runTokens_iff (hcount ▸ by decide)).1 h).2
    have hnext := (Runs.mem_rows_iff.1 hrun).2.2.2 1 (by simp)
    omega
  have hsame : Token.ofRow .typeDef 16777217 = .ofRow .typeDef 1 := by decide
  refine ⟨hstarts ▸ hsorted, .ofRow .typeDef 1, .ofRow .field 1, _, _, htype, hfield,
    hcoherent.fieldTokens none rfl, hcoherent.declaringType none rfl rfl, ?_⟩
  rw [fieldOwner?, hstarts, howner, Option.map_some, hsame, Option.filter_some,
    if_pos (names_iff.2 htype)]
  exact fun h => hmem (h.2 rfl)

/-- Neither values of earlier rows nor tables with more rows than tokens can tell apart may be left
aside: both directions disagree where a kept list is older than the rows, where two fields have one
token and where two types have one token. -/
theorem members_misdivided :
    Misdivides askedEarly ∧ Misdivides tooManyFields ∧ Misdivides tooManyTypes :=
  ⟨misdivides_askedEarly, misdivides_tooManyFields, misdivides_tooManyTypes⟩

end Graph

end CilMetadata

import CilMetadata.Graph.Edit
import CilMetadata.Proofs.Graph.Agreement
import CilMetadata.Proofs.Graph.Dependence

/-!
# What steps do to a graph

Members are made and values kept by two steps alone, and rows replaced by a third one. Each leaves a
graph behind that is spelled out here, by whether the member, the value or the row is there.

* `LazySlot.fill_of_some`, `LazySlot.force_of_none` and their like evaluate the steps on any slot;
* `withMember`, `withKept` and `withRow` are the graphs that are left behind;
* `memberOf_of_none`, `remember_of_some`, `replaceRow_of_some` and their like evaluate the steps on a
  graph;
* `Resolves` says which tokens a look-up finds, and `lookup_of_some`, `lookup_of_none`,
  `lookup_of_not_resolves` what it does.
-/

namespace CilMetadata

/-! ### Any slot -/

namespace LazySlot

variable {σ α : Type} {slot : LazySlot σ α} {s s' : σ} {kept : Kept α}

theorem fill_of_some (h : slot.kept? s = some kept) (value : α) :
    slot.fill value s = .ok kept s := by
  unfold fill
  rw [Graph.get_bind_apply, h]
  rfl

theorem fill_of_none (h : slot.kept? s = none) {object : Nat}
    (hobject : slot.newObject s = .ok object s') (value : α) :
    slot.fill value s = .ok ⟨value, object⟩ (slot.put (some ⟨value, object⟩) s') := by
  unfold fill
  rw [Graph.get_bind_apply, h]
  simp only [bind, EStateM.bind, hobject]
  rfl

theorem force_of_some (h : slot.kept? s = some kept) (compute : EStateM Fault σ α) :
    slot.force compute s = .ok kept s := by
  unfold force
  rw [Graph.get_bind_apply, h]
  rfl

theorem force_of_none (h : slot.kept? s = none) (compute : EStateM Fault σ α) :
    slot.force compute s = (compute >>= slot.fill) s := by
  unfold force
  rw [Graph.get_bind_apply, h]

end LazySlot

namespace Graph

variable {g : Graph} {kind : MemberKind} {token : Token} {slot : Slot}

/-! ### Making members and keeping values -/

/-- A graph with a new member. -/
def withMember (g : Graph) (kind : MemberKind) (token : Token) : Graph :=
  { g with
    members := g.members.insert token ⟨kind, token, g.nextObject⟩
    nextObject := g.nextObject + 1 }

/-- A graph that keeps one more value. -/
def withKept (g : Graph) (token : Token) (slot : Slot) (value : slot.Value) : Graph :=
  (slotOf token slot).put (some ⟨value, g.nextObject⟩) { g with nextObject := g.nextObject + 1 }

theorem memberOf_of_some {member : Member} (h : g.members[token]? = some member) :
    memberOf kind token g = .ok member g := by
  unfold memberOf
  rw [get_bind_apply, h]
  rfl

theorem memberOf_of_none (h : g.members[token]? = none) :
    memberOf kind token g = .ok ⟨kind, token, g.nextObject⟩ (g.withMember kind token) := by
  unfold memberOf
  rw [get_bind_apply, h]
  rfl

theorem kept?_put_of_ne {other : Token} {otherSlot : Slot} (kept : Option (Kept slot.Value))
    (h : other ≠ token ∨ otherSlot ≠ slot) :
    ((slotOf token slot).put kept g).kept? other otherSlot = g.kept? other otherSlot := by
  by_cases htoken : other = token
  · subst htoken
    have hslot : otherSlot ≠ slot := h.resolve_left (· rfl)
    simp only [kept?, slotOf, Std.HashMap.getElem?_insert_self, Option.bind_some, KeptSlots.set,
      dif_neg hslot]
    -- A member without slots keeps nothing, like one whose slots are all empty.
    cases g.slots[other]? <;> rfl
  · have hbeq : (token == other) = false := by simpa using fun h => htoken h.symm
    simp [kept?, slotOf, Std.HashMap.getElem?_insert, hbeq]

theorem keep_of_some {kept : Kept slot.Value} (h : g.kept? token slot = some kept)
    (value : slot.Value) : keep token slot value g = .ok kept g :=
  LazySlot.fill_of_some h value

theorem keep_of_none (h : g.kept? token slot = none) (value : slot.Value) :
    keep token slot value g = .ok ⟨value, g.nextObject⟩ (g.withKept token slot value) := by
  have hobject : (slotOf token slot).newObject g =
      .ok g.nextObject { g with nextObject := g.nextObject + 1 } := rfl
  exact LazySlot.fill_of_none h hobject value

theorem remember_of_some {kept : Kept slot.Value} (h : g.kept? token slot = some kept)
    (step : GraphM slot.Value) : remember token slot step g = .ok kept g :=
  LazySlot.force_of_some h step

theorem remember_of_none (h : g.kept? token slot = none) (step : GraphM slot.Value) :
    remember token slot step g = (step >>= keep token slot) g :=
  LazySlot.force_of_none h step

theorem kept?_withKept_self (value : slot.Value) :
    (g.withKept token slot value).kept? token slot = some ⟨value, g.nextObject⟩ :=
  (slotOf token slot).kept?_put _ _

theorem kept?_withKept_of_ne {other : Token} {otherSlot : Slot} (value : slot.Value)
    (h : other ≠ token ∨ otherSlot ≠ slot) :
    (g.withKept token slot value).kept? other otherSlot = g.kept? other otherSlot :=
  kept?_put_of_ne _ h

/-- Clearing the slots of all members clears each of them. -/
theorem kept?_clearKept (g : Graph) (token : Token) (slot : Slot) :
    g.clearKept.kept? token slot = (slotOf token slot).kept? ((slotOf token slot).clear g) := by
  rw [LazySlot.kept?_clear]
  simp [kept?, clearKept]

theorem row_of_some {kind : RowKind} {row : Row kind}
    (h : g.tables.row? kind token.row = some row) : Graph.row kind token g = .ok row g := by
  unfold Graph.row
  rw [get_bind_apply, h]
  rfl

/-! ### Changing rows -/

/-- A graph with a replaced row, where nothing is kept of the member of the row. -/
def withRow {kind : RowKind} (g : Graph) (rid : Nat) (row : Row kind) : Graph :=
  { g with
    tables := g.tables.set kind ((g.tables.rows kind).replace rid row)
    slots := g.slots.erase (Token.ofRow kind.table rid) }

theorem replaceRow_of_some {kind : RowKind} {rid : Nat} {previous : Row kind}
    (h : g.tables.row? kind rid = some previous) (row : Row kind) :
    replaceRow rid row g = .ok (some previous) (g.withRow rid row) := by
  unfold replaceRow
  rw [get_bind_apply]
  simp only [Tables.replace, h]
  rfl

theorem replaceRow_of_none {kind : RowKind} {rid : Nat} (h : g.tables.row? kind rid = none)
    (row : Row kind) : replaceRow rid row g = .ok none g := by
  unfold replaceRow
  rw [get_bind_apply]
  simp only [Tables.replace, h]
  rfl

/-! ### Look-ups -/

/-- A token names an existing row of a table with members. -/
structure Resolves (g : Graph) (token : Token) (kind : MemberKind) : Prop where
  isIn : token.isIn kind.table = true
  pos : 1 ≤ token.row
  le : token.row ≤ g.tables.count kind.table

theorem lookup_of_resolves (h : g.Resolves token kind) :
    lookup token g = (some <$> memberOf kind token) g := by
  have htable : token.table? = some kind.table := by
    rw [Token.table?, Token.isIn_iff.1 h.isIn, TableKind.ofCode?_code]
  have hcontains : g.tables.contains token = true := by
    have hrow : token.row ≠ 0 := Nat.ne_of_gt h.pos
    simp [Tables.contains, Token.decode, htable, hrow, h.le]
  change (if g.tables.contains token then _ else _ : GraphM _) g = _
  rw [if_pos hcontains, htable, Option.bind_some, MemberKind.ofTable?_table]
  rfl

theorem lookup_of_some (h : g.Resolves token kind) {member : Member}
    (hmember : g.members[token]? = some member) : lookup token g = .ok (some member) g := by
  rw [lookup_of_resolves h]
  simp [Functor.map, EStateM.map, memberOf_of_some hmember]

theorem lookup_of_none (h : g.Resolves token kind) (hmember : g.members[token]? = none) :
    lookup token g = .ok (some ⟨kind, token, g.nextObject⟩) (g.withMember kind token) := by
  rw [lookup_of_resolves h]
  simp [Functor.map, EStateM.map, memberOf_of_none hmember]

theorem lookup_of_not_resolves (h : ∀ kind, ¬ g.Resolves token kind) :
    lookup token g = .ok none g := by
  change (if g.tables.contains token then _ else _ : GraphM _) g = _
  split_ifs with hcontains
  · cases hkind : token.table?.bind MemberKind.ofTable? with
    | none => rfl
    | some kind =>
      obtain ⟨table, htable, hof⟩ := Option.bind_eq_some_iff.1 hkind
      have hin := Token.isIn_of_table? htable
      -- A row that is there, in a table with members, would make the token resolve.
      rw [← MemberKind.ofTable?_eq_some hof] at htable hin
      simp only [Tables.contains, Token.decode, htable, Option.map_some, Bool.and_eq_true,
        bne_iff_ne, decide_eq_true_eq] at hcontains
      exact absurd ⟨hin, Nat.one_le_iff_ne_zero.2 hcontains.1, hcontains.2⟩ (h kind)
  · rfl

theorem outcome_lookup_of_resolves (h : g.Resolves token kind) :
    ∃ member, outcome (lookup token) g = .ok (some member) := by
  cases hmember : g.members[token]? with
  | some member => exact ⟨member, outcome_of_ok (lookup_of_some h hmember)⟩
  | none => exact ⟨_, outcome_of_ok (lookup_of_none h hmember)⟩

/-- A look-up that finds a member leaves it behind. -/
theorem members_after_lookup {member : Member}
    (h : outcome (lookup token) g = .ok (some member)) :
    (after (lookup token) g).members[token]? = some member := by
  by_cases hresolves : ∃ kind, g.Resolves token kind
  · obtain ⟨kind, hkind⟩ := hresolves
    cases hmember : g.members[token]? with
    | some found =>
      have hstep := lookup_of_some hkind hmember
      rw [outcome_of_ok hstep] at h
      rw [after_of_ok hstep, hmember]
      cases h
      rfl
    | none =>
      have hstep := lookup_of_none hkind hmember
      rw [outcome_of_ok hstep] at h
      rw [after_of_ok hstep]
      cases h
      exact Std.HashMap.getElem?_insert_self
  · rw [outcome_of_ok (lookup_of_not_resolves fun kind hkind => hresolves ⟨kind, hkind⟩)] at h
    cases h

end Graph

end CilMetadata

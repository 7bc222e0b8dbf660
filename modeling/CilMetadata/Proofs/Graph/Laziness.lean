import CilMetadata.Proofs.Graph.Identity

/-!
# Kept values are not noticed

A kept value is current when filling its slot on the bare module would give it again. As long as all
kept values are current, no property tells whether a value has been kept or not: a graph answers
like any other graph on the same module.

* `Computes` is the value that a slot should keep, `IsCurrent` says that it keeps no other one;
* `Coherent reliable base g`: on the module of `base`, all reliable slots of `g` are current;
* `Coherent.simulation`: two coherent graphs on similar modules answer alike;
* `inspect_of_clear`: after a full clear, everything is answered as by a new graph on the current
  tables.
-/

namespace CilMetadata.Graph

variable {changed : RowKind → Nat → Prop} {reliable : Token → Slot → Prop} {base base' g h : Graph}
variable {kind : MemberKind} {token : Token} {slot : Slot} {step : GraphM slot.Value}

/-- Filling a slot on the bare module gives a value. -/
def Computes (g : Graph) (token : Token) (slot : Slot) (value : slot.Value) : Prop :=
  ∃ kind step, token.isIn (MemberKind.table kind) = true ∧
    g.filling? kind token slot = some step ∧ outcome step g.bare = .ok value

/-- A slot is empty, or keeps the value that filling it on the bare module gives. -/
def IsCurrent (g : Graph) (token : Token) (slot : Slot) : Prop :=
  ∀ kept, g.kept? token slot = some kept → g.Computes token slot kept.value

/-- A well-formed graph on the module of `base` whose reliable slots are current. -/
structure Coherent (reliable : Token → Slot → Prop) (base g : Graph) : Prop
    extends WellFormed g where
  bare : g.bare = base.bare
  current : ∀ token slot, reliable token slot → g.IsCurrent token slot

theorem computes_iff (hin : token.isIn kind.table = true)
    (hfilling : g.filling? kind token slot = some step) {value : slot.Value} :
    g.Computes token slot value ↔ outcome step g.bare = .ok value := by
  constructor
  · rintro ⟨kind', step', hin', hfilling', hstep⟩
    obtain rfl := MemberKind.table_injective (Token.isIn_unique hin' hin)
    obtain rfl : step' = step := Option.some.inj (hfilling'.symm.trans hfilling)
    exact hstep
  · exact fun hstep => ⟨kind, step, hin, hfilling, hstep⟩

/-- Only the module matters. -/
theorem computes_of_bare (hbare : g.bare = base.bare) {value : slot.Value} :
    g.Computes token slot value ↔ base.Computes token slot value := by
  simp only [Computes, filling?_of_bare hbare, hbare]

theorem coherent_bare (reliable : Token → Slot → Prop) (g : Graph) :
    Coherent reliable g g.bare := by
  refine ⟨?_, rfl, fun token slot _ kept hkept => ?_⟩
  · constructor <;> simp [Graph.bare]
  · rw [kept?_bare] at hkept
    cases hkept

namespace Coherent

/-- A coherent graph is coherent with itself. -/
theorem self (hg : Coherent reliable base g) : Coherent reliable g g :=
  ⟨hg.toWellFormed, rfl, hg.current⟩

theorem tables (hg : Coherent reliable base g) : g.tables = base.tables := by
  have htables := congrArg Graph.tables hg.bare
  exact htables

theorem heaps (hg : Coherent reliable base g) : g.heaps = base.heaps := by
  have hheaps := congrArg Graph.heaps hg.bare
  exact hheaps

theorem settings (hg : Coherent reliable base g) : g.settings = base.settings := by
  have hsettings := congrArg Graph.settings hg.bare
  exact hsettings

theorem filling_eq (hg : Coherent reliable base g) (kind : MemberKind) (token : Token)
    (slot : Slot) : g.filling? kind token slot = base.filling? kind token slot :=
  filling?_of_bare hg.bare kind token slot

/-- A kept value is what the step that fills the slot gives on the bare module. -/
theorem outcome_of_kept (hg : Coherent reliable base g) (hreliable : reliable token slot)
    (hin : token.isIn kind.table = true) (hfilling : g.filling? kind token slot = some step)
    {kept : Kept slot.Value} (hkept : g.kept? token slot = some kept) :
    outcome step base.bare = .ok kept.value := by
  rw [← hg.bare]
  exact (computes_iff hin hfilling).1 (hg.current token slot hreliable kept hkept)

theorem withMember (hg : Coherent reliable base g) (hin : token.isIn kind.table = true)
    (hnone : g.members[token]? = none) : Coherent reliable base (g.withMember kind token) where
  toWellFormed := (hg.toWellFormed.grown.withMember hin hnone).toWellFormed
  bare := hg.bare
  current other slot hreliable kept hkept :=
    (computes_of_bare rfl).1 (hg.current other slot hreliable kept hkept)

theorem withKept (hg : Coherent reliable base g) (hin : token.isIn kind.table = true)
    (hfilling : g.filling? kind token slot = some step) {value : slot.Value}
    (hvalue : outcome step base.bare = .ok value) :
    Coherent reliable base (g.withKept token slot value) := by
  have hgrown : Grown g (g.withKept token slot value) :=
    hg.toWellFormed.grown.of_members _ _ (Nat.le_succ _)
  refine ⟨hgrown.toWellFormed, hg.bare, fun other otherSlot hreliable kept hkept => ?_⟩
  by_cases hsame : other = token ∧ otherSlot = slot
  · obtain ⟨rfl, rfl⟩ := hsame
    rw [kept?_withKept_self] at hkept
    cases hkept
    have hcomputes : g.Computes other otherSlot value := by
      rw [computes_iff hin hfilling, hg.bare]
      exact hvalue
    exact (computes_of_bare rfl).1 hcomputes
  · rw [kept?_withKept_of_ne value (by tauto)] at hkept
    exact (computes_of_bare rfl).1 (hg.current other otherSlot hreliable kept hkept)

theorem memberOf (hg : Coherent reliable base g) (hin : token.isIn kind.table = true) :
    ∃ object g', memberOf kind token g = .ok ⟨kind, token, object⟩ g' ∧
      Coherent reliable base g' := by
  cases hmember : g.members[token]? with
  | some member =>
    have hstep : Graph.memberOf kind token g = .ok member g := memberOf_of_some hmember
    rw [hg.toWellFormed.grown.kind_eq hmember hin] at hstep
    exact ⟨_, g, hstep, hg⟩
  | none => exact ⟨_, _, memberOf_of_none hmember, hg.withMember hin hmember⟩

/-- Keeping the value that the slot should have. -/
theorem keep (hg : Coherent reliable base g) (hreliable : reliable token slot)
    (hin : token.isIn kind.table = true) (hfilling : g.filling? kind token slot = some step)
    {value : slot.Value} (hvalue : outcome step base.bare = .ok value) :
    ∃ kept g', keep token slot value g = .ok kept g' ∧ kept.value = value ∧
      Coherent reliable base g' := by
  cases hkept : g.kept? token slot with
  | some kept =>
    have hkept' := hg.outcome_of_kept hreliable hin hfilling hkept
    rw [hvalue] at hkept'
    cases hkept'
    exact ⟨kept, g, keep_of_some hkept _, rfl, hg⟩
  | none => exact ⟨_, _, keep_of_none hkept _, rfl, hg.withKept hin hfilling hvalue⟩

/-- Remembering gives what the step gives on the bare module. -/
theorem remember (hg : Coherent reliable base g) (hreliable : reliable token slot)
    (hin : token.isIn kind.table = true) (hfilling : g.filling? kind token slot = some step)
    (hstep : outcome step g = outcome step base.bare)
    (hafter : Coherent reliable base (after step g)) :
    Alike (fun kept value => kept.value = value ∧ base.Computes token slot value)
        (outcome (remember token slot step) g) (outcome step base.bare) ∧
      Coherent reliable base (after (remember token slot step) g) := by
  have hfilling' : base.filling? kind token slot = some step :=
    (hg.filling_eq kind token slot).symm.trans hfilling
  cases hkept : g.kept? token slot with
  | some kept =>
    have hbase := hg.outcome_of_kept hreliable hin hfilling hkept
    rw [outcome_of_ok (remember_of_some hkept step), after_of_ok (remember_of_some hkept step),
      hbase]
    exact ⟨.ok ⟨rfl, (computes_iff hin hfilling').2 hbase⟩, hg⟩
  | none =>
    rw [outcome_congr (remember_of_none hkept step), after_congr (remember_of_none hkept step),
      outcome_bind, after_bind, hstep]
    cases hbase : outcome step base.bare with
    | error fault => exact ⟨.error fault, hafter⟩
    | ok value =>
      -- The step may have filled the slot on its way; what is kept then is the same value.
      have hfillingAfter : (after step g).filling? kind token slot = some step :=
        (hafter.filling_eq kind token slot).trans hfilling'
      obtain ⟨kept, g', hkeep, hvalue, hg'⟩ := hafter.keep hreliable hin hfillingAfter hbase
      change Alike _ (outcome (Graph.keep token slot value) _) _ ∧
        Coherent reliable base (after (Graph.keep token slot value) _)
      rw [outcome_of_ok hkeep, after_of_ok hkeep]
      exact ⟨.ok ⟨hvalue, (computes_iff hin hfilling').2 hbase⟩, hg'⟩

/-- The body of a method is the same whether it is asked for before or after it has been kept. -/
theorem body?_eq (hg : Coherent reliable base g) (hreliable : reliable token .body) :
    body? token g = unkeptBody? token g := by
  cases hkept : g.kept? token .body with
  | none => exact body?_of_not_kept hkept
  | some kept =>
    obtain ⟨kind, step, -, hfilling, -⟩ := hg.current token .body hreliable kept hkept
    obtain ⟨-, hbytes⟩ := Option.ite_none_right_eq_some.1 hfilling
    obtain ⟨bytes, hbytes, -⟩ := Option.map_eq_some_iff.1 hbytes
    rw [body?_of_kept hkept, unkeptBody?_of_methodBytes? hbytes]
    simp [Functor.map, EStateM.map, remember_of_some hkept]

/-- Coherent graphs on modules that agree but for changed rows answer alike, and what they remember
is what their modules say. -/
theorem simulation (reliable : Token → Slot → Prop) (same : SameBut changed base base') :
    Simulation changed reliable base.Computes base base'
      fun g h => Coherent reliable base g ∧ Coherent reliable base' h where
  same := same
  bare h := ⟨h.1.bare, h.2.bare⟩
  memberOf := by
    rintro kind token hin g h ⟨hg, hh⟩
    obtain ⟨object, g', hstep, hg'⟩ := hg.memberOf hin
    obtain ⟨object', h', hstep', hh'⟩ := hh.memberOf hin
    exact .of_ok hstep hstep' (.intro hin object object') ⟨hg', hh'⟩
  remember := by
    rintro kind token slot step g h ⟨hg, hh⟩ hin hreliable hfilling hfilling' hagree
    have hbare := coherent_bare reliable base
    have hbare' := coherent_bare reliable base'
    have hstep : outcome step base.bare = outcome step base'.bare :=
      (hagree ⟨hbare, hbare'⟩).outcome.eq
    -- Each graph is compared with the bare module of the other one.
    have hleft : outcome step g = outcome step base.bare :=
      (hagree ⟨hg, hbare'⟩).outcome.eq.trans hstep.symm
    have hright : outcome step h = outcome step base'.bare :=
      (hagree ⟨hbare, hh⟩).outcome.eq.symm.trans hstep
    obtain ⟨hafter, hafter'⟩ := (hagree ⟨hg, hh⟩).after
    obtain ⟨houtcome, hdone⟩ := hg.remember hreliable hin hfilling hleft hafter
    obtain ⟨houtcome', hdone'⟩ := hh.remember hreliable hin hfilling' hright hafter'
    rw [hstep] at houtcome
    refine ⟨(houtcome.join houtcome').mono ?_, hdone, hdone'⟩
    rintro a b ⟨value, ⟨rfl, hknown⟩, ⟨hb, -⟩⟩
    exact ⟨hb.symm, hknown⟩
  body := by
    rintro token hin hreliable hagree g h ⟨hg, hh⟩
    exact (hagree ⟨hg, hh⟩).congr (hg.body?_eq hreliable) (hh.body?_eq hreliable)

end Coherent

end CilMetadata.Graph

namespace CilMetadata

namespace GraphCall

/-- A use that drops everything that has been kept. -/
def clears : GraphCall → Bool
  | flush _ | clear => true
  | _ => false

theorem kept?_after_of_clears {call : GraphCall} (h : call.clears = true) (g : Graph)
    (token : Token) (slot : Slot) : (call.after g).kept? token slot = none := by
  have hcleared : ∃ g', call.after g = Graph.clearKept g' := by
    cases call with
    | flush _ | clear => exact ⟨_, rfl⟩
    | _ => cases h
  obtain ⟨g', hg'⟩ := hcleared
  rw [hg', Graph.kept?_clearKept, LazySlot.kept?_clear]

end GraphCall

namespace Graph

variable {base g : Graph}

theorem coherent_of_empty (hg : WellFormed g)
    (hempty : ∀ token slot, g.kept? token slot = none) : Coherent EverySlot g g := by
  refine ⟨hg, rfl, fun token slot _ kept hkept => ?_⟩
  rw [hempty] at hkept
  cases hkept

namespace Coherent

/-- What is read leaves the graph coherent. -/
theorem reads (hg : Coherent EverySlot base g) {calls : List GraphCall}
    (hreads : ∀ call ∈ calls, call.isRead = true) :
    Coherent EverySlot base (run calls g) := by
  induction calls generalizing g with
  | nil => exact hg
  | cons call rest ih =>
    have sim := Coherent.simulation EverySlot (SameBut.refl NoRow base)
    have hread := hreads call List.mem_cons_self
    have hcall := (sim.read hg.toWellFormed ⟨hg, hg⟩ hread).1
    exact ih hcall fun other hother => hreads other (List.mem_cons_of_mem _ hother)

end Coherent

/-- After any history of a new graph, dropping everything that has been kept changes no member. From
then on, whatever is read, everything is answered as by a new graph on the current tables. -/
theorem inspect_of_clear (tables : Tables) (heaps : Heaps) (settings : Settings)
    (bodies : Option (List (UInt32 × Array UInt8))) (history reads reads' : List GraphCall)
    (last : GraphCall) (hlast : last.clears = true)
    (hreads : ∀ call ∈ reads, call.isRead = true) (hreads' : ∀ call ∈ reads', call.isRead = true)
    (typeArguments : Option (List TypeSig)) (kind : MemberKind) (token : Token)
    (hin : token.isIn kind.table = true) (property : Property) :
    let used := run history { tables, heaps, settings, bodies }
    let cleared := last.after used
    let fresh : Graph := { tables := cleared.tables, heaps, settings, bodies }
    outcome (inspect typeArguments kind token property) (run reads cleared) =
      outcome (inspect typeArguments kind token property) (run reads' fresh) ∧
    used.clearKept.members = used.members ∧ used.clearKept.memberCount = used.memberCount := by
  intro used cleared fresh
  have hnew : WellFormed { tables, heaps, settings, bodies } := by
    constructor <;> simp
  have hgrown : Grown { tables, heaps, settings, bodies } cleared :=
    (hnew.grown.run history).call last
  have hbare : cleared.bare = fresh := by
    rw [Graph.bare, hgrown.heaps, hgrown.settings, hgrown.bodies]
  have hcleared : Coherent EverySlot fresh cleared := by
    have hself := coherent_of_empty hgrown.toWellFormed
      (GraphCall.kept?_after_of_clears hlast used)
    exact ⟨hself.toWellFormed, hbare, hself.current⟩
  have hfresh : Coherent EverySlot fresh fresh := coherent_bare EverySlot fresh
  have sim := Coherent.simulation EverySlot (SameBut.refl NoRow fresh)
  have hagree := sim.inspect hin typeArguments property fun _ _ _ => trivial
  exact ⟨(hagree ⟨hcleared.reads hreads, hfresh.reads hreads'⟩).outcome.eq, rfl, rfl⟩

/-! ### Two types -/

/-- The first of two types. -/
def inner : Token := ⟨0x02000001⟩

/-- The second of two types. -/
def outer : Token := ⟨0x02000002⟩

/-- A row that puts one type into another one. -/
def nestedRow (nested enclosing : UInt32) : Row .nestedClass :=
  { rid := 1, cells := (nested, enclosing, ()) }

/-- Two types, one of which is nested in the other one. -/
def nestedTables (nested enclosing : UInt32) : Tables where
  typeDef := .ofList [.ofNames .typeDef fun _ => 0, .ofNames .typeDef fun _ => 0]
  nestedClass := #[nestedRow nested enclosing]

/-- The answer about the type around a type follows the value of the slot. -/
theorem outcome_enclosingType {token : Token} {kept : Kept (Option Token)} {g' : Graph}
    (hkept : remember token .enclosingType (do return enclosingToken? (← get).tables token) g =
      .ok kept g') :
    outcome (inspect none .typeDefinition token .enclosingType) g =
      outcome (definition kept.value) g' >>= fun found => .ok (some (.definition found)) := by
  change outcome ((remember token .enclosingType _ >>= fun a => definition a.value) >>=
    fun a => pure (some (Answer.definition a))) g = _
  rw [outcome_bind, outcome_bind, outcome_of_ok hkept, after_of_ok hkept]
  rfl

/-- Once the nesting of the two types has been turned round behind the back of the graph and what
has been kept is dropped, the first type is answered to lie in no other one. -/
theorem inspect_of_clear_turned :
    let history : List GraphCall := [.lookup inner, .inspect none inner .enclosingType,
      .edit fun _ => nestedTables 2 1]
    let used := run history { tables := nestedTables 1 2, heaps := {} }
    outcome (inspect none .typeDefinition inner .enclosingType)
      (run [.lookup outer] (GraphCall.clear.after used)) = .ok (some (.definition none)) := by
  intro history used
  have hreads : ∀ call ∈ [GraphCall.lookup outer], call.isRead = true := by simp [GraphCall.isRead]
  have hcleared := (inspect_of_clear (nestedTables 1 2) {} {} none history [.lookup outer] [] .clear
    rfl hreads (by simp) none .typeDefinition inner rfl .enclosingType).1
  have hempty : ({ tables := nestedTables 2 1, heaps := {} } : Graph).kept? inner .enclosingType =
      none := by
    simp [kept?]
  refine hcleared.trans ?_
  change outcome _ ({ tables := nestedTables 2 1, heaps := {} } : Graph) = _
  rw [outcome_enclosingType ((remember_of_none hempty _).trans (keep_of_none hempty _))]
  rfl

end Graph

end CilMetadata

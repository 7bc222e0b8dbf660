import Mathlib.Data.Fintype.EquivFin
import Mathlib.Logic.Relation
import Mathlib.Order.WellFounded
import CilMetadata.Proofs.Graph.Answers

/-!
# Names of nested types

The full name of a type follows untrusted rows from a type to the one around it, and gives up once
it has passed more types than there are rows. This refuses exactly the types from which the rows
lead in a circle, wherever the way enters it.

* `LiesIn` and `IsOutermost` are what a graph answers about the type around a type, `LeadsOut` is
  the way to the outermost one, and `Revisits` says that the way comes to a type again;
* `LeadsOut.nodup` and `LeadsOut.length_le`: a way out passes no type twice, so that it has no more
  types than there are rows; `exists_leadsOut`: without a circle there is a way out;
* `answers_of_short` and `answers_of_long`: what following the types comes to, by the length of the
  way;
* `fullName_of_readable`: the full name of a type with readable names around it.
-/

namespace CilMetadata

instance : Finite Token :=
  Finite.of_injective (fun token : Token => token.value.toFin) fun a b h => by
    cases a; cases b
    exact congrArg Token.mk (UInt32.toFin_inj.1 h)

namespace Graph

open Relation (ReflTransGen TransGen)

/-- A type lies directly in another one, as the graph answers. -/
def LiesIn (g : Graph) (inner outer : Token) : Prop :=
  outcome (inspect none .typeDefinition inner .enclosingType) g =
    .ok (some (.definition (some outer)))

/-- A type lies in no other one. -/
def IsOutermost (g : Graph) (type : Token) : Prop :=
  outcome (inspect none .typeDefinition type .enclosingType) g = .ok (some (.definition none))

/-- The way from a type to the outermost one around it, with all types on it. -/
inductive LeadsOut (g : Graph) : Token → List Token → Token → Prop
  | outermost {type : Token} (h : IsOutermost g type) : LeadsOut g type [type] type
  | inside {inner outer last : Token} {chain : List Token} (h : LiesIn g inner outer)
    (rest : LeadsOut g outer chain last) : LeadsOut g inner (inner :: chain) last

/-- Whoever follows the types around a type comes to the same type again. -/
def Revisits (g : Graph) (type : Token) : Prop :=
  ∃ again, ReflTransGen (LiesIn g) type again ∧ TransGen (LiesIn g) again again

variable {g : Graph} {type inner outer last start : Token} {chain : List Token}

/-! ### The way out -/

theorem LiesIn.eq {other : Token} (h : LiesIn g inner outer) (h' : LiesIn g inner other) :
    outer = other := by
  have heq := h.symm.trans h'
  simpa using heq

theorem LiesIn.not_isOutermost (h : LiesIn g inner outer) : ¬ IsOutermost g inner := by
  intro h'
  have heq := h.symm.trans h'
  simp at heq

namespace LeadsOut

/-- There is one way out. -/
theorem eq {chain' : List Token} {last' : Token} (h : LeadsOut g type chain last)
    (h' : LeadsOut g type chain' last') : chain = chain' ∧ last = last' := by
  induction h generalizing chain' with
  | outermost houtermost =>
    cases h' with
    | outermost _ => exact ⟨rfl, rfl⟩
    | inside hin _ => exact absurd houtermost hin.not_isOutermost
  | inside hin rest ih =>
    cases h' with
    | outermost houtermost => exact absurd houtermost hin.not_isOutermost
    | inside hin' rest' =>
      obtain rfl := hin.eq hin'
      obtain ⟨rfl, rfl⟩ := ih rest'
      exact ⟨rfl, rfl⟩

/-- The way out from a type further out is a shorter one. -/
theorem of_transGen (h : LeadsOut g type chain last) (hout : TransGen (LiesIn g) type outer) :
    ∃ rest, LeadsOut g outer rest last ∧ rest.length < chain.length := by
  have hstep : ∀ {inner outer chain}, LeadsOut g inner chain last → LiesIn g inner outer →
      ∃ rest, LeadsOut g outer rest last ∧ rest.length < chain.length := by
    intro inner outer chain h hin
    cases h with
    | outermost houtermost => exact absurd houtermost hin.not_isOutermost
    | inside hin' rest =>
      obtain rfl := hin.eq hin'
      exact ⟨_, rest, Nat.lt_succ_self _⟩
  induction hout with
  | single hin => exact hstep h hin
  | tail _ hin ih =>
    obtain ⟨middle, hmiddle, hlt⟩ := ih
    obtain ⟨rest, hrest, hlt'⟩ := hstep hmiddle hin
    exact ⟨rest, hrest, hlt'.trans hlt⟩

/-- Where there is a way out, no type lies in itself. -/
theorem not_transGen_self (h : LeadsOut g type chain last) : ¬ TransGen (LiesIn g) type type := by
  intro hcycle
  obtain ⟨rest, hrest, hlt⟩ := h.of_transGen hcycle
  rw [(h.eq hrest).1] at hlt
  exact Nat.lt_irrefl _ hlt

theorem not_revisits (h : LeadsOut g type chain last) : ¬ Revisits g type := by
  rintro ⟨again, hreach, hcycle⟩
  rcases Relation.reflTransGen_iff_eq_or_transGen.1 hreach with rfl | hout
  · exact h.not_transGen_self hcycle
  · obtain ⟨rest, hrest, -⟩ := h.of_transGen hout
    exact hrest.not_transGen_self hcycle

theorem reaches (h : LeadsOut g type chain last) : ∀ around ∈ chain,
    ReflTransGen (LiesIn g) type around := by
  induction h with
  | outermost _ =>
    intro around haround
    rw [List.mem_singleton.1 haround]
  | inside hin _ ih =>
    intro around haround
    rcases List.mem_cons.1 haround with rfl | haround
    · exact .refl
    · exact (ih around haround).head hin

/-- No type is passed twice. -/
theorem nodup (h : LeadsOut g type chain last) : chain.Nodup := by
  induction h with
  | outermost _ => exact List.nodup_singleton _
  | inside hin rest ih =>
    refine List.nodup_cons.2 ⟨fun hmem => ?_, ih⟩
    have hcycle := TransGen.head' hin (rest.reaches _ hmem)
    exact (inside hin rest).not_transGen_self hcycle

end LeadsOut

/-! ### Types around a type -/

/-- The types around a type, and the type itself. -/
abbrev Around (g : Graph) (type : Token) : Type :=
  {around : Token // ReflTransGen (LiesIn g) type around}

/-- A type around a type lies further out than another one. -/
def IsFurther (outer inner : Around g type) : Prop := TransGen (LiesIn g) inner.1 outer.1

/-- Types are finitely many, so that outwards there is an end unless a type comes again. -/
theorem wellFounded_isFurther (h : ¬ Revisits g type) :
    WellFounded (IsFurther : Around g type → Around g type → Prop) := by
  have : IsTrans (Around g type) IsFurther := ⟨fun _ _ _ hab hbc => hbc.trans hab⟩
  have : Std.Irrefl (IsFurther : Around g type → Around g type → Prop) :=
    ⟨fun around hcycle => h ⟨around.1, around.2, hcycle⟩⟩
  exact Finite.wellFounded_of_trans_of_irrefl IsFurther

/-! ### Readable names -/

/-- The names and the namespaces of a type and of all types around it can be read. -/
structure ReadableAround (g : Graph) (type : Token) (nameOf namespaceOf : Token → String) :
    Prop where
  name : ∀ around, ReflTransGen (LiesIn g) type around →
    outcome (inspect none .typeDefinition around .name) g = .ok (some (.text (nameOf around)))
  namespaceName : ∀ around, ReflTransGen (LiesIn g) type around →
    outcome (inspect none .typeDefinition around .namespaceName) g =
      .ok (some (.text (namespaceOf around)))

theorem ReadableAround.further {nameOf namespaceOf : Token → String}
    (h : ReadableAround g inner nameOf namespaceOf) (hlies : LiesIn g inner outer) :
    ReadableAround g outer nameOf namespaceOf where
  name around haround := h.name around (haround.head hlies)
  namespaceName around haround := h.namespaceName around (haround.head hlies)

/-! ### Following the rows -/

section Coherent

variable (hg : Coherent EverySlot g g)
include hg

theorem liesIn_iff (hin : inner.isIn .typeDef = true) :
    LiesIn g inner outer ↔ outer? g.tables inner = some outer := by
  rw [LiesIn, hg.enclosingType none hin]
  simp

theorem isOutermost_iff (hin : type.isIn .typeDef = true) :
    IsOutermost g type ↔ outer? g.tables type = none := by
  rw [IsOutermost, hg.enclosingType none hin]
  simp

theorem resolves_of_liesIn (hin : inner.isIn .typeDef = true) (h : LiesIn g inner outer) :
    g.Resolves outer .typeDefinition :=
  names_iff.1 (Option.filter_eq_some_iff.1 ((liesIn_iff hg hin).1 h)).2

/-- Everything around an existing type exists. -/
theorem resolves_of_reaches (htype : g.Resolves type .typeDefinition)
    (h : ReflTransGen (LiesIn g) type outer) : g.Resolves outer .typeDefinition := by
  induction h with
  | refl => exact htype
  | tail _ hin ih => exact resolves_of_liesIn hg ih.isIn hin

/-- There are no more types on the way out than rows. -/
theorem LeadsOut.length_le (htype : g.Resolves type .typeDefinition)
    (h : LeadsOut g type chain last) : chain.length ≤ g.tables.count .typeDef := by
  have hresolves : ∀ around ∈ chain, g.Resolves around .typeDefinition :=
    fun around haround => resolves_of_reaches hg htype (h.reaches around haround)
  have hrows : (chain.map Token.row).Nodup := by
    refine h.nodup.map_on fun a ha b hb hrow => ?_
    rw [← Token.ofRow_row (hresolves a ha).isIn, ← Token.ofRow_row (hresolves b hb).isIn, hrow]
  have hsubset : chain.map Token.row ⊆ List.range' 1 (g.tables.count .typeDef) := by
    intro row hrow
    obtain ⟨around, haround, rfl⟩ := List.mem_map.1 hrow
    have hpos := (hresolves around haround).pos
    have hle := (hresolves around haround).le
    change around.row ≤ g.tables.count .typeDef at hle
    rw [List.mem_range'_1]
    omega
  have hlength := (List.subperm_of_subset hrows hsubset).length_le
  simpa using hlength

/-- By induction from the outside: what never comes to a type again comes to an outermost one. -/
theorem exists_leadsOut (htype : g.Resolves type .typeDefinition) (h : ¬ Revisits g type) :
    ∃ chain last, LeadsOut g type chain last := by
  have hall : ∀ around : Around g type, ∃ chain last, LeadsOut g around.1 chain last := by
    intro around
    induction around using (wellFounded_isFurther h).induction with
    | _ around ih =>
      have hin := (resolves_of_reaches hg htype around.2).isIn
      cases houter : outer? g.tables around.1 with
      | none => exact ⟨_, _, .outermost ((isOutermost_iff hg hin).2 houter)⟩
      | some outer =>
        have hlies := (liesIn_iff hg hin).2 houter
        obtain ⟨chain, last, hout⟩ := ih ⟨outer, around.2.tail hlies⟩ (.single hlies)
        exact ⟨_, _, .inside hlies hout⟩
  exact hall ⟨type, .refl⟩

/-- Where all names in the rows of the types can be read, so can those around every type. -/
theorem readableAround_of_rows (htype : g.Resolves type .typeDefinition)
    {nameOf namespaceOf : Token → String}
    (hrows : ∀ around, g.Resolves around .typeDefinition → ∃ row,
      g.tables.row? .typeDef around.row = some row ∧
      g.heaps.strings.get row.typeDefName.toNat = .ok (nameOf around) ∧
      g.heaps.strings.get row.typeDefNamespace.toNat = .ok (namespaceOf around)) :
    ReadableAround g type nameOf namespaceOf where
  name around haround := by
    have hresolves := resolves_of_reaches hg htype haround
    obtain ⟨row, hrow, hname, -⟩ := hrows around hresolves
    exact hg.definitionName none hresolves.isIn hrow hname
  namespaceName around haround := by
    have hresolves := resolves_of_reaches hg htype haround
    obtain ⟨row, hrow, -, hnamespace⟩ := hrows around hresolves
    exact hg.definitionNamespace none hresolves.isIn hrow hnamespace

/-- A text that has been answered is answered again. -/
theorem answers_of_text {step : GraphM String} {text : String}
    (hagree : Agree (fun h h' => Coherent EverySlot g h ∧ Coherent EverySlot g h') (· = ·)
      step step)
    (h : outcome (do return some (Answer.text (← step))) g = .ok (some (.text text))) :
    Answers g step (.ok text) := by
  have hanswers := answers_of_agree hagree hg
  rw [outcome_bind] at h
  cases houtcome : outcome step g with
  | error fault =>
    rw [houtcome] at h
    cases h
  | ok found =>
    rw [houtcome] at h hanswers
    cases h
    exact hanswers

end Coherent

/-! ### Full names -/

/-- Pass a type on the way out: read its names and follow the types around it. -/
def passing (start : Token) (left : Nat) (names : List String) (type : Token) :
    GraphM (String × List String) := do
  let name ← name .typeDefinition Row.typeDefName type
  let qualifier ← qualifier .typeDefinition Row.typeDefNamespace type
  outwards start left (name :: names) qualifier (← enclosingType type)

section Readable

variable (hg : Coherent EverySlot g g) {nameOf namespaceOf : Token → String}
variable {left : Nat} {names : List String}

theorem answers_enclosingType (hin : type.isIn .typeDef = true) :
    Answers g (enclosingType type) (.ok (outer? g.tables type)) := by
  have hrelation : relation? .typeDefinition .enclosingType = some enclosingToken? := rfl
  exact Answers.relation hrelation hin (answers_definition _)

include hg

/-- What passing a type comes to hangs on what follows it. -/
theorem answers_passing (htype : g.Resolves type .typeDefinition)
    (hreadable : ReadableAround g type nameOf namespaceOf)
    {answer : Except Fault (String × List String)}
    (hrest : Answers g (outwards start left (nameOf type :: names) (namespaceOf type)
      (outer? g.tables type)) answer) :
    Answers g (passing start left names type) answer := by
  have sim := Coherent.simulation EverySlot (SameBut.refl NoRow g)
  have hcolumn : nameColumn? .typeDefinition = some Row.typeDefName := rfl
  have hcolumn' : namespaceColumn? .typeDefinition = some Row.typeDefNamespace := rfl
  have hname := answers_of_text hg (sim.name hcolumn htype.isIn trivial) (hreadable.name type .refl)
  have hnamespace := answers_of_text hg (sim.qualifier hcolumn' htype.isIn trivial)
    (hreadable.namespaceName type .refl)
  exact hname.bind (hnamespace.bind ((answers_enclosingType htype.isIn).bind hrest))

/-- By induction on how many types may still follow: a way out that is no longer is followed to its
end. -/
theorem answers_of_short (htype : g.Resolves type .typeDefinition)
    (hreadable : ReadableAround g type nameOf namespaceOf) (hout : LeadsOut g type chain last)
    (hshort : chain.length ≤ left + 1) :
    Answers g (passing start left names type)
      (.ok (namespaceOf last, chain.reverse.map nameOf ++ names)) := by
  induction left generalizing type names chain with
  | zero =>
    refine answers_passing hg htype hreadable ?_
    cases hout with
    | outermost houtermost =>
      rw [(isOutermost_iff hg htype.isIn).1 houtermost]
      exact answers_pure _
    | inside _ rest =>
      cases rest <;> simp at hshort
  | succ left ih =>
    refine answers_passing hg htype hreadable ?_
    cases hout with
    | outermost houtermost =>
      rw [(isOutermost_iff hg htype.isIn).1 houtermost]
      exact answers_pure _
    | inside hlies rest =>
      rw [(liesIn_iff hg htype.isIn).1 hlies, List.reverse_cons, List.map_append, List.append_assoc]
      exact ih (resolves_of_liesIn hg htype.isIn hlies) (hreadable.further hlies) rest
        (Nat.le_of_succ_le_succ hshort)

/-- A type that every way out passes another type from lies in a type. -/
theorem exists_liesIn (hin : type.isIn .typeDef = true)
    (hlong : ∀ chain last, LeadsOut g type chain last → 1 < chain.length) :
    ∃ outer, LiesIn g type outer := by
  obtain ⟨outer, houter⟩ : ∃ outer, outer? g.tables type = some outer := by
    refine Option.ne_none_iff_exists'.1 fun hnone => ?_
    have hlt := hlong _ _ (.outermost ((isOutermost_iff hg hin).2 hnone))
    exact absurd hlt (Nat.lt_irrefl 1)
  exact ⟨outer, (liesIn_iff hg hin).2 houter⟩

/-- Where every way out is longer, the type that is asked for its name is found to lie in itself. -/
theorem answers_of_long (htype : g.Resolves type .typeDefinition)
    (hreadable : ReadableAround g type nameOf namespaceOf)
    (hlong : ∀ chain last, LeadsOut g type chain last → left + 1 < chain.length) :
    Answers g (passing start left names type) (.error (.malformed (.cyclicNesting start))) := by
  induction left generalizing type names with
  | zero =>
    obtain ⟨outer, hlies⟩ := exists_liesIn hg htype.isIn hlong
    refine answers_passing hg htype hreadable ?_
    rw [(liesIn_iff hg htype.isIn).1 hlies]
    exact answers_throw _
  | succ left ih =>
    obtain ⟨outer, hlies⟩ := exists_liesIn hg htype.isIn fun chain last hout => by
      have hlt := hlong chain last hout
      omega
    refine answers_passing hg htype hreadable ?_
    rw [(liesIn_iff hg htype.isIn).1 hlies]
    exact ih (resolves_of_liesIn hg htype.isIn hlies) (hreadable.further hlies)
      fun chain last hout => Nat.lt_of_succ_lt_succ (hlong _ _ (.inside hlies hout))

/-- The full name is made of what passing the type comes to. -/
theorem outcome_fullName {answer : Except Fault (String × List String)}
    (h : Answers g (passing type (g.tables.count .typeDef) [] type) answer) :
    outcome (inspect none .typeDefinition type .fullName) g =
      answer.map fun found => some (.text (qualified found.1 ("/".intercalate found.2))) := by
  have hstep : inspect none .typeDefinition type .fullName = (do
      let left := (← get).tables.count .typeDef
      let found ← passing type left [] type
      return some (.text (qualified found.1 ("/".intercalate found.2)))) := by
    change (definitionName type >>= fun a => pure (some a)) >>=
      (fun a => pure (a.map Answer.text)) = _
    simp only [definitionName, passing, bind_assoc, pure_bind]
    rfl
  rw [hstep, outcome_bind]
  change outcome (passing type (g.tables.count .typeDef) [] type >>= fun found => _) g = _
  rw [outcome_bind, (h hg).1]
  cases answer <;> rfl

/-- Where all names around a type can be read, its full name is refused exactly when whoever follows
the types around it comes to a type again. Otherwise it is the namespace of the outermost type and
the names of all types on the way out, the outermost first and each type once. -/
theorem fullName_of_readable (htype : g.Resolves type .typeDefinition)
    (hreadable : ReadableAround g type nameOf namespaceOf) :
    (outcome (inspect none .typeDefinition type .fullName) g =
        .error (.malformed (.cyclicNesting type)) ↔ Revisits g type) ∧
    (¬ Revisits g type → ∃ chain last, LeadsOut g type chain last ∧ chain.Nodup ∧
      outcome (inspect none .typeDefinition type .fullName) g =
        .ok (some (.text
          (qualified (namespaceOf last) ("/".intercalate (chain.reverse.map nameOf)))))) := by
  have hshort : ∀ chain last, LeadsOut g type chain last →
      outcome (inspect none .typeDefinition type .fullName) g = .ok (some (.text
        (qualified (namespaceOf last) ("/".intercalate (chain.reverse.map nameOf))))) := by
    intro chain last hout
    have hlength := hout.length_le hg htype
    have hanswer : Answers g (passing type (g.tables.count .typeDef) [] type) _ :=
      answers_of_short hg htype hreadable hout (Nat.le_succ_of_le hlength)
    rw [outcome_fullName hg hanswer, List.append_nil]
    rfl
  refine ⟨⟨fun herror => ?_, fun hrevisits => ?_⟩, fun hnever => ?_⟩
  · by_contra hnever
    obtain ⟨chain, last, hout⟩ := exists_leadsOut hg htype hnever
    rw [hshort chain last hout] at herror
    cases herror
  · have hlong : ∀ chain last, LeadsOut g type chain last →
        g.tables.count .typeDef + 1 < chain.length :=
      fun chain last hout => absurd hrevisits hout.not_revisits
    rw [outcome_fullName hg (answers_of_long hg htype hreadable hlong)]
    rfl
  · obtain ⟨chain, last, hout⟩ := exists_leadsOut hg htype hnever
    exact ⟨chain, last, hout, hout.nodup, hshort chain last hout⟩

end Readable

/-! ### Three types -/

/-- A type by the places of its name and its namespace. -/
def typeNamed (name namespaceName : UInt32) : Row .typeDef :=
  { rid := 0, cells := (0, name, namespaceName, .null, 0, 0, ()) }

/-- The first type lies in the second one, of which a row says that it lies in a type that does not
exist. The third type lies in itself. -/
def threeTypes : Graph where
  tables :=
    { typeDef := #[typeNamed 1 0, typeNamed 3 5, typeNamed 1 0]
      nestedClass := #[nestedRow 1 2, nestedRow 2 9, nestedRow 1 3, nestedRow 3 3] }
  heaps := { strings := { bytes := #[0, 66, 0, 67, 0, 78, 0] } }

theorem threeTypes_names : threeTypes.heaps.strings.get 0 = .ok "" ∧
    threeTypes.heaps.strings.get 1 = .ok "B" ∧ threeTypes.heaps.strings.get 3 = .ok "C" ∧
    threeTypes.heaps.strings.get 5 = .ok "N" := by
  simp [threeTypes, StringsHeap.get, StringsHeap.zeroFrom?]
  exact ⟨rfl, rfl, rfl, rfl⟩

def threeNames (around : Token) : String := if around.row = 2 then "C" else "B"

def threeNamespaces (around : Token) : String := if around.row = 2 then "N" else ""

theorem threeTypes_rows : ∀ around, threeTypes.Resolves around .typeDefinition → ∃ row,
    threeTypes.tables.row? .typeDef around.row = some row ∧
    threeTypes.heaps.strings.get row.typeDefName.toNat = .ok (threeNames around) ∧
    threeTypes.heaps.strings.get row.typeDefNamespace.toNat = .ok (threeNamespaces around) := by
  rintro around ⟨-, hpos, hle⟩
  obtain ⟨hempty, hb, hc, hn⟩ := threeTypes_names
  change around.row ≤ 3 at hle
  unfold threeNames threeNamespaces
  generalize around.row = row at hpos hle
  have hrow : row = 1 ∨ row = 2 ∨ row = 3 := by omega
  rcases hrow with rfl | rfl | rfl
  · exact ⟨_, rfl, hb, hempty⟩
  · exact ⟨_, rfl, hc, hn⟩
  · exact ⟨_, rfl, hb, hempty⟩

/-- On the three types, after the first one has been looked at, the nested type has the name of the
one around it before its own, and the one that lies in itself has no full name. -/
theorem fullName_threeTypes :
    let g := run [.lookup (.ofRow .typeDef 1), .inspect none (.ofRow .typeDef 1) .name] threeTypes
    Coherent EverySlot g g ∧
    outcome (inspect none .typeDefinition (.ofRow .typeDef 1) .fullName) g =
      .ok (some (.text "N.C/B")) ∧
    outcome (inspect none .typeDefinition (.ofRow .typeDef 3) .fullName) g =
      .error (.malformed (.cyclicNesting (.ofRow .typeDef 3))) := by
  intro g
  have hnew : Coherent EverySlot threeTypes threeTypes := coherent_bare _ threeTypes
  have hreads : Coherent EverySlot threeTypes g := hnew.reads (by simp [GraphCall.isRead])
  have hg := hreads.self
  have htables : g.tables = threeTypes.tables := hreads.tables
  have hrows : ∀ around, g.Resolves around .typeDefinition → ∃ row,
      g.tables.row? .typeDef around.row = some row ∧
      g.heaps.strings.get row.typeDefName.toNat = .ok (threeNames around) ∧
      g.heaps.strings.get row.typeDefNamespace.toNat = .ok (threeNamespaces around) := by
    rw [htables, hreads.heaps]
    exact fun around haround =>
      threeTypes_rows around ⟨haround.isIn, haround.pos, htables ▸ haround.le⟩
  have hinner : g.Resolves (.ofRow .typeDef 1) .typeDefinition :=
    ⟨rfl, by decide, by rw [htables]; decide⟩
  have hcyclic : g.Resolves (.ofRow .typeDef 3) .typeDefinition :=
    ⟨rfl, by decide, by rw [htables]; decide⟩
  refine ⟨hg, ?_, ?_⟩
  · have hlies : LiesIn g (.ofRow .typeDef 1) (.ofRow .typeDef 2) :=
      (liesIn_iff hg rfl).2 (by rw [htables]; rfl)
    have houtermost : IsOutermost g (.ofRow .typeDef 2) :=
      (isOutermost_iff hg rfl).2 (by rw [htables]; rfl)
    have hout := LeadsOut.inside hlies (.outermost houtermost)
    obtain ⟨chain, last, hout', -, hname⟩ := (fullName_of_readable hg hinner
      (readableAround_of_rows hg hinner hrows)).2 hout.not_revisits
    obtain ⟨rfl, rfl⟩ := hout.eq hout'
    exact hname
  · have hlies : LiesIn g (.ofRow .typeDef 3) (.ofRow .typeDef 3) :=
      (liesIn_iff hg rfl).2 (by rw [htables]; rfl)
    exact (fullName_of_readable hg hcyclic (readableAround_of_rows hg hcyclic hrows)).1.2
      ⟨_, .refl, .single hlies⟩

end Graph

end CilMetadata

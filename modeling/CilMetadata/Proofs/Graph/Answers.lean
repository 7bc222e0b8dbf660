import CilMetadata.Proofs.Graph.Laziness

/-!
# What coherent graphs answer

A graph on which all kept values are current answers from its tables alone. So what it says of the
relations between members can be written down as a function of the tables.

* `Answers base step answer`: on every coherent graph on the module of `base`, the step has the
  outcome `answer` and leaves a coherent graph behind;
* `Answers.bind`, `Answers.remember` and `Answers.relation` put answers together, from what
  `answers_row` and `answers_string` read;
* `Tables.names` says which tokens name a member of a kind, and `Graph.outer?` which type lies
  around a type;
* `Coherent.definitionName`, `Coherent.fieldTokens`, `Coherent.events`, `Coherent.declaringType` and
  their like are the answers of the properties.
-/

namespace CilMetadata

/-- Whether a token names an existing row with members of a kind. -/
def Tables.names (tables : Tables) (kind : MemberKind) (token : Token) : Bool :=
  token.isIn kind.table && tables.contains token

namespace Graph

variable {α β : Type} {base g : Graph} {kind : MemberKind} {token : Token} {slot : Slot}

theorem names_iff : g.tables.names kind token = true ↔ g.Resolves token kind := by
  have hdecode : token.isIn kind.table = true → token.decode = some (kind.table, token.row) := by
    intro hin
    rw [Token.decode, Token.table?, Token.isIn_iff.1 hin, TableKind.ofCode?_code]
    rfl
  constructor
  · intro h
    obtain ⟨hin, hcontains⟩ := Bool.and_eq_true_iff.1 h
    simp only [Tables.contains, hdecode hin, Bool.and_eq_true, bne_iff_ne,
      decide_eq_true_eq] at hcontains
    exact ⟨hin, Nat.one_le_iff_ne_zero.2 hcontains.1, hcontains.2⟩
  · rintro ⟨hin, hpos, hle⟩
    have hrow : token.row ≠ 0 := Nat.ne_of_gt hpos
    simp [Tables.names, Tables.contains, hdecode hin, hin, hrow, hle]

/-- The type around a type, if it exists. -/
def outer? (tables : Tables) (token : Token) : Option Token :=
  (enclosingToken? tables token).filter (tables.names .typeDefinition)

/-! ### Steps on coherent graphs -/

/-- On every coherent graph on the module of `base` a step has the given outcome, and it leaves a
coherent graph behind. -/
def Answers (base : Graph) (step : GraphM α) (answer : Except Fault α) : Prop :=
  ∀ ⦃g⦄, Coherent EverySlot base g →
    outcome step g = answer ∧ Coherent EverySlot base (after step g)

theorem answers_pure (a : α) : Answers base (pure a) (.ok a) := fun _ hg => ⟨rfl, hg⟩

theorem answers_throw (fault : Fault) : Answers base (throw fault : GraphM α) (.error fault) :=
  fun _ hg => ⟨rfl, hg⟩

/-- A step that looks at its graph sees the tables of the module. -/
theorem answers_tables (f : Tables → α) :
    Answers base (do return f (← get).tables) (.ok (f base.tables)) := by
  intro g hg
  refine ⟨?_, hg⟩
  change Except.ok (f g.tables) = _
  rw [hg.tables]

namespace Answers

variable {step : GraphM α} {f : α → GraphM β} {a : α} {answer : Except Fault β}

theorem bind (h : Answers base step (.ok a)) (hrest : Answers base (f a) answer) :
    Answers base (step >>= f) answer := by
  intro g hg
  obtain ⟨houtcome, hafter⟩ := h hg
  rw [outcome_bind, after_bind, houtcome]
  exact hrest hafter

/-- What is computed from the answer of a step. -/
theorem map (h : Answers base step (.ok a)) (f : α → β) :
    Answers base (do return f (← step)) (.ok (f a)) :=
  h.bind (answers_pure (f a))

/-- A kept value is the one that the step gives which fills the slot. -/
theorem remember {step : GraphM slot.Value} {value : slot.Value}
    (hin : token.isIn kind.table = true) (hfilling : base.filling? kind token slot = some step)
    (hstep : Answers base step (.ok value)) :
    Answers base (do return (← Graph.remember token slot step).value) (.ok value) := by
  intro g hg
  obtain ⟨houtcome, hafter⟩ := hstep hg
  obtain ⟨hbare, -⟩ := hstep (coherent_bare EverySlot base)
  have hfilling' : g.filling? kind token slot = some step :=
    (hg.filling_eq kind token slot).trans hfilling
  have hremember := hg.remember trivial hin hfilling' (houtcome.trans hbare.symm) hafter
  rw [hbare] at hremember
  obtain ⟨halike, hdone⟩ := hremember
  rw [outcome_bind, after_bind]
  generalize outcome (Graph.remember token slot step) g = kept at halike
  cases halike with
  | ok h => exact ⟨congrArg Except.ok h.1, hdone⟩

/-- A relation that is kept is the one of the tables. -/
theorem relation {relation : Tables → Token → slot.Value} {f : slot.Value → GraphM β}
    (hrelation : relation? kind slot = some relation) (hin : token.isIn kind.table = true)
    (hrest : Answers base (f (relation base.tables token)) answer) :
    Answers base
      (Graph.remember token slot (do return relation (← get).tables token) >>=
        fun kept => f kept.value) answer := by
  have hfilling : base.filling? kind token slot = _ := filling?_of_relation? hrelation
  have hkept := Answers.remember hin hfilling (answers_tables fun tables => relation tables token)
  have hbind := hkept.bind hrest
  rwa [bind_assoc] at hbind

end Answers

theorem answers_row {rows : RowKind} {row : Row rows}
    (hrow : base.tables.row? rows token.row = some row) :
    Answers base (Graph.row rows token) (.ok row) := by
  intro g hg
  have hstep : Graph.row rows token g = .ok row g := row_of_some (hg.tables ▸ hrow)
  exact ⟨outcome_of_ok hstep, (after_of_ok hstep).symm ▸ hg⟩

theorem answers_string {index : UInt32} {text : String}
    (htext : base.heaps.strings.get index.toNat = .ok text) :
    Answers base (string index) (.ok text) := by
  intro g hg
  have hstep : string index g = .ok text g := by
    unfold string
    rw [get_bind_apply, hg.heaps, htext]
    rfl
  exact ⟨outcome_of_ok hstep, (after_of_ok hstep).symm ▸ hg⟩

/-- Two coherent graphs on one module have the same answer to a step that agrees with itself. -/
theorem answers_of_agree {step : GraphM α}
    (hagree : Agree (fun g h => Coherent EverySlot base g ∧ Coherent EverySlot base h) (· = ·)
      step step) (hg : Coherent EverySlot base g) : Answers base step (outcome step g) :=
  fun _ hh => ⟨(hagree ⟨hh, hg⟩).outcome.eq, (hagree ⟨hh, hg⟩).after.1⟩

/-! ### Members -/

/-- Whether a member of a kind is found says whether the token names one. -/
theorem Coherent.find (hg : Coherent EverySlot base g) (kind : MemberKind) (token : Token) :
    ∃ found, outcome (find kind token) g = .ok found ∧
      Coherent EverySlot base (after (find kind token) g) ∧
      found.map Member.token = if base.tables.names kind token then some token else none := by
  rw [← hg.tables]
  unfold Graph.find
  by_cases hin : token.isIn kind.table = true
  · rw [if_pos hin]
    by_cases hresolves : g.Resolves token kind
    · obtain ⟨object, g', hmember, hg'⟩ := hg.memberOf hin
      have hstep : lookup token g = .ok (some ⟨kind, token, object⟩) g' := by
        rw [lookup_of_resolves hresolves]
        simp [Functor.map, EStateM.map, hmember]
      rw [outcome_of_ok hstep, after_of_ok hstep, if_pos (names_iff.2 hresolves)]
      exact ⟨_, rfl, hg', rfl⟩
    · have hnot : ∀ other, ¬ g.Resolves token other := by
        intro other hother
        obtain rfl := MemberKind.table_injective (Token.isIn_unique hother.isIn hin)
        exact hresolves hother
      have hstep := lookup_of_not_resolves hnot
      rw [outcome_of_ok hstep, after_of_ok hstep, if_neg fun h => hresolves (names_iff.1 h)]
      exact ⟨none, rfl, hg, rfl⟩
  · rw [if_neg hin, if_neg fun h => hin (names_iff.1 h).isIn]
    exact ⟨none, rfl, hg, rfl⟩

theorem answers_definition (token : Option Token) :
    Answers base (definition token) (.ok (token.filter (base.tables.names .typeDefinition))) := by
  cases token with
  | none => exact answers_pure none
  | some token =>
    intro g hg
    obtain ⟨found, houtcome, hafter, hfound⟩ := hg.find .typeDefinition token
    rw [definition, outcome_bind, after_bind, houtcome, Option.filter_some, ← hfound]
    exact ⟨rfl, hafter⟩

/-- By induction on the tokens: each one that names a member stays. -/
theorem answers_findAll (kind : MemberKind) (tokens : List Token) :
    Answers base (findAll kind tokens) (.ok (tokens.filter (base.tables.names kind))) := by
  induction tokens with
  | nil => exact answers_pure []
  | cons token rest ih =>
    intro g hg
    obtain ⟨found, houtcome, hafter, hfound⟩ := hg.find kind token
    rw [findAll, outcome_bind, after_bind, houtcome]
    by_cases hnames : base.tables.names kind token = true
    · rw [if_pos hnames] at hfound
      obtain ⟨member, rfl, rfl⟩ := Option.map_eq_some_iff.1 hfound
      rw [List.filter_cons_of_pos hnames]
      exact ih.map (member.token :: ·) hafter
    · rw [if_neg hnames] at hfound
      obtain rfl := Option.map_eq_none_iff.1 hfound
      rw [List.filter_cons_of_neg hnames]
      exact ih hafter

/-! ### Properties -/

section Properties

variable (hg : Coherent EverySlot g g) (typeArguments : Option (List TypeSig))
include hg

theorem Coherent.definitionName (hin : token.isIn .typeDef = true) {row : Row .typeDef}
    {text : String} (hrow : g.tables.row? .typeDef token.row = some row)
    (htext : g.heaps.strings.get row.typeDefName.toNat = .ok text) :
    outcome (inspect typeArguments .typeDefinition token .name) g = .ok (some (.text text)) := by
  have hfilling : g.filling? .typeDefinition token .name = some _ := rfl
  have hstep : Answers g (do string (← Graph.row .typeDef token).typeDefName) (.ok text) :=
    (answers_row hrow).bind (answers_string htext)
  exact ((Answers.remember hin hfilling hstep).map fun text => some (Answer.text text)) hg |>.1

theorem Coherent.definitionNamespace (hin : token.isIn .typeDef = true) {row : Row .typeDef}
    {text : String} (hrow : g.tables.row? .typeDef token.row = some row)
    (htext : g.heaps.strings.get row.typeDefNamespace.toNat = .ok text) :
    outcome (inspect typeArguments .typeDefinition token .namespaceName) g =
      .ok (some (.text text)) := by
  have hfilling : g.filling? .typeDefinition token .qualifier = some _ := rfl
  have hstep : Answers g (do string (← Graph.row .typeDef token).typeDefNamespace) (.ok text) :=
    (answers_row hrow).bind (answers_string htext)
  exact ((Answers.remember hin hfilling hstep).map fun text => some (Answer.text text)) hg |>.1

theorem Coherent.fieldTokens (hin : token.isIn .typeDef = true) :
    outcome (inspect typeArguments .typeDefinition token .fieldTokens) g =
      .ok (some (.tokens (runTokens g.tables .field (fieldStarts g.tables) (token.row - 1)))) := by
  have hrelation : relation? .typeDefinition .fields = some _ := rfl
  exact ((Answers.relation hrelation hin (answers_pure _)).map fun tokens =>
    some (Answer.tokens tokens)) hg |>.1

theorem Coherent.methodTokens (hin : token.isIn .typeDef = true) :
    outcome (inspect typeArguments .typeDefinition token .methodTokens) g =
      .ok (some (.tokens
        (runTokens g.tables .methodDef (methodStarts g.tables) (token.row - 1)))) := by
  have hrelation : relation? .typeDefinition .methods = some _ := rfl
  exact ((Answers.relation hrelation hin (answers_pure _)).map fun tokens =>
    some (Answer.tokens tokens)) hg |>.1

theorem Coherent.events (hin : token.isIn .typeDef = true) :
    outcome (inspect typeArguments .typeDefinition token .events) g =
      .ok (some (.tokens
        ((eventTokens g.tables token).filter (g.tables.names .eventDefinition)))) := by
  have hrelation : relation? .typeDefinition .events = some eventTokens := rfl
  exact ((Answers.relation hrelation hin (answers_findAll _ _)).map fun tokens =>
    some (Answer.tokens tokens)) hg |>.1

theorem Coherent.interfaces (hin : token.isIn .typeDef = true) :
    outcome (inspect typeArguments .typeDefinition token .interfaces) g =
      .ok (some (.tokens
        ((interfaceTokens g.tables token).filter (g.tables.names .interfaceImplementation)))) := by
  have hrelation : relation? .typeDefinition .interfaces = some interfaceTokens := rfl
  exact ((Answers.relation hrelation hin (answers_findAll _ _)).map fun tokens =>
    some (Answer.tokens tokens)) hg |>.1

theorem Coherent.overrides (hin : token.isIn .typeDef = true) :
    outcome (inspect typeArguments .typeDefinition token .overrides) g =
      .ok (some (.tokens
        ((overrideTokens g.tables token).filter (g.tables.names .methodImplementation)))) := by
  have hrelation : relation? .typeDefinition .overrides = some overrideTokens := rfl
  exact ((Answers.relation hrelation hin (answers_findAll _ _)).map fun tokens =>
    some (Answer.tokens tokens)) hg |>.1

/-- The generic parameters of a member of any kind that has them. -/
theorem Coherent.genericParams (hrelation : relation? kind .genericParams = some genericTokens)
    (hin : token.isIn kind.table = true) :
    outcome (inspect typeArguments kind token .genericParams) g =
      .ok (some (.tokens
        ((genericTokens g.tables token).filter (g.tables.names .genericParameter)))) := by
  have hstep : Answers g (do return some (Answer.tokens (← Graph.genericParams token)))
      (.ok (some (.tokens
        ((genericTokens g.tables token).filter (g.tables.names .genericParameter))))) :=
    (Answers.relation hrelation hin (answers_findAll _ _)).map fun tokens =>
      some (Answer.tokens tokens)
  cases kind
  case typeDefinition | methodDefinition => exact (hstep hg).1
  all_goals cases hrelation

theorem Coherent.enclosingType (hin : token.isIn .typeDef = true) :
    outcome (inspect typeArguments .typeDefinition token .enclosingType) g =
      .ok (some (.definition (outer? g.tables token))) := by
  have hrelation : relation? .typeDefinition .enclosingType = some enclosingToken? := rfl
  exact ((Answers.relation hrelation hin (answers_definition _)).map fun outer =>
    some (Answer.definition outer)) hg |>.1

/-- The type around a member of any kind that has one is found by the rule of the kind. -/
theorem Coherent.declaringType {owner? : Tables → Token → Option Token}
    (hrelation : relation? kind .declaringType = some owner?)
    (hin : token.isIn kind.table = true) :
    outcome (inspect typeArguments kind token .declaringType) g =
      .ok (some (.definition
        ((owner? g.tables token).filter (g.tables.names .typeDefinition)))) := by
  have hstep : Answers g (do return some (Answer.definition (← Graph.declaringType owner? token)))
      (.ok (some (.definition
        ((owner? g.tables token).filter (g.tables.names .typeDefinition))))) :=
    (Answers.relation hrelation hin (answers_definition _)).map fun owner =>
      some (Answer.definition owner)
  cases kind
  case fieldDefinition | methodDefinition | eventDefinition =>
    cases hrelation
    exact (hstep hg).1
  all_goals cases hrelation

end Properties

end Graph

end CilMetadata

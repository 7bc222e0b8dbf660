import CilMetadata.Proofs.Graph.Simulation

/-!
# Properties of members on similar graphs

Along a simulation on modules without changed rows every property of a member is answered alike, as
long as the slots that it is answered from are reliable.

* `Reads` lists the slots that a property is answered from;
* `Simulation.inspect` is the result for any property of any kind of member.
-/

namespace CilMetadata.Graph

/-- The slots of a member that a property is answered from. -/
def ownSlots : Property → List Slot
  | .name => [.name]
  | .namespaceName => [.qualifier]
  | .fullName => [.name, .qualifier]
  | .enclosingType => [.enclosingType]
  | .nestedTypes => [.nestedTypes]
  | .fieldTokens | .fields => [.fields]
  | .methodTokens | .methods => [.methods]
  | .events => [.events]
  | .interfaces => [.interfaces]
  | .overrides => [.overrides]
  | .genericParams => [.genericParams]
  | .declaringType => [.declaringType]
  | .signature | .instantiation | .instantiatedSignature => [.signature]
  | .permissionSet => [.permissionSet]
  | .body => [.body]
  | _ => []

/-- A property of a member is answered from a slot, which may be one of another member: the full
name of a type definition leads through the types around it, as far as they are `known`, a body
needs the signatures that it is read with, and the signature of an instantiated method the one of
the generic method. -/
inductive Reads (g : Graph) (known : Token → (slot : Slot) → slot.Value → Prop) :
    MemberKind → Token → Property → Token → Slot → Prop
  | own {kind : MemberKind} {token : Token} {property : Property} {slot : Slot}
    (hslot : slot ∈ ownSlots property) : Reads g known kind token property token slot
  | around {token outer : Token} {slot : Slot}
    (hchain : Relation.ReflTransGen (fun inner outer => known inner .enclosingType (some outer))
      token outer) (hslot : slot ∈ [.name, .qualifier, .enclosingType]) :
    Reads g known .typeDefinition token .fullName outer slot
  | callee {token target : Token} {bytes : Array UInt8} (hbytes : g.methodBytes? token = some bytes)
    (hreads : ReadWith g bytes target) :
    Reads g known .methodDefinition token .body target .signature
  | generic {token : Token} {row : Row .methodSpec}
    (hrow : g.tables.row? .methodSpec token.row = some row) :
    Reads g known .methodSpecification token .instantiatedSignature row.methodSpecMethod .signature

namespace Simulation

variable {reliable : Token → Slot → Prop} {known : Token → (slot : Slot) → slot.Value → Prop}
variable {base base' : Graph} {Q : Graph → Graph → Prop}
variable (sim : Simulation NoRow reliable known base base' Q)
include sim

/-! ### Kept values -/

/-- A slot that is always filled by the same step is filled alike. -/
theorem kept {kind : MemberKind} {token : Token} {slot : Slot} {step : GraphM slot.Value}
    (hfilling : ∀ g : Graph, g.filling? kind token slot = some step) (hslot : slot ≠ .body)
    (hin : token.isIn kind.table = true) (hreliable : reliable token slot) :
    Agree Q (fun a b => a.value = b.value ∧ known token slot a.value)
      (Graph.remember token slot step) (Graph.remember token slot step) := by
  intro g h hgh
  have hstep : Agree Q (· = ·) step step :=
    sim.filling (hfilling g) id (fun _ _ _ => id) fun hbody => absurd hbody hslot
  exact sim.remember hgh hin hreliable (hfilling g) (hfilling h) hstep

theorem name {kind : MemberKind} {column : Row kind.rowKind → UInt32} {token : Token}
    (hcolumn : nameColumn? kind = some column) (hin : token.isIn kind.table = true)
    (hreliable : reliable token .name) :
    Agree Q (· = ·) (name kind column token) (name kind column token) :=
  (sim.kept (fun g => by simp [filling?, hcolumn]) (by decide) hin hreliable).bind
    fun _ _ hab => .pure hab.1

theorem qualifier {kind : MemberKind} {column : Row kind.rowKind → UInt32} {token : Token}
    (hcolumn : namespaceColumn? kind = some column) (hin : token.isIn kind.table = true)
    (hreliable : reliable token .qualifier) :
    Agree Q (· = ·) (qualifier kind column token) (qualifier kind column token) :=
  (sim.kept (fun g => by simp [filling?, hcolumn]) (by decide) hin hreliable).bind
    fun _ _ hab => .pure hab.1

theorem permissionSet {token : Token} (hin : token.isIn .declSecurity = true)
    (hreliable : reliable token .permissionSet) :
    Agree Q (· = ·) (permissionSet token) (permissionSet token) := by
  have hfilling : ∀ g : Graph, g.filling? .securityDeclaration token .permissionSet =
      some (do Graph.blob (← Graph.row .declSecurity token).permissionSet) := fun _ => rfl
  exact (sim.kept hfilling (by decide) hin hreliable).bind fun _ _ hab => .pure hab.1

/-- What follows the relation that a slot keeps may rely on its being known. -/
theorem known_bind {kind : MemberKind} {token : Token} {slot : Slot} {β : Type}
    {R : β → β → Prop} {relation : Tables → Token → slot.Value}
    (hrelation : relation? kind slot = some relation) (hin : token.isIn kind.table = true)
    (hreliable : reliable token slot) {f : slot.Value → GraphM β}
    (hf : ∀ value, known token slot value → Agree Q R (f value) (f value)) :
    Agree Q R
      (Graph.remember token slot (do return relation (← get).tables token) >>= fun a => f a.value)
      (Graph.remember token slot (do return relation (← get).tables token) >>=
        fun a => f a.value) := by
  have hslot : slot ≠ .body := by
    rintro rfl
    cases kind <;> cases hrelation
  refine (sim.kept (fun g => filling?_of_relation? hrelation) hslot hin hreliable).bind ?_
  rintro a b ⟨hvalue, hknown⟩
  rw [← hvalue]
  exact hf _ hknown

theorem related_bind {kind : MemberKind} {token : Token} {slot : Slot} {β : Type}
    {R : β → β → Prop} {relation : Tables → Token → slot.Value}
    (hrelation : relation? kind slot = some relation) (hin : token.isIn kind.table = true)
    (hreliable : reliable token slot) {f : slot.Value → GraphM β}
    (hf : ∀ value, Agree Q R (f value) (f value)) :
    Agree Q R
      (Graph.remember token slot (do return relation (← get).tables token) >>= fun a => f a.value)
      (Graph.remember token slot (do return relation (← get).tables token) >>=
        fun a => f a.value) :=
  sim.known_bind hrelation hin hreliable fun value _ => hf value

theorem body? {token : Token} (hin : token.isIn .methodDef = true)
    (hreliable : reliable token .body) (hcallees : ∀ bytes, base.methodBytes? token = some bytes →
      ∀ target, ReadWith base bytes target → reliable target .signature) :
    Agree Q (Option.Rel SameValue) (body? token) (body? token) := by
  refine sim.body hin hreliable fun g h hgh => ?_
  have same := sim.sameBut hgh
  refine AgreeAt.get_bind ?_
  rw [← same.row? _ _ id, ← same.count]
  cases hrow : g.tables.row? .methodDef token.row with
  | none => exact Agree.throw _ hgh
  | some row =>
    dsimp only
    split_ifs with haddress
    · exact Agree.pure .none hgh
    · rw [← same.bodyBytes?]
      cases hbytes : g.bodyBytes? row.methodRva with
      | none => exact Agree.pure .none hgh
      | some bytes =>
        have hfound : g.methodBytes? token = some bytes := by
          simp [Graph.methodBytes?, hrow, haddress, hbytes]
        have hfilling : g.filling? .methodDefinition token .body = some (Graph.readBody bytes) := by
          simp [filling?, hfound]
        have hfilling' : h.filling? .methodDefinition token .body = some (Graph.readBody bytes) :=
          (same.filling? .body id).symm.trans hfilling
        rw [sim.methodBytes? hgh] at hfound
        have hread := sim.readBody (fun _ _ _ => id) (hcallees bytes hfound)
        exact (sim.remember hgh hin hreliable hfilling hfilling' hread).bind
          fun a b hab => .pure (.some hab.1)

/-! ### Names of types -/

theorem typeName {kind : MemberKind} {nameColumn namespaceColumn : Row kind.rowKind → UInt32}
    {token : Token} (hname : nameColumn? kind = some nameColumn)
    (hnamespace : namespaceColumn? kind = some namespaceColumn)
    (hin : token.isIn kind.table = true) (hreliable : reliable token .name)
    (hreliable' : reliable token .qualifier) :
    Agree Q (· = ·) (typeName kind nameColumn namespaceColumn token)
      (typeName kind nameColumn namespaceColumn token) :=
  (sim.qualifier hnamespace hin hreliable').bind_eq fun _ =>
    (sim.name hname hin hreliable).bind_eq fun _ => .pure rfl

theorem enclosingType {token : Token} (hin : token.isIn .typeDef = true)
    (hreliable : reliable token .enclosingType) :
    Agree Q (fun a b => a = b ∧ ∀ found, a = some found →
      known token .enclosingType (some found) ∧ found.isIn .typeDef = true)
      (enclosingType token) (enclosingType token) := by
  have hrelation : relation? .typeDefinition .enclosingType = some enclosingToken? := rfl
  refine sim.known_bind hrelation hin hreliable fun value hknown => ?_
  refine (sim.definition value).mono fun a b hab => ⟨hab.1, fun found hfound => ?_⟩
  obtain ⟨rfl, hin⟩ := hab.2 found hfound
  exact ⟨hknown, hin⟩

theorem fieldTokens {token : Token} (hin : token.isIn .typeDef = true)
    (hreliable : reliable token .fields) :
    Agree Q (· = ·) (fieldTokens token) (fieldTokens token) :=
  have hrelation : relation? .typeDefinition .fields = some _ := rfl
  sim.related_bind hrelation hin hreliable fun _ => .pure rfl

theorem methodTokens {token : Token} (hin : token.isIn .typeDef = true)
    (hreliable : reliable token .methods) :
    Agree Q (· = ·) (methodTokens token) (methodTokens token) :=
  have hrelation : relation? .typeDefinition .methods = some _ := rfl
  sim.related_bind hrelation hin hreliable fun _ => .pure rfl

section Nesting

variable {around : Token → Prop}
variable (hreliable : ∀ token, around token →
  reliable token .name ∧ reliable token .qualifier ∧ reliable token .enclosingType)
variable (hclosed : ∀ inner outer, around inner → known inner .enclosingType (some outer) →
  around outer)
include hreliable hclosed

/-- By induction on how many types may still follow: each step leads to a type definition around the
one before. -/
theorem outwards (start : Token) (left : Nat) :
    ∀ (names : List String) (qualifier : String) (outer : Option Token),
      (∀ found, outer = some found → around found ∧ found.isIn .typeDef = true) →
      Agree Q (· = ·) (outwards start left names qualifier outer)
        (outwards start left names qualifier outer) := by
  induction left with
  | zero =>
    intro names qualifier outer houter
    cases outer with
    | none => exact .pure rfl
    | some outer => exact .throw _
  | succ left ih =>
    intro names qualifier outer houter
    cases outer with
    | none => exact .pure rfl
    | some outer =>
      obtain ⟨haround, hin⟩ := houter outer rfl
      obtain ⟨hname, hqualifier, henclosing⟩ := hreliable outer haround
      refine (sim.name rfl hin hname).bind_eq fun name => ?_
      refine (sim.qualifier rfl hin hqualifier).bind_eq fun qualifier => ?_
      refine (sim.enclosingType hin henclosing).bind fun a b hab => ?_
      obtain ⟨rfl, hfound⟩ := hab
      refine ih _ _ _ fun found h => ?_
      exact ⟨hclosed outer found haround (hfound found h).1, (hfound found h).2⟩

theorem definitionName {token : Token} (hin : token.isIn .typeDef = true)
    (haround : around token) :
    Agree Q (· = ·) (definitionName token) (definitionName token) := by
  obtain ⟨hname, hqualifier, henclosing⟩ := hreliable token haround
  refine Agree.get_bind fun g h hgh => ?_
  rw [(sim.sameBut hgh).count]
  refine (sim.name rfl hin hname).bind_eq fun name => ?_
  refine (sim.qualifier rfl hin hqualifier).bind_eq fun qualifier => ?_
  refine (sim.enclosingType hin henclosing).bind fun a b hab => ?_
  obtain ⟨rfl, hfound⟩ := hab
  refine (sim.outwards hreliable hclosed _ _ _ _ _ fun found h => ?_).bind_eq fun _ => .pure rfl
  exact ⟨hclosed token found haround (hfound found h).1, (hfound found h).2⟩

end Nesting

/-! ### Signatures of methods -/

theorem methodArguments {token : Token} (hin : token.isIn .methodSpec = true)
    (hreliable : reliable token .signature) :
    Agree Q (· = ·) (methodArguments token) (methodArguments token) := by
  have hcolumn : signatureColumn? .methodSpecification = some Row.methodSpecArguments := rfl
  refine (sim.signature hcolumn hin hreliable id fun _ => id).bind_eq fun sig => ?_
  split <;> exact .pure rfl

theorem instantiated? (typeArguments : Option (List TypeSig)) {token : Token}
    (hin : token.isIn .methodSpec = true) (hreliable : reliable token .signature)
    (hgeneric : ∀ row, base.tables.row? .methodSpec token.row = some row →
      reliable row.methodSpecMethod .signature) :
    Agree Q (· = ·) (instantiated? typeArguments token) (instantiated? typeArguments token) := by
  refine (sim.row_found id).bind fun row row' hrow => ?_
  obtain ⟨rfl, hrow⟩ := hrow
  refine (sim.lookup _).bind fun a b hab => ?_
  cases hab with
  | none => exact .pure rfl
  | some hab =>
    have hsignature := sim.methodSignature? (fun _ _ _ => id) hab fun _ _ _ => hgeneric row hrow
    refine hsignature.bind_eq fun sig => ?_
    cases sig with
    | none => exact .pure rfl
    | some sig =>
      refine (sim.methodArguments hin hreliable).bind_eq fun arguments => ?_
      dsimp only
      split
      · exact .pure rfl
      · exact .throw _

/-! ### Properties -/

theorem follow {kind : MemberKind} (column : Row kind.rowKind → Token) (token : Token) :
    Agree Q (fun a b => a.map (fun member => (member.kind, member.token)) =
      b.map fun member => (member.kind, member.token)) (follow kind column token)
      (follow kind column token) := by
  refine (sim.row id).bind_eq fun row => (sim.lookup _).mono fun a b hab => ?_
  cases hab with
  | none => rfl
  | some hab =>
    cases hab
    rfl

theorem implementingType {kind : MemberKind} (column : Row kind.rowKind → UInt32)
    (token : Token) :
    Agree Q (· = ·) (implementingType kind column token) (implementingType kind column token) :=
  (sim.row id).bind_eq fun _ => (sim.definition _).mono fun _ _ hab => hab.1

theorem exportingType (token : Token) :
    Agree Q (· = ·) (exportingType token) (exportingType token) := by
  refine (sim.row id).bind_eq fun row => (sim.find _ _).bind fun a b hab => .pure ?_
  cases hab with
  | none => rfl
  | some hab =>
    cases hab
    rfl

variable {kind : MemberKind} {token : Token} (hin : token.isIn kind.table = true)
include hin

theorem fullName? (hreliable : ∀ target slot, Reads base known kind token .fullName target slot →
      reliable target slot) :
    Agree Q (· = ·) (fullName? kind token) (fullName? kind token) := by
  have hname : reliable token .name := hreliable _ _ (.own (by decide))
  have hqualifier : reliable token .qualifier := hreliable _ _ (.own (by decide))
  cases kind
  case typeDefinition =>
    have hchain : ∀ outer, Relation.ReflTransGen
        (fun inner outer => known inner .enclosingType (some outer)) token outer →
        reliable outer .name ∧ reliable outer .qualifier ∧ reliable outer .enclosingType :=
      fun outer h => ⟨hreliable _ _ (.around h (by decide)), hreliable _ _ (.around h (by decide)),
        hreliable _ _ (.around h (by decide))⟩
    have hself := sim.definitionName hchain (fun _ _ h hknown => h.tail hknown) hin .refl
    exact hself.bind_eq fun _ => .pure rfl
  case typeReference | exportedType =>
    exact (sim.typeName rfl rfl hin hname hqualifier).bind_eq fun _ => .pure rfl
  all_goals exact .pure rfl

theorem inspectColumn {property : Property}
    (hreliable : ∀ target slot, Reads base known kind token property target slot →
      reliable target slot) :
    Agree Q (· = ·) (inspectColumn kind token property) (inspectColumn kind token property) := by
  unfold Graph.inspectColumn
  split
  · exact (sim.row id).bind_eq fun _ => .pure rfl
  · split
    · next column hcolumn =>
      exact (sim.name hcolumn hin (hreliable _ _ (.own (by decide)))).bind_eq fun _ => .pure rfl
    · exact .pure rfl
  · split
    · next column hcolumn =>
      exact (sim.qualifier hcolumn hin (hreliable _ _ (.own (by decide)))).bind_eq
        fun _ => .pure rfl
    · exact .pure rfl
  · exact (sim.fullName? hin hreliable).bind_eq fun _ => .pure rfl
  · split
    · next column hcolumn =>
      exact (sim.signature hcolumn hin (hreliable _ _ (.own (by decide))) id fun _ => id).bind_eq
        fun _ => .pure rfl
    · exact .pure rfl
  · split
    · exact (sim.follow _ token).bind fun a b hab => .pure (by rw [hab])
    · exact .pure rfl

/-- Any property of any member is answered alike, if the slots that it is answered from are
reliable. -/
theorem inspect (typeArguments : Option (List TypeSig)) (property : Property)
    (hreliable : ∀ target slot, Reads base known kind token property target slot →
      reliable target slot) :
    Agree Q (· = ·) (inspect typeArguments kind token property)
      (inspect typeArguments kind token property) := by
  have hown : ∀ slot ∈ ownSlots property, reliable token slot :=
    fun slot hslot => hreliable token slot (.own hslot)
  have hself := sim.inspectColumn hin hreliable
  unfold Graph.inspect
  split
  -- Lists and definitions that follow a relation.
  case h_3 | h_8 | h_9 | h_10 | h_11 | h_12 =>
    exact (sim.related_bind rfl hin (hown _ (by decide)) (sim.findAll _)).bind_eq
      fun _ => .pure rfl
  case h_13 | h_14 | h_15 =>
    exact (sim.related_bind rfl hin (hown _ (by decide)) fun value =>
      (sim.definition value).mono fun _ _ hab => hab.1).bind_eq fun _ => .pure rfl
  case h_2 =>
    exact (sim.enclosingType hin (hown _ (by decide))).bind fun a b hab => .pure (by rw [hab.1])
  case h_4 => exact (sim.fieldTokens hin (hown _ (by decide))).bind_eq fun _ => .pure rfl
  case h_6 => exact (sim.methodTokens hin (hown _ (by decide))).bind_eq fun _ => .pure rfl
  case h_5 =>
    exact ((sim.fieldTokens hin (hown _ (by decide))).bind_eq (sim.findAll _)).bind_eq
      fun _ => .pure rfl
  case h_7 =>
    exact ((sim.methodTokens hin (hown _ (by decide))).bind_eq (sim.findAll _)).bind_eq
      fun _ => .pure rfl
  -- What stands in the row itself, or is one step away from it.
  case h_1 | h_17 | h_24 | h_26 | h_27 => exact (sim.row id).bind_eq fun _ => .pure rfl
  case h_18 => exact ((sim.row id).bind_eq fun _ => .pure rfl).bind_eq fun _ => .pure rfl
  case h_22 | h_23 => exact (sim.implementingType _ _).bind_eq fun _ => .pure rfl
  case h_25 => exact (sim.permissionSet hin (hown _ (by decide))).bind_eq fun _ => .pure rfl
  case h_28 => exact (sim.exportingType token).bind_eq fun _ => .pure rfl
  -- Signatures and bodies.
  case h_16 =>
    have hcallees : ∀ bytes, base.methodBytes? token = some bytes →
        ∀ target, ReadWith base bytes target → reliable target .signature :=
      fun bytes hbytes target hreads => hreliable target _ (.callee hbytes hreads)
    refine (sim.body? hin (hown _ (by decide)) hcallees).bind fun a b hab => .pure ?_
    cases hab with
    | none => rfl
    | some hab => rw [Option.map_some, Option.map_some, hab]
  case h_19 => exact .pure rfl
  case h_20 => exact (sim.methodArguments hin (hown _ (by decide))).bind_eq fun _ => .pure rfl
  case h_21 =>
    have hgeneric : ∀ row, base.tables.row? .methodSpec token.row = some row →
        reliable row.methodSpecMethod .signature :=
      fun row hrow => hreliable _ _ (.generic hrow)
    exact (sim.instantiated? typeArguments hin (hown _ (by decide)) hgeneric).bind_eq
      fun _ => .pure rfl
  -- Everything that kinds of member have in common.
  case h_29 => exact hself

end Simulation

end CilMetadata.Graph

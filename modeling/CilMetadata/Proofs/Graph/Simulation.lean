import CilMetadata.Proofs.Graph.Agreement
import CilMetadata.Proofs.Graph.Dependence
import Mathlib.Tactic.Common

/-!
# Simulations between graphs

A relation between graphs is a simulation when the steps that make members and keep values agree
along it. Then all steps do, down to the reading of signatures and bodies.

* `Simulation changed reliable known base base' Q` is what has to be shown of the relation `Q`, on
  modules that agree but for `changed` rows, for the slots that are `reliable`;
* `ReadWith` lists the members with whose signatures a method body is read;
* `Simulation.filling`: the steps that fill slots agree, wherever their sources have not changed.
-/

namespace CilMetadata.Graph

/-- Two objects of one kind that stand for the row of a token. -/
inductive Twins (token : Token) : Member → Member → Prop
  | intro {kind : MemberKind} (hin : token.isIn kind.table = true) (object object' : Nat) :
    Twins token ⟨kind, token, object⟩ ⟨kind, token, object'⟩

/-- Two objects with the same value. -/
abbrev SameValue {α : Type} (a b : Kept α) : Prop := a.value = b.value

/-- The body of a method, if it has not been kept. -/
def unkeptBody? (token : Token) : GraphM (Option (Kept MethodBody)) := do
  let g ← get
  match g.tables.row? .methodDef token.row with
  | none => throw (.rowOutOfRange .methodDef token.row (g.tables.count .methodDef))
  | some row =>
    if row.methodRva = 0 then return none
    else
      match g.bodyBytes? row.methodRva with
      | none => return none
      | some bytes => return some (← remember token .body (readBody bytes))

theorem body?_of_kept {g : Graph} {token : Token} {kept : Kept MethodBody}
    (h : g.kept? token .body = some kept) : body? token g = .ok (some kept) g := by
  unfold body?
  rw [get_bind_apply, h]
  rfl

theorem body?_of_not_kept {g : Graph} {token : Token} (h : g.kept? token .body = none) :
    body? token g = unkeptBody? token g := by
  unfold body? unkeptBody? row
  rw [get_bind_apply, get_bind_apply, h]
  dsimp only
  rw [bind_assoc, get_bind_apply]
  cases g.tables.row? .methodDef token.row with
  | none => rfl
  | some row =>
    rw [pure_bind]
    dsimp only
    split <;> rfl

theorem unkeptBody?_of_methodBytes? {g : Graph} {token : Token} {bytes : Array UInt8}
    (h : g.methodBytes? token = some bytes) :
    unkeptBody? token g = (some <$> remember token .body (readBody bytes)) g := by
  obtain ⟨row, hrow, hfound⟩ := Option.bind_eq_some_iff.1 h
  obtain ⟨haddress, hbody⟩ := Option.ite_none_left_eq_some.1 hfound
  unfold unkeptBody?
  rw [get_bind_apply, hrow]
  dsimp only
  rw [if_neg haddress, hbody]
  rfl

/-- Every slot is reliable. -/
abbrev EverySlot : Token → Slot → Prop := fun _ _ => True

/-- What makes a relation between graphs a simulation: related graphs stand on the modules of `base`
and `base'`, which agree but for the changed rows, and making a member or keeping a value in a
reliable slot leads from related graphs to related graphs and to the same answer, a `known` one. -/
structure Simulation (changed : RowKind → Nat → Prop) (reliable : Token → Slot → Prop)
    (known : Token → (slot : Slot) → slot.Value → Prop) (base base' : Graph)
    (Q : Graph → Graph → Prop) : Prop where
  same : SameBut changed base base'
  bare : ∀ {g h}, Q g h → g.bare = base.bare ∧ h.bare = base'.bare
  memberOf : ∀ {kind : MemberKind} {token : Token}, token.isIn kind.table = true →
    Agree Q (Twins token) (memberOf kind token) (memberOf kind token)
  remember : ∀ {kind : MemberKind} {token : Token} {slot : Slot} {step : GraphM slot.Value} {g h},
    Q g h → token.isIn kind.table = true → reliable token slot →
    g.filling? kind token slot = some step → h.filling? kind token slot = some step →
    Agree Q (· = ·) step step →
    AgreeAt Q (fun a b => a.value = b.value ∧ known token slot a.value)
      (remember token slot step) (remember token slot step) g h
  body : ∀ {token : Token}, token.isIn .methodDef = true → reliable token .body →
    Agree Q (Option.Rel SameValue) (unkeptBody? token) (unkeptBody? token) →
    Agree Q (Option.Rel SameValue) (body? token) (body? token)

namespace Simulation

variable {changed : RowKind → Nat → Prop} {reliable : Token → Slot → Prop}
variable {known : Token → (slot : Slot) → slot.Value → Prop} {base base' : Graph}
variable {Q : Graph → Graph → Prop} (sim : Simulation changed reliable known base base' Q)
include sim

/-! ### Rows and heaps -/

theorem sameBut {g h : Graph} (hgh : Q g h) : SameBut changed g h :=
  sim.same.of_bare (sim.bare hgh).1 (sim.bare hgh).2

theorem tables {g h : Graph} (hgh : Q g h) : g.tables = base.tables := by
  have htables := congrArg Graph.tables (sim.bare hgh).1
  exact htables

theorem settings {g h : Graph} (hgh : Q g h) : g.settings = base.settings := by
  have hsettings := congrArg Graph.settings (sim.bare hgh).1
  exact hsettings

theorem methodBytes? {g h : Graph} (hgh : Q g h) (token : Token) :
    g.methodBytes? token = base.methodBytes? token := by
  have hbytes := congrArg (Graph.methodBytes? · token) (sim.bare hgh).1
  exact hbytes

/-- A row that is found is the one of the module. -/
theorem row_found {kind : RowKind} {token : Token} (hrow : ¬ changed kind token.row) :
    Agree Q (fun a b => a = b ∧ base.tables.row? kind token.row = some a) (row kind token)
      (row kind token) := by
  unfold Graph.row
  refine Agree.get_bind fun g h hgh => ?_
  have same := sim.sameBut hgh
  simp only [← same.row? _ _ hrow, ← same.count, sim.tables hgh]
  cases base.tables.row? kind token.row with
  | none => exact .throw _
  | some row => exact .pure ⟨rfl, rfl⟩

theorem row {kind : RowKind} {token : Token} (hrow : ¬ changed kind token.row) :
    Agree Q (· = ·) (row kind token) (row kind token) :=
  (sim.row_found hrow).mono fun _ _ hab => hab.1

theorem string (index : UInt32) : Agree Q (· = ·) (string index) (string index) := by
  unfold Graph.string
  refine Agree.get_bind fun g h hgh => ?_
  rw [(sim.sameBut hgh).heaps]
  cases h.heaps.strings.get index.toNat with
  | error fault => exact .throw _
  | ok text => exact .pure rfl

theorem blob (index : UInt32) : Agree Q (· = ·) (blob index) (blob index) := by
  unfold Graph.blob
  refine Agree.get_bind fun g h hgh => ?_
  rw [(sim.sameBut hgh).heaps]
  cases h.heaps.blobs.get? index.toNat with
  | none => exact .throw _
  | some blob => exact .pure rfl

theorem readSignature (hspec : ∀ rid, ¬ changed .typeSpec rid) (kind : SigKind)
    (expanding : Expansions) (blob : Array UInt8) :
    Agree Q (· = ·) (readSignature kind expanding blob) (readSignature kind expanding blob) := by
  unfold Graph.readSignature
  refine Agree.get_bind fun g h hgh => ?_
  have same := sim.sameBut hgh
  simp only [same.resolver hspec, same.settings]
  split
  · exact .pure rfl
  · exact .throw _

theorem freshSignature {kind : MemberKind} {token : Token}
    (column : Row kind.rowKind → UInt32) (hrow : ¬ changed kind.rowKind token.row)
    (hspec : ∀ rid, ¬ changed .typeSpec rid) :
    Agree Q (· = ·) (freshSignature kind column token) (freshSignature kind column token) :=
  (sim.row hrow).bind_eq fun row =>
    (sim.blob (column row)).bind_eq fun blob => sim.readSignature hspec _ _ blob

/-! ### Members -/

theorem lookup (token : Token) :
    Agree Q (Option.Rel (Twins token)) (lookup token) (lookup token) := by
  unfold Graph.lookup
  refine Agree.get_bind fun g h hgh => ?_
  rw [(sim.sameBut hgh).contains]
  cases h.tables.contains token with
  | false => exact .pure .none
  | true =>
    cases hkind : token.table?.bind MemberKind.ofTable? with
    | none => exact .pure .none
    | some kind =>
      obtain ⟨table, htable, hof⟩ := Option.bind_eq_some_iff.1 hkind
      have hin : token.isIn kind.table = true := by
        rw [MemberKind.ofTable?_eq_some hof]
        exact Token.isIn_of_table? htable
      exact (sim.memberOf hin).bind fun a b hab => .pure (.some hab)

theorem find (kind : MemberKind) (token : Token) :
    Agree Q (Option.Rel (Twins token)) (find kind token) (find kind token) := by
  unfold Graph.find
  split
  · exact sim.lookup token
  · exact .pure .none

theorem findAll (kind : MemberKind) (tokens : List Token) :
    Agree Q (· = ·) (findAll kind tokens) (findAll kind tokens) := by
  induction tokens with
  | nil => exact .pure rfl
  | cons token rest ih =>
    refine (sim.find kind token).bind fun a b hab => ?_
    cases hab with
    | none => exact ih
    | some hab =>
      cases hab
      exact ih.bind_eq fun others => .pure rfl

theorem membersOf (kind : MemberKind) :
    Agree Q (· = ·) (membersOf kind) (membersOf kind) := by
  unfold Graph.membersOf
  refine Agree.get_bind fun g h hgh => ?_
  rw [(sim.sameBut hgh).count]
  exact sim.findAll kind _

/-- A definition that is found is the type definition that has been asked for. -/
theorem definition (token : Option Token) :
    Agree Q (fun a b => a = b ∧ ∀ found, a = some found →
      token = some found ∧ found.isIn .typeDef = true) (definition token) (definition token) := by
  cases token with
  | none => exact .pure ⟨rfl, by simp⟩
  | some token =>
    have hfind : Agree Q (Option.Rel (Twins token)) (Graph.find .typeDefinition token)
        (Graph.find .typeDefinition token) := sim.find _ token
    unfold Graph.definition
    dsimp only
    by_cases hin : token.isIn .typeDef = true
    · refine hfind.bind fun a b hab => .pure ?_
      cases hab with
      | none => exact ⟨rfl, by simp⟩
      | some hab =>
        cases hab
        exact ⟨rfl, by simpa using hin⟩
    · have hnone : Graph.find .typeDefinition token = pure none := if_neg hin
      rw [hnone]
      exact .pure ⟨rfl, by simp⟩

/-! ### Signatures and bodies -/

theorem signature {kind : MemberKind} {column : Row kind.rowKind → UInt32} {token : Token}
    (hcolumn : signatureColumn? kind = some column) (hin : token.isIn kind.table = true)
    (hreliable : reliable token .signature) (hrow : ¬ changed kind.rowKind token.row)
    (hspec : ∀ rid, ¬ changed .typeSpec rid) :
    Agree Q (· = ·) (signature kind column token) (signature kind column token) := by
  intro g h hgh
  have hfilling : ∀ g : Graph, g.filling? kind token .signature =
      some (Graph.freshSignature kind column token) := fun g => by simp [filling?, hcolumn]
  exact (sim.remember hgh hin hreliable (hfilling g) (hfilling h)
    (sim.freshSignature column hrow hspec)).bind fun a b hab => .pure hab.1

end Simulation

/-! ### What bodies are read with -/

/-- The opcodes of instructions whose effect depends on the signature that they call. -/
def callValues : List UInt16 :=
  [Opcode.callValue, Opcode.callvirtValue, Opcode.newobjValue, Opcode.calliValue]

/-- The kinds of member whose own signature may be called. -/
def calleeKinds : List MemberKind := [.methodDefinition, .memberReference, .standAloneSignature]

/-- The signature of a member decides the effect of an instruction: the instruction calls the
member, or an instance of it. -/
inductive Calls (g : Graph) (ins : Instruction) : Token → Prop
  | direct {kind : MemberKind} {token : Token} (hcall : ins.opcode.value ∈ callValues)
    (htoken : ins.token? = some token) (hkind : kind ∈ calleeKinds)
    (hin : token.isIn kind.table = true) : Calls g ins token
  | generic {token : Token} {row : Row .methodSpec} (hcall : ins.opcode.value ∈ callValues)
    (htoken : ins.token? = some token) (hin : token.isIn .methodSpec = true)
    (hrow : g.tables.row? .methodSpec token.row = some row) : Calls g ins row.methodSpecMethod

/-- The body in some bytes is read with the signature of a member: the one of its local variables,
or one that an instruction calls. -/
inductive ReadWith (g : Graph) (bytes : Array UInt8) : Token → Prop
  | locals {body : MethodBody} (hbody : MethodBody.read g.settings bytes = .ok body)
    (hreads : g.settings.readsLocals = true) : ReadWith g bytes body.localsToken
  | call {body : MethodBody} {ins : Instruction} {target : Token}
    (hbody : MethodBody.read g.settings bytes = .ok body)
    (hannotates : g.settings.annotatesCalls = true) (hins : ins ∈ body.instructions)
    (hcalls : Calls g ins target) : ReadWith g bytes target

namespace Simulation

variable {changed : RowKind → Nat → Prop} {reliable : Token → Slot → Prop}
variable {known : Token → (slot : Slot) → slot.Value → Prop} {base base' : Graph}
variable {Q : Graph → Graph → Prop} (sim : Simulation changed reliable known base base' Q)
variable (hsources : ∀ source ∈ bodySources, ∀ rid, ¬ changed source rid)
include sim hsources

theorem calleeSignature {kind : MemberKind} {column : Row kind.rowKind → UInt32} {token : Token}
    (hkind : kind ∈ calleeKinds) (hcolumn : signatureColumn? kind = some column)
    (hin : token.isIn kind.table = true) (hreliable : reliable token .signature) :
    Agree Q (· = ·) (Graph.signature kind column token) (Graph.signature kind column token) := by
  have hrow : kind.rowKind ∈ bodySources := by
    simp only [calleeKinds, List.mem_cons, List.not_mem_nil, or_false] at hkind
    obtain rfl | rfl | rfl := hkind <;> decide
  exact sim.signature hcolumn hin hreliable (hsources _ hrow _) (hsources _ (by decide))

theorem methodSignature? {token : Token} {a b : Member} (hab : Twins token a b)
    (hreliable : ∀ kind ∈ calleeKinds, token.isIn kind.table = true → reliable token .signature) :
    Agree Q (· = ·) (methodSignature? a) (methodSignature? b) := by
  obtain @⟨kind, hin, object, object'⟩ := hab
  cases kind
  case methodDefinition | memberReference =>
    refine (sim.calleeSignature hsources (by decide) rfl hin
      (hreliable _ (by decide) hin)).bind_eq fun sig => ?_
    cases sig <;> exact .pure rfl
  all_goals exact .pure rfl

theorem calleeOf {token : Token} {a b : Member} (hab : Twins token a b)
    (hreliable : ∀ kind ∈ calleeKinds, token.isIn kind.table = true → reliable token .signature) :
    Agree Q (· = ·) (calleeOf a) (calleeOf b) :=
  (sim.methodSignature? hsources hab hreliable).attempt_eq.bind_eq fun _ => .pure rfl

theorem genericMethod? (token : Token) :
    Agree Q (Option.Rel fun a b => ∃ row, base.tables.row? .methodSpec token.row = some row ∧
      Twins row.methodSpecMethod a b) (genericMethod? token) (genericMethod? token) := by
  refine (sim.row_found (hsources .methodSpec (by decide) _)).bind fun row row' hrow => ?_
  obtain ⟨rfl, hrow⟩ := hrow
  refine (sim.lookup _).mono fun a b hab => ?_
  cases hab with
  | none => exact .none
  | some hab => exact .some ⟨row, hrow, hab⟩

section Calls

variable {ins : Instruction} (hcalls : ∀ target, Calls base ins target → reliable target .signature)
variable {token : Token} (htoken : ins.token? = some token)
include hcalls htoken

theorem callee? (hcall : ins.opcode.value ∈ callValues) {a b : Member} (hab : Twins token a b) :
    Agree Q (· = ·) (callee? a) (callee? b) := by
  have hself := sim.calleeOf hsources hab fun kind hkind hin =>
    hcalls token (.direct hcall htoken hkind hin)
  obtain @⟨kind, hin, object, object'⟩ := hab
  unfold Graph.callee?
  split
  · next hkind =>
    obtain rfl : kind = .methodSpecification := hkind
    refine (sim.genericMethod? hsources token).attempt.bind fun x y hxy => ?_
    cases hxy with
    | error fault => exact .pure rfl
    | ok hmethod =>
      cases hmethod with
      | none => exact .pure rfl
      | some hmethod =>
        obtain ⟨row, hrow, hmethod⟩ := hmethod
        exact sim.calleeOf hsources hmethod fun _ _ _ =>
          hcalls _ (.generic hcall htoken hin hrow)
  · exact hself

theorem effectOf? {a b : Member} (hab : Twins token a b) :
    Agree Q (· = ·) (effectOf? ins.opcode.value a) (effectOf? ins.opcode.value b) := by
  have hcallee := fun hcall => sim.callee? hsources hcalls htoken hcall hab
  obtain @⟨kind, hin, object, object'⟩ := hab
  unfold Graph.effectOf?
  dsimp only
  split_ifs with hcall hnew hpointer
  · have hvalue : ins.opcode.value ∈ callValues := by
      obtain hcall | hcall := hcall <;> simp [callValues, hcall]
    exact (hcallee hvalue).bind_eq fun sig => .pure rfl
  · exact (hcallee (by simp [callValues, hnew])).bind_eq fun sig => .pure rfl
  · obtain ⟨hpointer, rfl⟩ := hpointer
    have hsite : MemberKind.standAloneSignature ∈ calleeKinds := by decide
    have hreliable := hcalls token (.direct (by simp [callValues, hpointer]) htoken hsite hin)
    refine (sim.calleeSignature hsources hsite rfl hin hreliable).attempt_eq.bind_eq fun sig => ?_
    split <;> exact .pure rfl
  · exact .pure rfl

end Calls

theorem annotate {ins : Instruction}
    (hcalls : ∀ target, Calls base ins target → reliable target .signature) :
    Agree Q (· = ·) (annotate ins) (annotate ins) := by
  unfold Graph.annotate
  split
  · exact .pure rfl
  · next token htoken =>
    split_ifs
    · exact .pure rfl
    · refine (sim.lookup _).bind fun a b hab => ?_
      cases hab with
      | none => exact .pure rfl
      | some hab =>
        exact (sim.effectOf? hsources hcalls htoken hab).bind_eq fun effect => .pure rfl

theorem annotateAll {instructions : List Instruction}
    (hcalls : ∀ ins ∈ instructions, ∀ target, Calls base ins target → reliable target .signature) :
    Agree Q (· = ·) (annotateAll instructions) (annotateAll instructions) := by
  induction instructions with
  | nil => exact .pure rfl
  | cons ins rest ih =>
    have hrest := ih fun other hother => hcalls other (List.mem_cons_of_mem _ hother)
    exact (sim.annotate hsources (hcalls ins List.mem_cons_self)).bind_eq fun ins =>
      hrest.bind_eq fun others => .pure rfl

theorem localsOf {token : Token} (hreliable : reliable token .signature) :
    Agree Q (· = ·) (localsOf token) (localsOf token) := by
  unfold Graph.localsOf
  refine (sim.lookup token).bind fun a b hab => ?_
  cases hab with
  | none => exact .pure rfl
  | some hab =>
    obtain @⟨kind, hin, object, object'⟩ := hab
    cases kind
    case standAloneSignature =>
      have hsite : MemberKind.standAloneSignature ∈ calleeKinds := by decide
      refine (sim.calleeSignature hsources hsite rfl hin hreliable).attempt_eq.bind_eq
        fun sig => ?_
      split <;> exact .pure rfl
    all_goals exact .pure rfl

theorem readBody {bytes : Array UInt8}
    (hreliable : ∀ target, ReadWith base bytes target → reliable target .signature) :
    Agree Q (· = ·) (readBody bytes) (readBody bytes) := by
  unfold Graph.readBody
  refine Agree.get_bind fun g h hgh => ?_
  rw [← (sim.sameBut hgh).settings, sim.settings hgh]
  dsimp only
  split
  · exact .throw _
  · next body hbody =>
    refine Agree.ite_bind (fun hlocals => ?_) (.pure rfl) fun locals =>
      Agree.ite_bind (fun hannotates => ?_) (.pure rfl) fun _ => .pure rfl
    · exact sim.localsOf hsources (hreliable _ (.locals hbody (Bool.and_eq_true_iff.1 hlocals).1))
    · exact sim.annotateAll hsources fun ins hins target htarget =>
        hreliable target (.call hbody hannotates hins htarget)

end Simulation

namespace Simulation

variable {changed : RowKind → Nat → Prop} {reliable : Token → Slot → Prop}
variable {known : Token → (slot : Slot) → slot.Value → Prop} {base base' : Graph}
variable {Q : Graph → Graph → Prop} (sim : Simulation changed reliable known base base' Q)
include sim

/-- The step that fills a slot agrees with itself where the row of the member and the sources of the
slot are unchanged. -/
theorem filling {g : Graph} {kind : MemberKind} {token : Token} {slot : Slot}
    {step : GraphM slot.Value} (hfilling : g.filling? kind token slot = some step)
    (hrow : ¬ changed kind.rowKind token.row)
    (hsources : ∀ source ∈ slot.sources kind, ∀ rid, ¬ changed source rid)
    (hbody : slot = .body → ∀ bytes, g.methodBytes? token = some bytes →
      ∀ target, ReadWith base bytes target → reliable target .signature) :
    Agree Q (· = ·) step step := by
  cases slot
  case name | qualifier =>
    obtain ⟨column, -, rfl⟩ := Option.map_eq_some_iff.1 hfilling
    exact (sim.row hrow).bind_eq fun row => sim.string (column row)
  case signature =>
    obtain ⟨column, -, rfl⟩ := Option.map_eq_some_iff.1 hfilling
    exact sim.freshSignature column hrow (hsources .typeSpec (List.mem_singleton_self _))
  case permissionSet =>
    obtain ⟨rfl, h⟩ := Option.ite_none_right_eq_some.1 hfilling
    cases h
    exact (sim.row hrow).bind_eq fun row => sim.blob row.permissionSet
  case body =>
    obtain ⟨-, h⟩ := Option.ite_none_right_eq_some.1 hfilling
    obtain ⟨bytes, hbytes, rfl⟩ := Option.map_eq_some_iff.1 h
    exact sim.readBody hsources (hbody rfl bytes hbytes)
  all_goals
    obtain ⟨relation, hrelation, rfl⟩ := Option.map_eq_some_iff.1 hfilling
    refine Agree.get_bind fun g h hgh => ?_
    rw [(sim.sameBut hgh).relation hrelation hsources token]
    exact .pure rfl

end Simulation

end CilMetadata.Graph

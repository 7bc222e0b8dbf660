import CilMetadata.Proofs.Graph.Laziness
import Mathlib.Data.List.Forall2

/-!
# Bodies in modules with related signatures

What a method body learns from its module are the effects of its calls, and these follow from the
signatures of the methods that are called. So modules of which these signatures are related read
bodies that are the same but for related effects.

* `CalleesAlike R` relates modules whose signatures of methods are related by `R`;
* `EffectsAlike R E` says that related signatures have effects related by `E`;
* `CalleesAlike.readBody` is the result; on the way there, each step of reading a body agrees with
  itself on graphs that are coherent on the two modules.
-/

namespace CilMetadata.Graph

/-! ### What is related -/

/-- Two signatures that are the same, or are related signatures of methods. -/
inductive SigAlike (R : MethodSig → MethodSig → Prop) : Signature → Signature → Prop
  | method {a b : MethodSig} (h : R a b) : SigAlike R (.method a) (.method b)
  | other {sig : Signature} (h : sig.kind ≠ .method) : SigAlike R sig sig

/-- Two modules with the same rows to look up, whose signatures of methods are related. -/
structure CalleesAlike (R : MethodSig → MethodSig → Prop) (base base' : Graph) : Prop where
  settings : base.settings = base'.settings
  count : ∀ table, base.tables.count table = base'.tables.count table
  generic : ∀ rid, (base.tables.row? .methodSpec rid).map Row.methodSpecMethod =
    (base'.tables.row? .methodSpec rid).map Row.methodSpecMethod
  signature : ∀ kind ∈ calleeKinds, ∀ column, signatureColumn? kind = some column →
    ∀ token, token.isIn kind.table = true →
      Alike (SigAlike R) (outcome (freshSignature kind column token) base.bare)
        (outcome (freshSignature kind column token) base'.bare)

/-- Related signatures have related effects, however they are called. -/
structure EffectsAlike (R : MethodSig → MethodSig → Prop) (E : StackEffect → StackEffect → Prop) :
    Prop where
  same : ∀ effect, E effect effect
  call : ∀ {a b}, R a b → E (callEffect a) (callEffect b)
  construction : ∀ {a b}, R a b → E (constructorEffect a) (constructorEffect b)
  pointerCall : ∀ {a b}, R a b → E (pointerCallEffect a) (pointerCallEffect b)

/-- Two instructions that are the same but for related effects of a call. -/
def InsAlike (E : StackEffect → StackEffect → Prop) (ins ins' : Instruction) : Prop :=
  ∃ effect, Option.Rel E ins.callEffect effect ∧ ins' = { ins with callEffect := effect }

/-- Two bodies that are the same but for related effects of calls. -/
def BodyAlike (E : StackEffect → StackEffect → Prop) (body body' : MethodBody) : Prop :=
  ∃ instructions, List.Forall₂ (InsAlike E) body.instructions instructions ∧
    body' = { body with instructions }

theorem EffectsAlike.insAlike {R : MethodSig → MethodSig → Prop}
    {E : StackEffect → StackEffect → Prop} (effects : EffectsAlike R E) (ins : Instruction) :
    InsAlike E ins ins := by
  refine ⟨ins.callEffect, ?_, rfl⟩
  cases ins.callEffect with
  | none => exact .none
  | some effect => exact .some (effects.same effect)

/-- Two graphs that are coherent on two modules. -/
abbrev BothCoherent (base base' : Graph) (g h : Graph) : Prop :=
  Coherent EverySlot base g ∧ Coherent EverySlot base' h

variable {R : MethodSig → MethodSig → Prop} {E : StackEffect → StackEffect → Prop}
variable {base base' g h : Graph}

/-! ### Steps that agree -/

/-- Of two outcomes that are alike what is answered, if there is an answer. -/
theorem Alike.answer {α β : Type} {S : α → β → Prop} {x : Except Fault (Option α)}
    {y : Except Fault (Option β)} (h : Alike (Option.Rel S) x y) :
    Option.Rel S x.toOption.join y.toOption.join := by
  cases h with
  | ok hanswer => exact hanswer
  | error => exact .none

namespace Coherent

/-- A signature is answered as it is read on the bare module. -/
theorem signature (hg : Coherent EverySlot base g) {kind : MemberKind}
    {column : Row kind.rowKind → UInt32} (hcolumn : signatureColumn? kind = some column)
    {token : Token} (hin : token.isIn kind.table = true) :
    outcome (signature kind column token) g =
        outcome (freshSignature kind column token) base.bare ∧
      Coherent EverySlot base (after (Graph.signature kind column token) g) := by
  have sim := Coherent.simulation EverySlot (SameBut.refl NoRow base)
  have hbare := coherent_bare EverySlot base
  have hafter := (sim.signature hcolumn hin trivial id (fun _ => id) ⟨hg, hbare⟩).after.1
  have hfresh : AgreeAt (BothCoherent base base) (· = ·) (freshSignature kind column token)
      (freshSignature kind column token) g base.bare :=
    sim.freshSignature column id (fun _ => id) ⟨hg, hbare⟩
  have hfilling : g.filling? kind token .signature = some (freshSignature kind column token) := by
    simp [filling?, hcolumn]
  have hremember := (hg.remember trivial hin hfilling hfresh.outcome.eq hfresh.after.1).1
  refine ⟨?_, hafter⟩
  rw [Graph.signature, outcome_bind]
  generalize outcome (freshSignature kind column token) base.bare = read at hremember ⊢
  generalize outcome (Graph.remember token Slot.signature (freshSignature kind column token)) g =
    kept at hremember ⊢
  cases hremember with
  | ok h => exact congrArg Except.ok h.1
  | error fault => rfl

end Coherent

namespace CalleesAlike

variable (callees : CalleesAlike R base base')
include callees

theorem lookup (token : Token) :
    Agree (BothCoherent base base') (Option.Rel (Twins token)) (lookup token) (lookup token) := by
  unfold Graph.lookup
  refine Agree.get_bind fun g h ⟨hg, hh⟩ => ?_
  have hcontains : g.tables.contains token = h.tables.contains token := by
    simp only [Tables.contains, hg.tables, hh.tables, callees.count]
  rw [hcontains]
  cases h.tables.contains token with
  | false => exact .pure .none
  | true =>
    cases hkind : token.table?.bind MemberKind.ofTable? with
    | none => exact .pure .none
    | some kind =>
      obtain ⟨table, htable, hof⟩ := Option.bind_eq_some_iff.1 hkind
      have hin : token.isIn kind.table = true := by
        rw [MemberKind.ofTable?_eq_some hof]
        exact Token.isIn_of_table? htable
      have hmember : Agree (BothCoherent base base') (Twins token) (memberOf kind token)
          (memberOf kind token) := by
        rintro g h ⟨hg, hh⟩
        obtain ⟨object, g', hstep, hg'⟩ := hg.memberOf hin
        obtain ⟨object', h', hstep', hh'⟩ := hh.memberOf hin
        exact .of_ok hstep hstep' (.intro hin object object') ⟨hg', hh'⟩
      exact hmember.bind fun a b hab => .pure (.some hab)

theorem signature_agree {kind : MemberKind} (hkind : kind ∈ calleeKinds)
    {column : Row kind.rowKind → UInt32} (hcolumn : signatureColumn? kind = some column)
    {token : Token} (hin : token.isIn kind.table = true) :
    Agree (BothCoherent base base') (SigAlike R) (Graph.signature kind column token)
      (Graph.signature kind column token) := by
  rintro g h ⟨hg, hh⟩
  obtain ⟨houtcome, hafter⟩ := hg.signature hcolumn hin
  obtain ⟨houtcome', hafter'⟩ := hh.signature hcolumn hin
  refine ⟨?_, hafter, hafter'⟩
  rw [houtcome, houtcome']
  exact callees.signature kind hkind column hcolumn token hin

theorem methodSignature? {token : Token} {a b : Member} (hab : Twins token a b) :
    Agree (BothCoherent base base') (Option.Rel R) (methodSignature? a) (methodSignature? b) := by
  obtain @⟨kind, hin, object, object'⟩ := hab
  cases kind
  case methodDefinition | memberReference =>
    refine (callees.signature_agree (by decide) rfl hin).bind fun sig sig' hsig => ?_
    cases hsig with
    | method h => exact .pure (.some h)
    | other h =>
      cases sig with
      | method => exact absurd rfl h
      | _ => exact .pure .none
  all_goals exact .pure .none

theorem calleeOf {token : Token} {a b : Member} (hab : Twins token a b) :
    Agree (BothCoherent base base') (Option.Rel R) (calleeOf a) (calleeOf b) :=
  (callees.methodSignature? hab).attempt.bind fun _ _ hxy => .pure hxy.answer

theorem genericMethod? (token : Token) :
    Agree (BothCoherent base base') (Option.Rel fun a b => ∃ method, Twins method a b)
      (genericMethod? token) (genericMethod? token) := by
  unfold Graph.genericMethod? row
  rw [bind_assoc]
  refine Agree.get_bind fun g h ⟨hg, hh⟩ => ?_
  have hmethod := callees.generic token.row
  simp only [hg.tables, hh.tables, callees.count]
  cases hrow : base.tables.row? .methodSpec token.row with
  | none =>
    rw [hrow, Option.map_none, eq_comm, Option.map_eq_none_iff] at hmethod
    rw [hmethod]
    exact .throw _
  | some row =>
    rw [hrow, Option.map_some, eq_comm] at hmethod
    obtain ⟨row', hrow', hsame⟩ := Option.map_eq_some_iff.1 hmethod
    rw [hrow']
    simp only [pure_bind, hsame]
    refine (callees.lookup _).mono fun a b hab => ?_
    cases hab with
    | none => exact .none
    | some hab => exact .some ⟨_, hab⟩

theorem callee? {token : Token} {a b : Member} (hab : Twins token a b) :
    Agree (BothCoherent base base') (Option.Rel R) (callee? a) (callee? b) := by
  have hself := callees.calleeOf hab
  obtain @⟨kind, hin, object, object'⟩ := hab
  unfold Graph.callee?
  split
  · refine (callees.genericMethod? token).attempt.bind fun x y hxy => ?_
    have hanswer := hxy.answer
    generalize x.toOption.join = method at hanswer
    generalize y.toOption.join = method' at hanswer
    cases hanswer with
    | none => exact .pure .none
    | some hmember =>
      obtain ⟨method, hmember⟩ := hmember
      exact callees.calleeOf hmember
  · exact hself

variable (effects : EffectsAlike R E)
include effects

theorem effectOf? (value : UInt16) {token : Token} {a b : Member} (hab : Twins token a b) :
    Agree (BothCoherent base base') (Option.Rel E) (effectOf? value a) (effectOf? value b) := by
  have hcallee := callees.callee? hab
  obtain @⟨kind, hin, object, object'⟩ := hab
  unfold Graph.effectOf?
  split_ifs with hcall hnew hpointer
  · refine hcallee.bind fun x y hxy => .pure ?_
    cases hxy with
    | none => exact .none
    | some hsig => exact .some (effects.call hsig)
  · refine hcallee.bind fun x y hxy => .pure ?_
    cases hxy with
    | none => exact .none
    | some hsig => exact .some (effects.construction hsig)
  · obtain ⟨-, rfl⟩ : value = Opcode.calliValue ∧ kind = .standAloneSignature := hpointer
    refine (callees.signature_agree (by decide) rfl hin).attempt.bind fun x y hxy => ?_
    cases hxy with
    | error => exact .pure .none
    | @ok sig sig' hsig =>
      cases hsig with
      | method h => exact .pure (.some (effects.pointerCall h))
      | other h =>
        cases sig with
        | method => exact absurd rfl h
        | _ => exact .pure .none
  · exact .pure .none

theorem annotate (ins : Instruction) :
    Agree (BothCoherent base base') (InsAlike E) (annotate ins) (annotate ins) := by
  have hself := effects.insAlike ins
  unfold Graph.annotate
  split
  · exact .pure hself
  · next token htoken =>
    split_ifs
    · exact .pure hself
    · refine (callees.lookup token).bind fun a b hab => ?_
      cases hab with
      | none => exact .pure hself
      | some hab =>
        exact (callees.effectOf? effects ins.opcode.value hab).bind fun effect effect' h =>
          .pure ⟨effect', h, rfl⟩

theorem annotateAll (instructions : List Instruction) :
    Agree (BothCoherent base base') (List.Forall₂ (InsAlike E)) (annotateAll instructions)
      (annotateAll instructions) := by
  induction instructions with
  | nil => exact .pure .nil
  | cons ins rest ih =>
    exact (callees.annotate effects ins).bind fun ins ins' hins =>
      ih.bind fun others others' hothers => .pure (.cons hins hothers)

omit effects in
theorem localsOf (token : Token) :
    Agree (BothCoherent base base') (· = ·) (localsOf token) (localsOf token) := by
  unfold Graph.localsOf
  refine (callees.lookup token).bind fun a b hab => ?_
  cases hab with
  | none => exact .pure rfl
  | some hab =>
    obtain @⟨kind, hin, object, object'⟩ := hab
    cases kind
    case standAloneSignature =>
      refine (callees.signature_agree (by decide) rfl hin).attempt.bind fun x y hxy => ?_
      cases hxy with
      | error => exact .pure rfl
      | @ok sig sig' hsig =>
        cases hsig with
        | method h => exact .pure rfl
        | other h => cases sig <;> exact .pure rfl
    all_goals exact .pure rfl

/-- The body in some bytes is read alike, whatever has been looked up before. -/
theorem readBody (bytes : Array UInt8) :
    Agree (BothCoherent base base') (BodyAlike E) (readBody bytes) (readBody bytes) := by
  unfold Graph.readBody
  refine Agree.get_bind fun g h ⟨hg, hh⟩ => ?_
  rw [hg.settings, hh.settings, ← callees.settings]
  dsimp only
  split
  · exact .throw _
  · next body hbody =>
    have hself : List.Forall₂ (InsAlike E) body.instructions body.instructions :=
      List.forall₂_same.2 fun ins _ => effects.insAlike ins
    refine Agree.ite_bind (fun _ => callees.localsOf body.localsToken) (.pure rfl) fun locals => ?_
    split
    · exact (callees.annotateAll effects body.instructions).bind fun instructions instructions' h =>
        .pure ⟨instructions', h, rfl⟩
    · exact (Agree.pure hself).bind fun instructions instructions' h =>
        .pure ⟨instructions', h, rfl⟩

end CalleesAlike

end CilMetadata.Graph

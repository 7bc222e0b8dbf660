import CilMetadata.Proofs.Body.DeeperStack
import CilMetadata.Proofs.Graph.Callees

/-!
# Calls of methods with modified return types

A custom modifier says something about a type and makes no other type of it, yet a method is taken
to return a value unless its return type is the bare `void`. Here modules are compared of which the
methods differ in the modifiers around their return types.

* `MethodSig.under` puts modifiers around a return type. Around a value this changes no effect
  (`effectsAlike_valueUnder`), around `void` it makes a call leave one value
  (`effectsAlike_isUnder`), so that the stack is not less deep (`depth?_le`);
* `readBody_underModifiers` is what this means for bodies;
* `readBody_modifiedVoid` is a call of a method that returns nothing, and is taken to leave a value.
-/

namespace CilMetadata

/-! ### Signatures -/

/-- Custom modifiers, the outermost one first: whether each is required, and its type. -/
abbrev Modifiers := List (Bool × TypeSig)

/-- A type with modifiers around it. -/
def TypeSig.under (modifiers : Modifiers) (sig : TypeSig) : TypeSig :=
  modifiers.foldr (fun modifier base => .modified modifier.1 modifier.2 base) sig

namespace MethodSig

/-- A signature with modifiers around its return type. -/
def under (modifiers : Modifiers) (sig : MethodSig) : MethodSig :=
  { sig with returnType := sig.returnType.under modifiers }

/-- A signature and the same one with modifiers around its return type. -/
def IsUnder (sig other : MethodSig) : Prop := ∃ modifiers, other = sig.under modifiers

/-- A signature and the same one with modifiers around its return type, which is not `void` unless
there are none. -/
def ValueUnder (sig other : MethodSig) : Prop :=
  ∃ modifiers, (modifiers = [] ∨ sig.returnsValue = true) ∧ other = sig.under modifiers

theorem returnsValue_under (modifiers : Modifiers) (sig : MethodSig) :
    (sig.under modifiers).returnsValue = (!modifiers.isEmpty || sig.returnsValue) := by
  cases modifiers <;> rfl

theorem returnsValue_under_eq_iff {modifiers : Modifiers} {sig : MethodSig} :
    (sig.under modifiers).returnsValue = sig.returnsValue ↔
      modifiers = [] ∨ sig.returnsValue = true := by
  rw [returnsValue_under]
  cases modifiers <;> cases sig.returnsValue <;> simp

end MethodSig

/-- An effect, and the same one or one that leaves a value where there was none. -/
def StackEffect.OrOneMore (effect other : StackEffect) : Prop :=
  other = effect ∨ effect.pushes = 0 ∧ other = { effect with pushes := 1 }

theorem StackEffect.OrOneMore.le {effect other : StackEffect} (h : effect.OrOneMore other) :
    other.pops = effect.pops ∧ effect.pushes ≤ other.pushes := by
  rcases h with rfl | ⟨hpushes, rfl⟩
  · exact ⟨rfl, le_rfl⟩
  · exact ⟨rfl, hpushes ▸ Nat.zero_le 1⟩

/-! ### Effects -/

namespace MethodSig

variable {modifiers : Modifiers} {sig : MethodSig} {pops : Nat}

/-- Modifiers are noticed by a call only where nothing is returned. -/
theorem effect_under_eq_iff :
    StackEffect.mk pops (sig.under modifiers).returnsValue.toNat =
        StackEffect.mk pops sig.returnsValue.toNat ↔
      modifiers = [] ∨ sig.returnsValue = true := by
  rw [← returnsValue_under_eq_iff]
  cases (sig.under modifiers).returnsValue <;> cases sig.returnsValue <;> simp

theorem effect_under_orOneMore :
    (StackEffect.mk pops sig.returnsValue.toNat).OrOneMore
      (StackEffect.mk pops (sig.under modifiers).returnsValue.toNat) := by
  rw [returnsValue_under]
  cases modifiers <;> cases sig.returnsValue <;> simp [StackEffect.OrOneMore]

end MethodSig

namespace Graph

theorem effectsAlike_valueUnder : EffectsAlike MethodSig.ValueUnder (· = ·) where
  same _ := rfl
  call := by
    rintro sig - ⟨modifiers, hvalue, rfl⟩
    exact (MethodSig.effect_under_eq_iff.2 hvalue).symm
  construction := by
    rintro sig - ⟨modifiers, -, rfl⟩
    rfl
  pointerCall := by
    rintro sig - ⟨modifiers, hvalue, rfl⟩
    exact (MethodSig.effect_under_eq_iff.2 hvalue).symm

theorem effectsAlike_isUnder : EffectsAlike MethodSig.IsUnder StackEffect.OrOneMore where
  same _ := .inl rfl
  call := by
    rintro sig - ⟨modifiers, rfl⟩
    exact MethodSig.effect_under_orOneMore
  construction := by
    rintro sig - ⟨modifiers, rfl⟩
    exact .inl rfl
  pointerCall := by
    rintro sig - ⟨modifiers, rfl⟩
    exact MethodSig.effect_under_orOneMore

/-- Bodies of which the effects are the same are the same. -/
theorem eq_of_bodyAlike {body body' : MethodBody} (h : BodyAlike (· = ·) body body') :
    body' = body := by
  obtain ⟨instructions, hall, rfl⟩ := h
  have hins : ∀ ins ins', InsAlike (· = ·) ins ins' → ins = ins' := by
    rintro ⟨opcode, operand, offset, callEffect⟩ - ⟨effect, heffect, rfl⟩
    have hsame : callEffect = effect := by
      cases heffect with
      | none => rfl
      | some h => rw [h]
    rw [hsame]
  have hsame := List.forall₂_eq_eq_eq ▸ hall.imp hins
  rw [← hsame]

end Graph

/-! ### Bodies -/

namespace Graph

variable {E : StackEffect → StackEffect → Prop}

theorem layOutFrom_alike {code code' : List Instruction} (h : List.Forall₂ (InsAlike E) code code')
    (offset : Nat) : List.Forall₂ (InsAlike E) (Instruction.layOutFrom offset code)
      (Instruction.layOutFrom offset code') := by
  induction h generalizing offset with
  | nil => exact .nil
  | @cons ins ins' rest rest' hins _ ih =>
    obtain ⟨effect, heffect, rfl⟩ := hins
    exact .cons ⟨effect, heffect, rfl⟩ (ih (offset + ins.size))

/-- An instruction whose call leaves more takes as much as before. -/
theorem effect_le {ins ins' : Instruction} (h : InsAlike StackEffect.OrOneMore ins ins') :
    (StackDepth.effect ins').pops = (StackDepth.effect ins).pops ∧
      (StackDepth.effect ins).pushes ≤ (StackDepth.effect ins').pushes := by
  obtain ⟨opcode, operand, offset, callEffect⟩ := ins
  obtain ⟨effect, heffect, rfl⟩ := h
  have hknown : (effect.getD ⟨0, 0⟩).pops = (callEffect.getD ⟨0, 0⟩).pops ∧
      (callEffect.getD ⟨0, 0⟩).pushes ≤ (effect.getD ⟨0, 0⟩).pushes := by
    cases heffect with
    | none => exact ⟨rfl, le_rfl⟩
    | some h => exact h.le
  unfold StackDepth.effect Instruction.stackEffect?
  dsimp only
  cases opcode.pops <;> cases opcode.pushes <;> first | exact ⟨rfl, le_rfl⟩ | exact hknown

theorem leavesMore {code code' : List Instruction}
    (h : List.Forall₂ (InsAlike StackEffect.OrOneMore) code code') :
    StackDepth.LeavesMore code.toArray code'.toArray := by
  obtain ⟨hlength, hall⟩ := List.forall₂_iff_get.1 h
  refine ⟨by simpa using hlength.symm, fun {index ins} hins => ?_⟩
  obtain ⟨hlt, rfl⟩ := Array.getElem?_eq_some_iff.1 hins
  have hlt' : index < code'.length := by simpa [hlength] using hlt
  have halike := hall index (by simpa using hlt) hlt'
  obtain ⟨hpops, hpushes⟩ := effect_le halike
  obtain ⟨effect, -, hins'⟩ := halike
  have hopcode := congrArg Instruction.opcode hins'
  have hoperand := congrArg Instruction.operand hins'
  have hoffset := congrArg Instruction.offset hins'
  exact ⟨code'[index], by simp [hlt'], hopcode, hoperand, hoffset, hpops, hpushes⟩

/-- In a body whose calls leave more, the depth that is computed is not less. -/
theorem depth?_le {body body' : MethodBody} (h : BodyAlike StackEffect.OrOneMore body body')
    {depth depth' : UInt16} (hdepth : body.depth? = .ok depth)
    (hdepth' : body'.depth? = .ok depth') : depth ≤ depth' := by
  obtain ⟨instructions, hall, rfl⟩ := h
  have hmore := leavesMore (layOutFrom_alike hall 0)
  exact StackDepth.maxStack_le hmore (MethodBody.maxStack_of_depth? hdepth)
    (MethodBody.maxStack_of_depth? hdepth')

/-- **Modifiers around return types change the effect of a call exactly where nothing is returned.**
Of two modules whose methods differ in modifiers around their return types, the same body is read
if no modifier stands around `void`. Otherwise a call of such a method is taken to leave a value;
nothing else is changed, and the depth of the stack, if there is one in both, is not less. -/
theorem readBody_underModifiers (sig : MethodSig) (modifiers : Modifiers) {base base' g h : Graph}
    (hg : Coherent EverySlot base g) (hh : Coherent EverySlot base' h) (bytes : Array UInt8) :
    ((sig.under modifiers).returnsValue = sig.returnsValue ↔
        modifiers = [] ∨ sig.returnsValue = true) ∧
      (callEffect (sig.under modifiers) = callEffect sig ↔
        modifiers = [] ∨ sig.returnsValue = true) ∧
      (pointerCallEffect (sig.under modifiers) = pointerCallEffect sig ↔
        modifiers = [] ∨ sig.returnsValue = true) ∧
      constructorEffect (sig.under modifiers) = constructorEffect sig ∧
      (CalleesAlike MethodSig.ValueUnder base base' →
        outcome (readBody bytes) h = outcome (readBody bytes) g) ∧
      (CalleesAlike MethodSig.IsUnder base base' →
        Alike (fun body body' => BodyAlike StackEffect.OrOneMore body body' ∧
          ∀ depth depth', body.depth? = .ok depth → body'.depth? = .ok depth' → depth ≤ depth')
          (outcome (readBody bytes) g) (outcome (readBody bytes) h)) := by
  refine ⟨MethodSig.returnsValue_under_eq_iff, MethodSig.effect_under_eq_iff,
    MethodSig.effect_under_eq_iff, rfl, ?_, ?_⟩
  · intro callees
    have hagree := callees.readBody effectsAlike_valueUnder bytes ⟨hg, hh⟩
    exact (hagree.outcome.mono fun body body' halike => (eq_of_bodyAlike halike).symm).eq.symm
  · intro callees
    have hagree := callees.readBody effectsAlike_isUnder bytes ⟨hg, hh⟩
    exact hagree.outcome.mono fun body body' halike =>
      ⟨halike, fun depth depth' hdepth hdepth' => depth?_le halike hdepth hdepth'⟩

/-! ### One method -/

/-- A module with a reference and with a method, whose signature is one of four: it returns nothing
or a number, without or with a modifier. -/
def oneMethod (blob : UInt32) : Graph where
  tables := {
    typeRef := #[{ rid := 1, cells := (Token.null, 0, 0, ()) }]
    methodDef := #[{ rid := 1, cells := (0, 0, 0, 0, blob, 0, ()) }] }
  heaps := { blobs := { bytes :=
    #[0, 3, 0, 0, 1, 5, 0, 0, 0x1F, 5, 1, 3, 0, 0, 8, 5, 0, 0, 0x1F, 5, 8] } }

/-- The method. -/
def theMethod : Token := ⟨0x06000001⟩

/-- The reference as a required modifier. -/
def required : Modifiers := [(true, .named .cls ⟨0x01000001⟩)]

theorem outcome_freshSignature_of_none {g : Graph} {kind : MemberKind}
    (column : Row kind.rowKind → UInt32) {token : Token}
    (h : g.tables.row? kind.rowKind token.row = none) :
    outcome (freshSignature kind column token) g =
      .error (.rowOutOfRange kind.table token.row (g.tables.count kind.table)) := by
  unfold outcome freshSignature row
  rw [bind_assoc, get_bind_apply]
  dsimp only
  rw [h]
  rfl

/-- The signature of the method is read as `sig`. -/
def ReadsAs (blob : UInt32) (sig : MethodSig) : Prop :=
  freshSignature .methodDefinition Row.methodSignature theMethod (oneMethod blob) =
    .ok (.method sig) (oneMethod blob)

/-- The modules differ in the signature of the method, and in nothing else that is called. -/
theorem calleesAlike_oneMethod {R : MethodSig → MethodSig → Prop} {blob blob' : UInt32}
    {sig sig' : MethodSig} (h : R sig sig') (hread : ReadsAs blob sig)
    (hread' : ReadsAs blob' sig') : CalleesAlike R (oneMethod blob) (oneMethod blob') where
  settings := rfl
  count table := by cases table <;> rfl
  generic rid := by simp [Tables.row?, RowArray.row?, oneMethod, Tables.rows]
  signature := by
    intro kind hkind column hcolumn token hin
    change Alike (SigAlike R) (outcome _ (oneMethod blob)) (outcome _ (oneMethod blob'))
    by_cases hmethod : kind = .methodDefinition ∧ token.row = 1
    · obtain ⟨rfl, hrow⟩ := hmethod
      have htoken := Token.ofRow_row hin
      rw [hrow] at htoken
      cases hcolumn
      rw [← htoken]
      change Alike _ (outcome (freshSignature _ _ theMethod) _)
        (outcome (freshSignature _ _ theMethod) _)
      rw [outcome_of_ok hread, outcome_of_ok hread']
      exact .ok (.method h)
    · -- There is one method and nothing else that may be called.
      simp only [calleeKinds, List.mem_cons, List.not_mem_nil, or_false] at hkind
      have hnone : ∀ blob, (oneMethod blob).tables.row? kind.rowKind token.row = none := by
        intro blob
        unfold Tables.row? RowArray.row?
        split_ifs with hzero
        · rfl
        · apply Array.getElem?_eq_none
          obtain rfl | rfl | rfl := hkind
          · have hrow : token.row ≠ 1 := fun h => hmethod ⟨rfl, h⟩
            change 1 ≤ token.row - 1
            omega
          · exact Nat.zero_le _
          · exact Nat.zero_le _
      rw [outcome_freshSignature_of_none column (hnone blob),
        outcome_freshSignature_of_none column (hnone blob')]
      obtain rfl | rfl | rfl := hkind <;> exact .error _

/-- A body that calls the method and returns. -/
def oneCall : Array UInt8 := #[0x1A, 0x28, 1, 0, 0, 6, 0x2A]

/-- A method that returns a number, and the same one with a modifier, are called alike. One that
returns nothing is called alike but for one value. -/
theorem readBody_underModifiers_oneMethod :
    outcome (readBody oneCall) (oneMethod 15) = outcome (readBody oneCall) (oneMethod 11) ∧
    Alike (fun body body' => BodyAlike StackEffect.OrOneMore body body' ∧
      ∀ depth depth', body.depth? = .ok depth → body'.depth? = .ok depth' → depth ≤ depth')
      (outcome (readBody oneCall) (oneMethod 1)) (outcome (readBody oneCall) (oneMethod 5)) := by
  have hcoherent : ∀ blob, Coherent EverySlot (oneMethod blob) (oneMethod blob) :=
    fun blob => coherent_bare EverySlot (oneMethod blob)
  constructor
  · have hread : ReadsAs 11 { returnType := .primitive .i4 } := rfl
    have hread' : ReadsAs 15 (MethodSig.under required { returnType := .primitive .i4 }) := rfl
    have hcallees : CalleesAlike MethodSig.ValueUnder (oneMethod 11) (oneMethod 15) :=
      calleesAlike_oneMethod ⟨required, .inr rfl, rfl⟩ hread hread'
    obtain ⟨-, -, -, -, hsame, -⟩ := readBody_underModifiers { returnType := .primitive .i4 }
      required (hcoherent 11) (hcoherent 15) oneCall
    exact hsame hcallees
  · have hread : ReadsAs 1 {} := rfl
    have hread' : ReadsAs 5 (MethodSig.under required {}) := rfl
    have hcallees : CalleesAlike MethodSig.IsUnder (oneMethod 1) (oneMethod 5) :=
      calleesAlike_oneMethod ⟨required, rfl⟩ hread hread'
    obtain ⟨-, -, -, -, -, hmore⟩ := readBody_underModifiers {} required
      (hcoherent 1) (hcoherent 5) oneCall
    exact hmore hcallees

/-- A call of the method, with what is known of its effect. -/
def callOfMethod (effect : Option StackEffect) : Instruction where
  opcode := ⟨0x28, "call", .token, .call, .bySignature, .bySignature⟩
  operand := .token theMethod
  callEffect := effect

/-- The body as it is read. -/
def calling (effect : Option StackEffect) : MethodBody where
  instructions := [
    callOfMethod effect,
    { opcode := ⟨0x2A, "ret", .none, .ret, .fixed 0, .fixed 0⟩, operand := .none, offset := 5 }]
  computesDepth := false

/-- A body without local variables is read by looking up its calls. -/
theorem outcome_readBody {g : Graph} {bytes : Array UInt8} {body : MethodBody}
    (hread : MethodBody.read g.settings bytes = .ok body) (hlocals : body.localsToken.isNull = true)
    (hannotates : g.settings.annotatesCalls = true) :
    outcome (readBody bytes) g = (outcome (annotateAll body.instructions) g).map fun instructions =>
      { body with locals := [], instructions } := by
  have hget : ∀ f : Graph → GraphM MethodBody, outcome (get >>= f) g = outcome (f g) g :=
    fun _ => rfl
  unfold Graph.readBody
  rw [hget]
  dsimp only
  rw [hread]
  dsimp only
  rw [hlocals, hannotates]
  simp only [Bool.not_true, Bool.and_false, Bool.false_eq_true, if_false, if_true, pure_bind]
  rw [outcome_bind]
  cases outcome (annotateAll body.instructions) g <;> rfl

theorem outcome_readBody_oneCall {blob : UInt32} {sig : MethodSig} (hread : ReadsAs blob sig) :
    outcome (readBody oneCall) (oneMethod blob) = .ok (calling (some (callEffect sig))) := by
  have hin : theMethod.isIn MemberKind.methodDefinition.table = true := rfl
  have hresolves : (oneMethod blob).Resolves theMethod .methodDefinition :=
    ⟨hin, by decide, Nat.le_refl 1⟩
  have hempty : (oneMethod blob).members[theMethod]? = none := Std.HashMap.getElem?_empty
  have hcoherent : Coherent EverySlot (oneMethod blob)
      ((oneMethod blob).withMember .methodDefinition theMethod) :=
    (coherent_bare EverySlot (oneMethod blob)).withMember hin hempty
  have hlookup := lookup_of_none hresolves hempty
  have hcolumn : signatureColumn? .methodDefinition = some Row.methodSignature := rfl
  have hsig := (hcoherent.signature hcolumn hin).1.trans (outcome_of_ok hread)
  generalize (oneMethod blob).withMember .methodDefinition theMethod = found at hlookup hsig
  have hcallee : outcome (calleeOf ⟨.methodDefinition, theMethod, 0⟩) found = .ok (some sig) := by
    have hmethod : outcome (methodSignature? ⟨.methodDefinition, theMethod, 0⟩) found =
        .ok (some sig) := by
      change outcome (signature .methodDefinition Row.methodSignature theMethod >>= _) found = _
      rw [outcome_bind, hsig]
      rfl
    unfold calleeOf
    rw [outcome_bind, outcome_attempt, hmethod]
    rfl
  have heffect : outcome (effectOf? 0x28 ⟨.methodDefinition, theMethod, 0⟩) found =
      .ok (some (callEffect sig)) := by
    change outcome (calleeOf ⟨.methodDefinition, theMethod, 0⟩ >>= _) found = _
    rw [outcome_bind, hcallee]
    rfl
  have hannotate : outcome (annotate (callOfMethod none)) (oneMethod blob) =
      .ok (callOfMethod (some (callEffect sig))) := by
    change outcome (lookup theMethod >>= _) (oneMethod blob) = _
    rw [outcome_bind, outcome_of_ok hlookup, after_of_ok hlookup]
    change outcome (effectOf? 0x28 ⟨.methodDefinition, theMethod, 0⟩ >>= _) found = _
    rw [outcome_bind, heffect]
    rfl
  have hread : MethodBody.read (oneMethod blob).settings oneCall = .ok (calling none) := rfl
  rw [outcome_readBody hread rfl rfl]
  change Except.map _ (outcome (annotate (callOfMethod none) >>= _) _) = _
  rw [outcome_bind, hannotate]
  rfl

theorem depth?_calling {pushes : Nat} (h : pushes ≤ 0xFFFF) :
    (calling (some ⟨0, pushes⟩)).depth? = .ok (UInt16.ofNat pushes) := by
  have hmax : StackDepth.maxStack
      (Instruction.layOut (calling (some ⟨0, pushes⟩)).instructions).toArray [] = .ok pushes := by
    change StackDepth.explore _ (Array.replicate 2 none) [(0, 0)] 0 = .ok pushes
    rw [StackDepth.explore_enter Nat.zero_lt_two rfl rfl (Nat.le_refl 0) rfl]
    change StackDepth.explore _ #[some 0, none] [(1, 0 + pushes)] (max 0 (max 0 (0 + pushes))) = _
    rw [StackDepth.explore_enter Nat.one_lt_two rfl rfl (Nat.zero_le _) rfl]
    change StackDepth.explore _ _ [] _ = _
    rw [StackDepth.explore]
    change Except.ok (max (max 0 (max 0 (0 + pushes))) (max (0 + pushes) (0 + pushes))) = _
    simp
  have hclauses : (calling (some ⟨0, pushes⟩)).clauses = [] := rfl
  rw [MethodBody.depth?_eq, hclauses, hmax]
  exact if_pos h

/-- **A method that returns nothing is taken to leave a value.** Without a modifier around `void`
the depth of the stack is 0, with one it is 1. -/
theorem readBody_modifiedVoid :
    ReadsAs 1 {} ∧ ReadsAs 5 (MethodSig.under required {}) ∧
    (MethodSig.under required {}).returnsValue ≠ ({} : MethodSig).returnsValue ∧
    (outcome (readBody oneCall) (oneMethod 1)).map MethodBody.depth? = .ok (.ok 0) ∧
    (outcome (readBody oneCall) (oneMethod 5)).map MethodBody.depth? = .ok (.ok 1) := by
  have hvoid : ReadsAs 1 {} := rfl
  have hmodified : ReadsAs 5 (MethodSig.under required {}) := rfl
  refine ⟨hvoid, hmodified, by decide, ?_, ?_⟩
  · rw [outcome_readBody_oneCall hvoid]
    exact congrArg Except.ok (depth?_calling (Nat.zero_le _))
  · rw [outcome_readBody_oneCall hmodified]
    exact congrArg Except.ok (depth?_calling (by decide))

end Graph

end CilMetadata

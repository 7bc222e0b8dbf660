import CilMetadata.Proofs.Bytes.Advance
import CilMetadata.Proofs.Signature.ReadBack
import Mathlib.Data.Finset.Lattice.Fold
import Mathlib.Data.Fintype.EquivFin

/-!
# How many levels a reading takes

The levels are a limit and nothing else: as long as they last, they do not change what is read. Two
readings with different numbers of levels are compared by one relation, `Agrees`, in two ways.

* `typeAt_cutOff`: a reading with more levels does what the one with fewer does, unless that one
  runs out of levels;
* `typeAt_settles`: with enough levels no reading runs out. Every nested reading of one blob starts
  behind a byte that was taken, and a reading that goes on in another blob enters a specification,
  of which there are finitely many.

`Starts` lists what a byte can start, so that proofs on readings go by the forms of nodes.
-/

namespace CilMetadata

/-- A reading ran out of levels. -/
def Fault.IsLimit (fault : Fault) : Prop := ∃ limit, fault = .recursionLimit limit

theorem Fault.OfData.not_isLimit {fault : Fault} (h : fault.OfData) : ¬ fault.IsLimit := by
  rintro ⟨limit, rfl⟩
  exact h

namespace Expansions

theorem contains_iff {set : Expansions} {token : Token} :
    set.contains token = true ↔ token ∈ set.active := by
  simp [contains]

theorem active_enter {set : Expansions} {token : Token} (h : token ∉ set.active) :
    (set.enter token).active = token :: set.active := by
  simp [enter, contains, h]

end Expansions

theorem NamedForm.element_of_ofElement? {element : UInt8} {form : NamedForm}
    (h : ofElement? element = some form) : form.element = element := by
  unfold ofElement? at h
  split_ifs at h with hcls hvalue <;> cases h
  · exact hcls.symm
  · exact hvalue.symm

namespace SigDecoder

/-! ### The forms of a node -/

/-- Why a byte that starts no node is refused. -/
def refusal (offset : Nat) (element : UInt8) : Fault :=
  if element = Element.functionPointer then .notImplemented "function pointer signatures"
  else .malformed (.elementType element offset)

theorem refusal_not_isLimit (offset : Nat) (element : UInt8) :
    ¬ (refusal offset element).IsLimit := by
  unfold refusal
  rintro ⟨limit, hlimit⟩
  split at hlimit
  · cases hlimit
  · cases hlimit

/-- What a byte starts: a node of one of the forms, or nothing. -/
inductive Starts : UInt8 → Prop
  | primitive (type : Primitive) : Starts type.element
  | wrapped (wrapper : Wrapper) : Starts wrapper.element
  | named (form : NamedForm) : Starts form.element
  | sentinel : Starts Element.sentinel
  | generic (kind : GenericKind) : Starts kind.element
  | array : Starts Element.array
  | applied : Starts Element.applied
  | modified (required : Bool) : Starts (Element.modifier required)
  | nothing {element : UInt8} (refused : ∀ ctx nested offset,
      typeAfter ctx nested offset element = throw (refusal offset element)) : Starts element

theorem starts (element : UInt8) : Starts element := by
  cases hprimitive : Primitive.ofElement? element with
  | some type =>
    have helement : type.element = element := by simpa using List.find?_some hprimitive
    exact helement ▸ .primitive type
  | none =>
    cases hwrapper : Wrapper.ofElement? element with
    | some wrapper =>
      have helement : wrapper.element = element := by simpa using List.find?_some hwrapper
      exact helement ▸ .wrapped wrapper
    | none =>
      cases hform : NamedForm.ofElement? element with
      | some form =>
        exact NamedForm.element_of_ofElement? hform ▸ .named form
      | none =>
        by_cases hsentinel : element = Element.sentinel
        · exact hsentinel ▸ .sentinel
        by_cases htype : element = GenericKind.type.element
        · exact htype ▸ .generic .type
        by_cases hmethod : element = GenericKind.method.element
        · exact hmethod ▸ .generic .method
        by_cases harray : element = Element.array
        · exact harray ▸ .array
        by_cases happlied : element = Element.applied
        · exact happlied ▸ .applied
        by_cases hrequired : element = Element.requiredModifier
        · exact hrequired ▸ .modified true
        by_cases hoptional : element = Element.optionalModifier
        · exact hoptional ▸ .modified false
        refine .nothing fun ctx nested offset => ?_
        simp only [typeAfter, hprimitive, hwrapper, hform, if_neg hsentinel, if_neg htype,
          if_neg hmethod, if_neg harray, if_neg happlied, if_neg hrequired, if_neg hoptional,
          refusal]
        split_ifs <;> rfl

/-! ### Readings that agree -/

/-- From every state whose cursor satisfies `start`, the second reading does what the first one
does, whatever levels are in use there. Only where the first one runs out of levels, and `cut` gives
its limit, may the second one do something else. -/
structure Agrees {α : Type} (start : Cursor → Prop) (cut : Option Nat) (d d' : SigDecoder α) :
    Prop where
  ok : ∀ s s' a, start s.cursor → d s = .ok a s' →
    s'.depth = s.depth ∧ start s'.cursor ∧
      ∀ depth, d' { cursor := s.cursor, depth } = .ok a { cursor := s'.cursor, depth }
  error : ∀ s s' fault, start s.cursor → d s = .error fault s' →
    (∃ limit, cut = some limit ∧ fault = .recursionLimit limit) ∨
      ¬ fault.IsLimit ∧
        ∀ depth, ∃ s'', d' { cursor := s.cursor, depth } = .error fault s''

variable {α β : Type} {start : Cursor → Prop} {cut : Option Nat}

/-- Readings agree where there is no state to start from. -/
theorem agrees_nowhere {d d' : SigDecoder α} (h : ∀ c, ¬ start c) : Agrees start cut d d' :=
  ⟨fun s _ _ hs => absurd hs (h s.cursor), fun s _ _ hs => absurd hs (h s.cursor)⟩

theorem agrees_pure (a : α) : Agrees start cut (pure a) (pure a) := by
  constructor
  · intro s s' b hs hrun
    cases hrun
    exact ⟨rfl, hs, fun _ => rfl⟩
  · intro s s' fault hs hrun
    cases hrun

theorem agrees_throw {fault : Fault} (h : ¬ fault.IsLimit) :
    Agrees start cut (throw fault : SigDecoder α) (throw fault) := by
  constructor
  · intro s s' a hs hrun
    cases hrun
  · intro s s' fault' hs hrun
    cases hrun
    exact .inr ⟨h, fun _ => ⟨_, rfl⟩⟩

theorem Agrees.bind {d d' : SigDecoder α} {f f' : α → SigDecoder β} (h : Agrees start cut d d')
    (hrest : ∀ a, Agrees start cut (f a) (f' a)) : Agrees start cut (d >>= f) (d' >>= f') := by
  constructor
  · intro s s' b hs hrun
    obtain ⟨a, mid, hd, hf⟩ := bind_eq_ok.1 hrun
    obtain ⟨hdepth, hmid, hd'⟩ := h.ok s mid a hs hd
    obtain ⟨hdepth', hs', hf'⟩ := (hrest a).ok mid s' b hmid hf
    exact ⟨hdepth'.trans hdepth, hs', fun depth => bind_eq_ok.2 ⟨a, _, hd' depth, hf' depth⟩⟩
  · intro s s' fault hs hrun
    rcases bind_eq_error.1 hrun with hd | ⟨a, mid, hd, hf⟩
    · rcases h.error s s' fault hs hd with hcut | ⟨hlimit, hd'⟩
      · exact .inl hcut
      · refine .inr ⟨hlimit, fun depth => ?_⟩
        obtain ⟨s'', hs''⟩ := hd' depth
        exact ⟨s'', bind_eq_error.2 (.inl hs'')⟩
    · obtain ⟨-, hmid, hd'⟩ := h.ok s mid a hs hd
      rcases (hrest a).error mid s' fault hmid hf with hcut | ⟨hlimit, hf'⟩
      · exact .inl hcut
      · refine .inr ⟨hlimit, fun depth => ?_⟩
        obtain ⟨s'', hs''⟩ := hf' depth
        exact ⟨s'', bind_eq_error.2 (.inr ⟨a, _, hd' depth, hs''⟩)⟩

theorem Agrees.map {d d' : SigDecoder α} (h : Agrees start cut d d') (f : α → β) :
    Agrees start cut (do return f (← d)) (do return f (← d')) :=
  h.bind fun a => agrees_pure (f a)

/-- The same test on both sides. -/
theorem agrees_ite {p : Prop} [Decidable p] {d d' e e' : SigDecoder α} (h : Agrees start cut d d')
    (h' : Agrees start cut e e') :
    Agrees start cut (if p then d else e) (if p then d' else e') := by
  by_cases hp : p
  · rwa [if_pos hp, if_pos hp]
  · rwa [if_neg hp, if_neg hp]

theorem agrees_times {d d' : SigDecoder α} (h : Agrees start cut d d') (count : Nat) :
    Agrees start cut (times d count) (times d' count) := by
  induction count with
  | zero => exact agrees_pure []
  | succ count ih => exact h.bind fun a => ih.map (a :: ·)

/-- A reading of another blob agrees if it does from the start of that blob. -/
theorem Agrees.inside {inner : Cursor → Prop} {d d' : SigDecoder α} {blob : Array UInt8}
    (h : Agrees inner cut d d') (hblob : inner { bytes := blob }) :
    Agrees start cut (inside blob d) (inside blob d') := by
  constructor
  · intro s s' a hs hrun
    unfold SigDecoder.inside at hrun ⊢
    split at hrun
    case h_1 hd =>
      cases hrun
      obtain ⟨-, -, hd'⟩ := h.ok _ _ a hblob hd
      exact ⟨rfl, hs, fun depth => by simp only [hd' depth]⟩
    case h_2 => cases hrun
  · intro s s' fault hs hrun
    unfold SigDecoder.inside at hrun ⊢
    split at hrun
    case h_1 => cases hrun
    case h_2 hd =>
      cases hrun
      rcases h.error _ _ fault hblob hd with hcut | ⟨hlimit, hd'⟩
      · exact .inl hcut
      · refine .inr ⟨hlimit, fun depth => ?_⟩
        obtain ⟨s'', hs''⟩ := hd' depth
        exact ⟨{ cursor := s.cursor, depth }, by simp only [hs'']⟩

/-- A compressed integer that cannot be read takes nothing. -/
theorem state_of_compressed_error {s s' : SigState} {fault : Fault}
    (h : compressed s = .error fault s') : s' = s := by
  unfold compressed lift Decoder.compressed Decoder.restoring at h
  split at h
  · cases h
  · rename_i hrestoring
    split at hrestoring
    · cases hrestoring
    · cases hrestoring
      cases h
      rfl

/-! ### Modifiers -/

/-- The readings look up the same references, and expand the same specifications. -/
structure Alike (ctx ctx' : SigContext) : Prop where
  resolver : ctx'.resolver = ctx.resolver
  expanding : ∀ r, ctx.resolver = some r → ctx'.expanding = ctx.expanding

variable {ctx ctx' : SigContext} {nested nested' : SigContext → SigDecoder TypeSig}

/-- A modifier agrees if the readings of the blobs of specifications do. -/
theorem modifierType_agrees (alike : Alike ctx ctx')
    (hinside : ∀ r token blob, ctx.resolver = some r → token.isIn .typeSpec = true →
      token ∉ ctx.expanding.active → r.specBlob? token = some blob →
      Agrees start cut
        (inside blob (nested { ctx with expanding := ctx.expanding.enter token }))
        (inside blob (nested' { ctx' with expanding := ctx'.expanding.enter token })))
    (token : Token) :
    Agrees start cut (modifierType ctx nested token) (modifierType ctx' nested' token) := by
  unfold modifierType
  cases hr : ctx.resolver with
  | none =>
    simp only [alike.resolver, hr]
    exact agrees_pure _
  | some r =>
    have hblobs (blob : Array UInt8) := hinside r token blob hr
    simp only [alike.resolver, hr, alike.expanding r hr] at hblobs ⊢
    by_cases hspec : token.isIn .typeSpec = true
    · simp only [if_pos hspec]
      by_cases haround : ctx.expanding.contains token = true
      · simp only [if_pos haround]
        exact agrees_pure _
      · simp only [if_neg haround]
        cases hblob : r.specBlob? token with
        | none => exact agrees_pure _
        | some blob =>
          have hfresh : token ∉ ctx.expanding.active := mt Expansions.contains_iff.2 haround
          exact (hblobs blob hspec hfresh hblob).map _
    · simp only [if_neg hspec]
      exact agrees_pure _

/-! ### Nodes

What `start` says of a cursor holds of every cursor further on; `hnested` and `hmodifier` are the
readings one level down. -/

section Nodes

variable (onward : ∀ c n, start c → start (c.forward n))

include onward

theorem lift_agrees {d : Decoder α} (h : d.Advances) : Agrees start cut (lift d) (lift d) := by
  constructor
  · intro s s' a hs hrun
    unfold lift at hrun ⊢
    cases hd : d s.cursor with
    | ok b c =>
      rw [hd] at hrun
      cases hrun
      obtain ⟨n, rfl⟩ := h.moves _ _ _ hd
      exact ⟨rfl, onward _ n hs, fun depth => by simp only [hd]⟩
    | error fault c =>
      rw [hd] at hrun
      cases hrun
  · intro s s' fault hs hrun
    unfold lift at hrun ⊢
    cases hd : d s.cursor with
    | ok b c =>
      rw [hd] at hrun
      cases hrun
    | error fault' c =>
      rw [hd] at hrun
      cases hrun
      refine .inr ⟨(h.fails _ _ _ hd).not_isLimit, fun depth => ?_⟩
      exact ⟨{ cursor := c, depth }, by simp only [hd]⟩

theorem compressed_agrees : Agrees start cut compressed compressed :=
  lift_agrees onward Decoder.advances_compressed

theorem reference_agrees (resolver : Option Resolver) :
    Agrees start cut (reference resolver) (reference resolver) := by
  have hinteger : Agrees start none compressed compressed := compressed_agrees onward
  constructor
  · intro s s' found hs hrun
    unfold reference at hrun ⊢
    cases hvalue : compressed s with
    | ok value mid =>
      obtain ⟨hdepth, hmid, hvalue'⟩ := hinteger.ok s mid value hs hvalue
      simp only [hvalue, EStateM.Result.ok.injEq] at hrun
      obtain ⟨rfl, rfl⟩ := hrun
      exact ⟨hdepth, hmid, fun depth => by simp only [hvalue' depth]⟩
    | error fault mid =>
      obtain rfl := state_of_compressed_error hvalue
      simp only [hvalue, EStateM.Result.ok.injEq] at hrun
      obtain ⟨rfl, rfl⟩ := hrun
      refine ⟨rfl, hs, fun depth => ?_⟩
      rcases hinteger.error _ _ fault hs hvalue with ⟨limit, hnone, -⟩ | ⟨-, hvalue'⟩
      · cases hnone
      · obtain ⟨s'', hs''⟩ := hvalue' depth
        obtain rfl := state_of_compressed_error hs''
        simp only [hs'']
  · intro s s' fault hs hrun
    unfold reference at hrun
    cases hvalue : compressed s with
    | ok value mid =>
      rw [hvalue] at hrun
      cases hrun
    | error fault' mid =>
      rw [hvalue] at hrun
      cases hrun

theorem plainReference_agrees (resolver : Option Resolver) :
    Agrees start cut (plainReference resolver) (plainReference resolver) := by
  refine (reference_agrees onward resolver).bind fun found => ?_
  rcases found with cause | token
  · exact agrees_pure _
  · exact agrees_ite (agrees_pure _) (agrees_pure _)

theorem namedType_agrees (resolver : Option Resolver) (form : NamedForm) :
    Agrees start cut (namedType resolver form) (namedType resolver form) := by
  refine (plainReference_agrees onward resolver).bind fun found => ?_
  rcases found with cause | token
  · exact agrees_pure _
  · exact agrees_pure _

theorem arrayShape_agrees : Agrees start cut arrayShape arrayShape := by
  have hinteger : Agrees start cut compressed compressed := compressed_agrees onward
  refine hinteger.bind fun rank => hinteger.bind fun sizeCount => ?_
  refine (agrees_times hinteger sizeCount).bind fun sizes => hinteger.bind fun boundCount => ?_
  exact (agrees_times (lift_agrees onward Decoder.advances_compressedSigned) boundCount).map _

variable (alike : Alike ctx ctx') (hnested : Agrees start cut (nested ctx) (nested' ctx'))
  (hmodifier : ∀ token,
    Agrees start cut (modifierType ctx nested token) (modifierType ctx' nested' token))

include alike hnested

include hmodifier in
theorem modifiedType_agrees (required : Bool) :
    Agrees start cut (modifiedType ctx nested required) (modifiedType ctx' nested' required) := by
  unfold modifiedType
  rw [alike.resolver]
  refine (reference_agrees onward ctx.resolver).bind fun found => ?_
  rcases found with cause | token
  · cases cause with
    | blobTooShort => exact agrees_pure _
    | _ => exact hnested.map _
  · exact (hmodifier token).bind fun modifier => hnested.map _

theorem appliedType_agrees :
    Agrees start cut (appliedType ctx nested) (appliedType ctx' nested') := by
  unfold appliedType
  rw [alike.resolver]
  refine (lift_agrees onward Decoder.advances_byte).bind fun kind => ?_
  have harguments (count : Nat) := agrees_times hnested count
  have hinteger : Agrees start cut compressed compressed := compressed_agrees onward
  cases NamedForm.ofElement? kind with
  | none => exact agrees_throw (Fault.OfData.not_isLimit trivial)
  | some form =>
    refine (plainReference_agrees onward ctx.resolver).bind fun found => ?_
    rcases found with cause | definition
    · cases cause with
      | blobTooShort => exact agrees_pure _
      | _ => exact hinteger.bind fun count => (harguments count).map _
    · exact hinteger.bind fun count => (harguments count).map _

include hmodifier in
theorem typeAfter_agrees (offset : Nat) (element : UInt8) :
    Agrees start cut (typeAfter ctx nested offset element)
      (typeAfter ctx' nested' offset element) := by
  cases starts element with
  | primitive type =>
    rw [typeAfter_primitive, typeAfter_primitive]
    exact agrees_pure _
  | wrapped wrapper =>
    rw [typeAfter_wrapped, typeAfter_wrapped]
    exact hnested.map _
  | named form =>
    rw [typeAfter_named, typeAfter_named, alike.resolver]
    exact namedType_agrees onward ctx.resolver form
  | sentinel => exact agrees_pure _
  | generic kind =>
    rw [typeAfter_generic, typeAfter_generic]
    exact (compressed_agrees onward).map _
  | array =>
    rw [typeAfter_array, typeAfter_array]
    exact hnested.bind fun base => (arrayShape_agrees onward).map _
  | applied => exact appliedType_agrees onward alike hnested
  | modified required =>
    rw [typeAfter_modified, typeAfter_modified]
    exact modifiedType_agrees onward alike hnested hmodifier required
  | nothing hrefused =>
    rw [hrefused, hrefused]
    exact agrees_throw (refusal_not_isLimit offset element)

end Nodes

/-! ### Types -/

/-- A reading with a level left takes the element byte and goes on behind it. -/
theorem typeAt_succ (levels : Nat) (ctx : SigContext) (s : SigState) :
    typeAt (levels + 1) ctx s = match s.cursor.bytes[s.cursor.pos]? with
      | some element => typeAfter ctx (typeAt levels) s.cursor.pos element
          { s with cursor := s.cursor.forward 1 }
      | none => .error .outOfBounds s := by
  rw [typeAt]
  change EStateM.bind _ _ s = _
  cases hbyte : s.cursor.bytes[s.cursor.pos]? with
  | some element => simp [EStateM.bind, lift, Decoder.position, bind, byte, Decoder.byte, hbyte]
  | none => simp [EStateM.bind, lift, Decoder.position, bind, byte, Decoder.byte, hbyte]

/-- Readings with a level left agree if they do behind the element byte. -/
theorem typeAt_succ_agrees (behind : Cursor → Prop) {levels levels' : Nat}
    (hbyte : ∀ c, start c → c.pos < c.bytes.size → behind (c.forward 1))
    (hstart : ∀ c, behind c → start c)
    (h : ∀ offset element, Agrees behind cut (typeAfter ctx (typeAt levels) offset element)
      (typeAfter ctx' (typeAt levels') offset element)) :
    Agrees start cut (typeAt (levels + 1) ctx) (typeAt (levels' + 1) ctx') := by
  constructor
  · intro s s' tree hs hrun
    rw [typeAt_succ] at hrun
    cases hnext : s.cursor.bytes[s.cursor.pos]? with
    | none =>
      rw [hnext] at hrun
      cases hrun
    | some element =>
      rw [hnext] at hrun
      have hmore : s.cursor.pos < s.cursor.bytes.size := Array.getElem?_eq_some_iff.1 hnext |>.1
      obtain ⟨hdepth, hs', hafter⟩ := (h _ element).ok _ s' tree (hbyte _ hs hmore) hrun
      refine ⟨hdepth, hstart _ hs', fun depth => ?_⟩
      simpa only [typeAt_succ, hnext] using hafter depth
  · intro s s' fault hs hrun
    rw [typeAt_succ] at hrun
    cases hnext : s.cursor.bytes[s.cursor.pos]? with
    | none =>
      rw [hnext] at hrun
      cases hrun
      refine .inr ⟨Fault.OfData.not_isLimit trivial, fun depth => ?_⟩
      exact ⟨_, by simp only [typeAt_succ, hnext]; rfl⟩
    | some element =>
      rw [hnext] at hrun
      have hmore : s.cursor.pos < s.cursor.bytes.size := Array.getElem?_eq_some_iff.1 hnext |>.1
      rcases (h _ element).error _ s' fault (hbyte _ hs hmore) hrun with hcut | ⟨hlimit, hafter⟩
      · exact .inl hcut
      · refine .inr ⟨hlimit, fun depth => ?_⟩
        simpa only [typeAt_succ, hnext] using hafter depth

theorem Alike.enter (alike : Alike ctx ctx') (token : Token) :
    Alike { ctx with expanding := ctx.expanding.enter token }
      { ctx' with expanding := ctx'.expanding.enter token } :=
  ⟨alike.resolver, fun r hr => congrArg (Expansions.enter · token) (alike.expanding r hr)⟩

/-- **More levels change nothing but the limit.** A reading with more levels does what the one with
fewer does, unless that one runs out of levels. -/
theorem typeAt_cutOff {levels levels' : Nat} (hle : levels ≤ levels') (alike : Alike ctx ctx') :
    Agrees (fun _ => True) (some ctx.maxDepth) (typeAt levels ctx) (typeAt levels' ctx') := by
  induction levels generalizing levels' ctx ctx' with
  | zero =>
    constructor
    · intro s s' tree hs hrun
      cases hrun
    · intro s s' fault hs hrun
      cases hrun
      exact .inl ⟨ctx.maxDepth, rfl, rfl⟩
  | succ levels ih =>
    obtain ⟨levels', rfl⟩ := Nat.exists_eq_add_one.2 (Nat.lt_of_lt_of_le levels.succ_pos hle)
    have hle' : levels ≤ levels' := Nat.le_of_succ_le_succ hle
    refine typeAt_succ_agrees (fun _ => True) (fun _ _ _ => trivial) (fun _ _ => trivial)
      fun offset element => ?_
    refine typeAfter_agrees (fun _ _ _ => trivial) alike (ih hle' alike) ?_ offset element
    exact modifierType_agrees alike fun r token blob _ _ _ _ =>
      (ih hle' (alike.enter token)).inside trivial

/-! ### Enough levels -/

/-- The specifications that a reading can go into are among `specs`, and their blobs are shorter
than `room`. -/
def Within (ctx : SigContext) (specs : Finset Token) (room : Nat) : Prop :=
  ∀ r token blob, ctx.resolver = some r → token.isIn .typeSpec = true →
    r.specBlob? token = some blob → token ∈ specs ∧ blob.size < room

/-- How many levels last for a reading of fewer than `size` bytes: a level for each byte, and room
for the blob of every specification that is not being expanded. -/
def enough (specs : Finset Token) (room : Nat) (expanding : Expansions) (size : Nat) : Nat :=
  size + (specs \ expanding.active.toFinset).card * room

/-- In the blob of a specification there is one specification less to expand. -/
theorem enough_enter {specs : Finset Token} {room size : Nat} {expanding : Expansions}
    {token : Token} (hmem : token ∈ specs) (hfresh : token ∉ expanding.active) :
    enough specs room (expanding.enter token) room + size = enough specs room expanding size := by
  have hspecs : specs \ (expanding.enter token).active.toFinset =
      (specs \ expanding.active.toFinset).erase token := by
    ext other
    simp only [Expansions.active_enter hfresh, Finset.mem_sdiff, List.mem_toFinset, List.mem_cons,
      Finset.mem_erase]
    tauto
  have hin : token ∈ specs \ expanding.active.toFinset := by simp [hmem, hfresh]
  have hcard := Finset.card_erase_add_one hin
  rw [enough, enough, hspecs, ← hcard]
  ring

/-- **Levels last.** With enough levels a reading does not run out of them, and so more levels
change nothing. -/
theorem typeAt_settles {specs : Finset Token} {room : Nat} {levels levels' size : Nat}
    (within : Within ctx specs room) (alike : Alike ctx ctx')
    (hlevels : enough specs room ctx.expanding size ≤ levels)
    (hlevels' : enough specs room ctx.expanding size ≤ levels') :
    Agrees (fun c => c.remaining < size) none (typeAt levels ctx) (typeAt levels' ctx') := by
  induction levels generalizing levels' ctx ctx' size with
  | zero =>
    refine agrees_nowhere fun c => ?_
    unfold enough at hlevels
    omega
  | succ levels ih =>
    cases size with
    | zero => exact agrees_nowhere fun c => Nat.not_lt_zero _
    | succ size =>
      have hsize : enough specs room ctx.expanding (size + 1) =
          enough specs room ctx.expanding size + 1 := Nat.add_right_comm _ _ _
      obtain ⟨levels', rfl⟩ := Nat.exists_eq_add_one.2 (show 0 < levels' by omega)
      refine typeAt_succ_agrees (fun c => c.remaining < size) ?_ ?_ fun offset element => ?_
      · intro c hc hmore
        simp only [Cursor.remaining, Cursor.bytes_forward, Cursor.pos_forward] at hc ⊢
        omega
      · intro c hc
        exact Nat.lt_succ_of_lt hc
      · have hnested : Agrees (fun c => c.remaining < size) none (typeAt levels ctx)
            (typeAt levels' ctx') := ih within alike (by omega) (by omega)
        refine typeAfter_agrees ?_ alike hnested (modifierType_agrees alike ?_) offset element
        · intro c n hc
          simp only [Cursor.remaining, Cursor.bytes_forward, Cursor.pos_forward] at hc ⊢
          omega
        · intro r token blob hr hspec hfresh hblob
          obtain ⟨hmem, hroom⟩ := within r token blob hr hspec hblob
          have henter := @enough_enter specs room size ctx.expanding token hmem hfresh
          have hleft : enough specs room (ctx.expanding.enter token) room ≤ levels := by omega
          have hleft' : enough specs room (ctx.expanding.enter token) room ≤ levels' := by omega
          have hblobWithin :
              Within { ctx with expanding := ctx.expanding.enter token } specs room := within
          exact (ih hblobWithin (alike.enter token) hleft hleft').inside hroom

/-- Every reading can go into finitely many specifications. -/
theorem exists_within (ctx : SigContext) : ∃ specs room, Within ctx specs room := by
  have : Finite Token := Finite.of_injective (fun token => token.value.toBitVec.toFin) fun a b h =>
    congrArg Token.mk (UInt32.toBitVec_inj.1 (BitVec.eq_of_toFin_eq h))
  have := Fintype.ofFinite Token
  cases hr : ctx.resolver with
  | none => exact ⟨∅, 0, fun r token blob hsome => by simp [hr] at hsome⟩
  | some r =>
    let size (token : Token) : Nat := ((r.specBlob? token).map Array.size).getD 0
    refine ⟨Finset.univ, Finset.univ.sup size + 1, fun r' token blob hr' _ hblob => ?_⟩
    obtain rfl : r = r' := Option.some.inj (hr.symm.trans hr')
    have hle : size token ≤ Finset.univ.sup size := Finset.le_sup (Finset.mem_univ token)
    simp only [size, hblob, Option.map_some, Option.getD_some] at hle
    exact ⟨Finset.mem_univ token, Nat.lt_succ_of_le hle⟩

/-- From some nesting limit on the reading has one outcome, and that is not the limit. -/
def Settles (reading : (maxDepth : Nat) → SigDecoder α) (s : SigState) : Prop :=
  ∃ least, (∃ a s', ∀ maxDepth, least ≤ maxDepth → reading maxDepth s = .ok a s') ∨
    ∃ fault, ¬ fault.IsLimit ∧
      ∀ maxDepth, least ≤ maxDepth → ∃ s', reading maxDepth s = .error fault s'

/-- **Every reading of a type ends**, however high the limit is and whatever it expands. -/
theorem type_settles (ctx : SigContext) (s : SigState) :
    Settles (fun maxDepth => type { ctx with maxDepth }) s := by
  obtain ⟨specs, room, within⟩ := exists_within ctx
  obtain ⟨c, depth⟩ := s
  let levels := enough specs room ctx.expanding (c.remaining + 1)
  have hagrees (maxDepth : Nat) (hle : levels + depth ≤ maxDepth) :
      Agrees (fun c' => c'.remaining < c.remaining + 1) none (typeAt levels ctx)
        (typeAt (maxDepth - depth) { ctx with maxDepth }) :=
    typeAt_settles within ⟨rfl, fun _ _ => rfl⟩ le_rfl (Nat.le_sub_of_add_le hle)
  have hstart : c.remaining < c.remaining + 1 := Nat.lt_succ_self _
  refine ⟨levels + depth, ?_⟩
  cases hrun : typeAt levels ctx ⟨c, depth⟩ with
  | ok tree s' =>
    obtain ⟨c', depth'⟩ := s'
    refine .inl ⟨tree, ⟨c', depth⟩, fun maxDepth hle => ?_⟩
    obtain ⟨-, -, hrun'⟩ := (hagrees maxDepth hle).ok _ _ tree hstart hrun
    exact hrun' depth
  | error fault s' =>
    have herror (maxDepth : Nat) (hle : levels + depth ≤ maxDepth) :
        ¬ fault.IsLimit ∧ ∃ s'', type { ctx with maxDepth } ⟨c, depth⟩ = .error fault s'' := by
      rcases (hagrees maxDepth hle).error _ _ fault hstart hrun with ⟨_, hnone, -⟩ | ⟨hlimit, hrun'⟩
      · cases hnone
      · exact ⟨hlimit, hrun' depth⟩
    exact .inr ⟨fault, (herror _ le_rfl).1, fun maxDepth hle => (herror maxDepth hle).2⟩

end SigDecoder

end CilMetadata

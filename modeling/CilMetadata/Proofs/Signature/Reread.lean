import CilMetadata.Proofs.Signature.Refusal

/-!
# What a written tree is read as

The writer takes more trees than a blob can hold: it writes a reference to nothing as 0, and a type
specification wherever a type is named. What it writes is then read as another tree.

* `TypeSig.reread` is what a reading makes of the blob of a tree. It is the tree in canonical form
  when the tree is referable (`reread_eq_canonical_iff`);
* `Recovers used e d a` says that the reader gives `a` from whatever the writer writes, if it writes
  anything; `typeAt_rereads` is the induction over the tree.
-/

namespace CilMetadata

/-! ### References -/

namespace Token

/-- What the reference to a token is read as: row 0 is no type. -/
def rereadReference (token : Token) : Except InvalidCause Token :=
  if token.isNull then .error .invalidCodedIndex else .ok token

/-- What the reference to a token is read as where a specification may not stand. -/
def rereadPlain (token : Token) : Except InvalidCause Token :=
  if token.isNull then .error .invalidCodedIndex
  else if token.isIn .typeSpec then .error .illegalTypeSpec
  else .ok token

end Token

namespace TypeSig

/-! ### Trees -/

/-- What a modifier is read as. -/
def rereadModifier (modifier : TypeSig) : TypeSig :=
  match SigEncoder.modifierToken modifier with
  | .ok token =>
    match token.rereadReference with
    | .ok token => .named .cls token
    | .error cause => .invalid cause
  | .error _ => modifier

mutual

/-- What the blob of a tree is read as. -/
def reread : TypeSig → TypeSig
  | .primitive type => .primitive type
  | .named form token =>
    match token.rereadPlain with
    | .ok token => .named form token
    | .error cause => .invalid cause
  | .wrapped wrapper inner => .wrapped wrapper inner.reread
  | .array base shape => .array base.reread shape
  | .generic param => .generic param
  | .applied form definition arguments =>
    match definition.rereadPlain with
    | .ok definition => .applied form definition (rereadAll arguments)
    | .error cause => .invalid cause
  | .modified required modifier base => .modified required (rereadModifier modifier) base.reread
  | .typeSpec token expansion => .typeSpec token expansion
  | .sentinel => .sentinel
  | .invalid cause => .invalid cause

/-- What the blobs of several trees are read as. -/
def rereadAll : List TypeSig → List TypeSig
  | [] => []
  | sig :: rest => sig.reread :: rereadAll rest

end

theorem rereadModifier_eq_iff {modifier : TypeSig} :
    rereadModifier modifier = canonicalModifier modifier ↔
      ∀ token, SigEncoder.modifierToken modifier = .ok token → token.isNull = false := by
  unfold rereadModifier canonicalModifier
  cases hmodifier : SigEncoder.modifierToken modifier with
  | error fault => simp
  | ok token => cases hnull : token.isNull <;> simp [Token.rereadReference, hnull]

mutual

/-- Exactly the referable trees are read as what they stand for. -/
theorem reread_eq_canonical_iff (sig : TypeSig) : sig.reread = sig.canonical ↔ sig.Referable := by
  match sig with
  | .primitive _ | .generic _ | .sentinel | .typeSpec _ _ | .invalid _ =>
    exact iff_of_true rfl trivial
  | .named form token =>
    cases hnull : token.isNull <;> cases hspec : token.isIn .typeSpec <;>
      simp [reread, canonical, Referable, Token.rereadPlain, hnull, hspec]
  | .wrapped wrapper inner =>
    simp [reread, canonical, Referable, reread_eq_canonical_iff inner]
  | .array base shape => simp [reread, canonical, Referable, reread_eq_canonical_iff base]
  | .applied form definition arguments =>
    cases hnull : definition.isNull <;> cases hspec : definition.isIn .typeSpec <;>
      simp [reread, canonical, Referable, Token.rereadPlain, hnull, hspec,
        rereadAll_eq_canonicalAll_iff arguments]
  | .modified required modifier base =>
    simp [reread, canonical, Referable, rereadModifier_eq_iff, reread_eq_canonical_iff base]

theorem rereadAll_eq_canonicalAll_iff (sigs : List TypeSig) :
    rereadAll sigs = canonicalAll sigs ↔ AllReferable sigs := by
  match sigs with
  | [] => exact iff_of_true rfl trivial
  | sig :: rest =>
    simp [rereadAll, canonicalAll, AllReferable, reread_eq_canonical_iff sig,
      rereadAll_eq_canonicalAll_iff rest]

end

theorem rereadAll_eq_map (sigs : List TypeSig) : rereadAll sigs = sigs.map reread := by
  induction sigs with
  | nil => rfl
  | cons sig rest ih => rw [rereadAll, List.map_cons, ih]

end TypeSig

namespace SigDecoder

variable {α β : Type} {used : Nat}

/-! ### Whatever is written -/

/-- Whenever the encoder succeeds, the reader takes what it has written for `a`. -/
def Recovers (used : Nat) (e : Encoder Unit) (d : SigDecoder α) (a : α) : Prop :=
  ∀ out out', e out = .ok () out' → ∃ bytes : List UInt8,
    out' = out ++ bytes.toArray ∧ Reads used d bytes a

theorem ReadsBack.recovers {e : Encoder Unit} {d : SigDecoder α} {a : α}
    (h : ReadsBack used e d a) : Recovers used e d a := by
  obtain ⟨bytes, hemit, hread⟩ := h
  intro out out' hout
  rw [hemit out.size out rfl] at hout
  cases hout
  exact ⟨bytes, rfl, hread⟩

theorem recovers_pure (a : α) : Recovers used (pure ()) (pure a) a := (ReadsBack.nothing a).recovers

theorem Recovers.bind {e e' : Encoder Unit} {d : SigDecoder α} {f : α → SigDecoder β} {a : α}
    {b : β} (h : Recovers used e d a) (h' : Recovers used e' (f a) b) :
    Recovers used (do e; e') (d >>= f) b := by
  intro out out' hout
  obtain ⟨⟨⟩, mid, hfirst, hsecond⟩ := bind_eq_ok.1 hout
  obtain ⟨first, rfl, hread⟩ := h out mid hfirst
  obtain ⟨second, rfl, hread'⟩ := h' _ out' hsecond
  exact ⟨first ++ second, by simp [Array.append_assoc], hread.bind hread'⟩

theorem Recovers.andThen {e : Encoder Unit} {d : SigDecoder α} {f : α → SigDecoder β} {a : α}
    {b : β} (h : Recovers used e d a) (hf : f a = pure b) : Recovers used e (d >>= f) b := by
  intro out out' hout
  obtain ⟨bytes, hwritten, hread⟩ := h out out' hout
  exact ⟨bytes, hwritten, hread.andThen hf⟩

theorem Recovers.map {e : Encoder Unit} {d : SigDecoder α} {a : α} (h : Recovers used e d a)
    (f : α → β) : Recovers used e (do return f (← d)) (f a) :=
  h.andThen rfl

/-- What is read back if it can be written is recovered. -/
theorem recovers_of_requires {e : Encoder Unit} {d : SigDecoder α} {a : α} {p : Prop}
    (h : Encoder.Requires e p) (hread : p → ReadsBack used e d a) : Recovers used e d a :=
  fun out out' hout => (hread (h out out' hout)).recovers out out' hout

theorem recovers_compressed (value : Nat) :
    Recovers used (Encoder.compressed value) compressed value :=
  recovers_of_requires (Encoder.requires_compressed value) compressed_readsBack

theorem recovers_count (n : Nat) : Recovers used (SigEncoder.count n) compressed n :=
  recovers_of_requires (SigEncoder.requires_count n) count_readsBack

theorem recovers_times {encode : α → Encoder Unit} {d : SigDecoder β} {value : α → β}
    {items : List α} (h : ∀ item ∈ items, Recovers used (encode item) d (value item)) :
    Recovers used (Encoder.each encode items) (times d items.length) (items.map value) := by
  induction items with
  | nil => exact recovers_pure []
  | cons item rest ih =>
    have hrest := ih fun a ha => h a (List.mem_cons_of_mem _ ha)
    exact (h item List.mem_cons_self).bind (hrest.map (value item :: ·))

/-! ### Parts of nodes -/

theorem reference_recovers (token : Token) :
    Recovers used (SigEncoder.reference token) (reference none) token.rereadReference := by
  unfold Token.rereadReference
  split_ifs with hnull
  · have hzero : SigEncoder.reference token = Encoder.compressed 0 := by
      rw [SigEncoder.reference, CodedKind.encode, if_pos hnull]
    have hnothing : CodedKind.typeDefOrRef.decode 0 = .ok none := rfl
    intro out out' hout
    rw [hzero] at hout
    obtain ⟨bytes, hwritten, hread⟩ := @recovers_compressed used 0 out out' hout
    refine ⟨bytes, hwritten, fun s hs hahead => ?_⟩
    simp [reference, hread s hs hahead, hnothing]
  · refine recovers_of_requires (SigEncoder.requires_reference token) fun hnames => ?_
    exact reference_readsBack (hnames (Bool.eq_false_iff.2 hnull)) (List.Subset.refl _)

theorem plainReference_recovers (token : Token) :
    Recovers used (SigEncoder.reference token) (plainReference none) token.rereadPlain := by
  refine (reference_recovers token).andThen ?_
  cases hnull : token.isNull <;> cases hspec : token.isIn .typeSpec <;>
    simp [Token.rereadReference, Token.rereadPlain, hnull, hspec]

theorem namedType_recovers (form : NamedForm) (token : Token) :
    Recovers used (SigEncoder.reference token) (namedType none form)
      (TypeSig.named form token).reread := by
  refine (plainReference_recovers token).andThen ?_
  rw [TypeSig.reread]
  cases token.rereadPlain <;> rfl

theorem arrayShape_recovers (shape : ArrayShape) :
    Recovers used (SigEncoder.arrayShape shape) arrayShape shape :=
  recovers_of_requires (SigEncoder.requires_arrayShape shape) arrayShape_readsBack

/-! ### Trees -/

/-- Whatever a tree is written as is read within `levels` levels as `reread` says, and only a
sentinel starts with a sentinel's byte. -/
def TypeRereads (used levels : Nat) (ctx : SigContext) (sig : TypeSig) : Prop :=
  ∀ out out', SigEncoder.type sig out = .ok () out' → ∃ lead tail,
    out' = out ++ (lead :: tail).toArray ∧ (lead = Element.sentinel ↔ sig = .sentinel) ∧
      Reads used (typeAt levels ctx) (lead :: tail) sig.reread

theorem TypeRereads.recovers {levels : Nat} {ctx : SigContext} {sig : TypeSig}
    (h : TypeRereads used levels ctx sig) :
    Recovers used (SigEncoder.type sig) (typeAt levels ctx) sig.reread := by
  intro out out' hout
  obtain ⟨lead, tail, hwritten, -, hread⟩ := h out out' hout
  exact ⟨lead :: tail, hwritten, hread⟩

/-- A node is reread if all that follows its element byte is. -/
theorem typeRereads_of_tail {levels : Nat} {ctx : SigContext} {sig : TypeSig} {lead : UInt8}
    {body : Encoder Unit} {d : SigDecoder TypeSig} (h : Recovers used body d sig.reread)
    (hlead : lead = Element.sentinel ↔ sig = .sentinel)
    (hencode : SigEncoder.type sig = do Encoder.byte lead; body)
    (hdecode : ∀ offset, typeAfter ctx (typeAt levels) offset lead = d) :
    TypeRereads used (levels + 1) ctx sig := by
  intro out out' hout
  rw [hencode] at hout
  obtain ⟨⟨⟩, mid, hbyte, hbody⟩ := bind_eq_ok.1 hout
  rw [Encoder.emitsAt_byte out.size lead out rfl] at hbyte
  cases hbyte
  obtain ⟨tail, rfl, hread⟩ := h _ out' hbody
  refine ⟨lead, tail, by simp, hlead, fun s hs hahead => ?_⟩
  have hfirst := @reads_lift _ used _ _ _ fun n => Decoder.readsAt_byte n lead
  have hnode := hfirst.bind (hdecode s.cursor.pos ▸ hread)
  rw [typeAt]
  exact hnode s hs hahead

variable {ctx : SigContext}

theorem appliedType_recovers (plain : ctx.resolver = none) (form : NamedForm) (definition : Token)
    {arguments : List TypeSig} {nested : SigContext → SigDecoder TypeSig}
    (hargs : Recovers used (SigEncoder.each arguments) (times (nested ctx) arguments.length)
      (TypeSig.rereadAll arguments)) :
    Recovers used
      (do Encoder.byte form.element; SigEncoder.reference definition
          SigEncoder.count arguments.length; SigEncoder.each arguments)
      (appliedType ctx nested) (TypeSig.applied form definition arguments).reread := by
  have hcount := @recovers_count used arguments.length
  refine (byte_readsBack form.element).recovers.bind ?_
  rw [NamedForm.ofElement?_element, plain, TypeSig.reread]
  refine (plainReference_recovers definition).bind ?_
  unfold Token.rereadPlain
  split_ifs
  · exact hcount.bind (hargs.map _)
  · exact hcount.bind (hargs.map _)
  · exact hcount.bind (hargs.map _)

/-- Without a resolver a modifier is the token that names it, or no type. -/
theorem modifiedType_recovers (plain : ctx.resolver = none) {required : Bool} {modifier : TypeSig}
    {token : Token} {base : TypeSig} {nested : SigContext → SigDecoder TypeSig}
    (htoken : SigEncoder.modifierToken modifier = .ok token)
    (hbase : Recovers used (SigEncoder.type base) (nested ctx) base.reread) :
    Recovers used (do SigEncoder.reference token; SigEncoder.type base)
      (modifiedType ctx nested required) (TypeSig.modified required modifier base).reread := by
  rw [modifiedType, plain, TypeSig.reread, TypeSig.rereadModifier, htoken]
  refine (reference_recovers token).bind ?_
  cases hnull : token.isNull with
  | true =>
    simp only [Token.rereadReference, hnull, if_true]
    exact hbase.map _
  | false =>
    simp only [Token.rereadReference, hnull, Bool.false_eq_true, if_false, modifierType, plain,
      pure_bind]
    exact hbase.map _

mutual

/-- What a tree is written as is reread, given a level for each step of its height. -/
theorem typeAt_rereads (plain : ctx.resolver = none) (sig : TypeSig) (levels : Nat)
    (hlevels : sig.nesting ≤ levels) : TypeRereads used levels ctx sig := by
  obtain ⟨levels, rfl⟩ := Nat.exists_eq_add_one.2 (Nat.lt_of_lt_of_le sig.nesting_pos hlevels)
  match sig with
  | .primitive type =>
    refine typeRereads_of_tail (recovers_pure _)
      (iff_of_false (primitive_element_ne_sentinel type) nofun) ?_
      fun offset => typeAfter_primitive ctx _ offset type
    rw [SigEncoder.type, bind_pure]
  | .sentinel =>
    refine typeRereads_of_tail (recovers_pure _) (iff_of_true rfl rfl) ?_
      fun offset => typeAfter_sentinel ctx _ offset
    rw [SigEncoder.type, bind_pure]
  | .named form token =>
    refine typeRereads_of_tail (namedType_recovers form token)
      (iff_of_false (form_element_ne_sentinel form) nofun) rfl fun offset => ?_
    rw [typeAfter_named, plain]
  | .wrapped wrapper inner =>
    have hinner := (typeAt_rereads plain inner levels (by
      simp only [TypeSig.nesting] at hlevels; omega)).recovers
    exact typeRereads_of_tail (hinner.map _)
      (iff_of_false (wrapper_element_ne_sentinel wrapper) nofun) rfl
      fun offset => typeAfter_wrapped ctx _ offset wrapper
  | .array base shape =>
    have hbase := (typeAt_rereads plain base levels (by
      simp only [TypeSig.nesting] at hlevels; omega)).recovers
    exact typeRereads_of_tail (hbase.bind ((arrayShape_recovers shape).map _))
      (iff_of_false (by decide) nofun) rfl fun offset => typeAfter_array ctx _ offset
  | .generic param =>
    exact typeRereads_of_tail ((recovers_compressed param.index).map _)
      (iff_of_false (generic_element_ne_sentinel param.kind) nofun) rfl
      fun offset => typeAfter_generic ctx _ offset param.kind
  | .applied form definition arguments =>
    have hargs := each_rereads plain arguments levels (by
      simp only [TypeSig.nesting] at hlevels; omega)
    exact typeRereads_of_tail (appliedType_recovers plain form definition hargs)
      (iff_of_false (by decide) nofun) rfl fun offset => typeAfter_applied ctx _ offset
  | .modified required modifier base =>
    have hbase := (typeAt_rereads plain base levels (by
      simp only [TypeSig.nesting] at hlevels; omega)).recovers
    cases htoken : SigEncoder.modifierToken modifier with
    | error fault =>
      intro out out' hout
      rw [SigEncoder.type, htoken] at hout
      obtain ⟨-, mid, -, hthrow⟩ := bind_eq_ok.1 hout
      cases hthrow
    | ok token =>
      refine typeRereads_of_tail (modifiedType_recovers plain htoken hbase)
        (iff_of_false (modifier_element_ne_sentinel required) nofun) ?_
        fun offset => typeAfter_modified ctx _ offset required
      rw [SigEncoder.type, htoken]
  | .typeSpec token expansion =>
    intro out out' hout
    cases hout
  | .invalid cause =>
    intro out out' hout
    cases hout

/-- What several trees are written as is reread, one after the other. -/
theorem each_rereads (plain : ctx.resolver = none) (sigs : List TypeSig) (levels : Nat)
    (hlevels : TypeSig.nestingOfAll sigs ≤ levels) :
    Recovers used (SigEncoder.each sigs) (times (typeAt levels ctx) sigs.length)
      (TypeSig.rereadAll sigs) := by
  match sigs with
  | [] => exact recovers_pure []
  | sig :: rest =>
    simp only [TypeSig.nestingOfAll, max_le_iff] at hlevels
    have hsig := (typeAt_rereads plain sig levels hlevels.1).recovers
    have hrest := each_rereads plain rest levels hlevels.2
    exact hsig.bind (hrest.map (sig.reread :: ·))

end

theorem type_rereads (plain : ctx.resolver = none) {sig : TypeSig}
    (hlevels : sig.nesting ≤ ctx.maxDepth - used) :
    Recovers used (SigEncoder.type sig) (type ctx) sig.reread := by
  intro out out' hout
  obtain ⟨bytes, hwritten, hread⟩ := (typeAt_rereads plain sig _ hlevels).recovers out out' hout
  exact ⟨bytes, hwritten, hread.type⟩

theorem types_reread (plain : ctx.resolver = none) {sigs : List TypeSig}
    (hlevels : TypeSig.nestingOfAll sigs ≤ ctx.maxDepth - used) :
    Recovers used (SigEncoder.each sigs) (times (type ctx) sigs.length)
      (TypeSig.rereadAll sigs) := by
  rw [SigEncoder.each_eq, TypeSig.rereadAll_eq_map]
  exact recovers_times fun sig hsig =>
    type_rereads plain (TypeSig.nestingOfAll_le_iff.1 hlevels sig hsig)

end SigDecoder

end CilMetadata

import CilMetadata.Proofs.Bytes.Compressed
import CilMetadata.Proofs.Signature.Writable
import CilMetadata.Proofs.Table.CodedIndex

/-!
# Type trees are read back

`SigDecoder.ReadsBack used e d a` says of a writer and a reader that `d`, with `used` levels in use,
gives `a` from whatever `e` writes, and stops right behind it. The relation goes through sequences
and lists, so that the reading of a tree follows the writing of it node by node:
`typeReadsBack_of_tail` is the step from what follows an element byte to the whole node, and
`typeAt_readsBack` is the induction over the tree. A reading needs as many levels as the tree is
high.
-/

namespace CilMetadata

theorem Token.NamesRowOf.isIn_typeSpec {token : Token} (h : token.NamesRowOf [.typeDef, .typeRef]) :
    token.isIn .typeSpec = false := by
  obtain ⟨-, table, hmem, hin⟩ := h
  rw [← Bool.not_eq_true]
  intro hspec
  rw [Token.isIn_unique hin hspec] at hmem
  simp at hmem

namespace SigDecoder

variable {α β : Type} {used : Nat}

/-- With `used` levels in use and `bytes` ahead, the reader gives `a`, stops right behind `bytes`
and leaves the levels in use as they were. -/
def Reads (used : Nat) (d : SigDecoder α) (bytes : List UInt8) (a : α) : Prop :=
  ∀ s : SigState, s.depth = used → s.cursor.Ahead bytes →
    d s = .ok a { s with cursor := s.cursor.forward bytes.length }

/-- What the encoder writes, wherever that is, the reader takes for `a`. -/
def ReadsBack (used : Nat) (e : Encoder Unit) (d : SigDecoder α) (a : α) : Prop :=
  ∃ bytes, (∀ n, Encoder.EmitsAt n e bytes) ∧ Reads used d bytes a

theorem Reads.bind {d : SigDecoder α} {f : α → SigDecoder β} {first second : List UInt8} {a : α}
    {b : β} (h : Reads used d first a) (h' : Reads used (f a) second b) :
    Reads used (d >>= f) (first ++ second) b := by
  intro s hs hahead
  obtain ⟨hfirst, hsecond⟩ := Cursor.ahead_append.1 hahead
  have hnext := h' { s with cursor := s.cursor.forward first.length } hs hsecond
  change EStateM.bind d f s = _
  simp only [EStateM.bind, h s hs hfirst, hnext, Cursor.forward_forward, List.length_append]

theorem reads_pure (a : α) : Reads used (pure a) [] a :=
  fun _ _ _ => rfl

theorem reads_lift {d : Decoder α} {bytes : List UInt8} {a : α}
    (h : ∀ n, Decoder.ReadsAt n d bytes a) : Reads used (lift d) bytes a := by
  intro s _ hahead
  simp [lift, h s.cursor.pos s.cursor rfl hahead]

/-- A reader that takes nothing more once it has its first value. -/
theorem Reads.andThen {d : SigDecoder α} {f : α → SigDecoder β} {bytes : List UInt8} {a : α} {b : β}
    (h : Reads used d bytes a) (hf : f a = pure b) : Reads used (d >>= f) bytes b := by
  have hbind := h.bind (hf ▸ reads_pure b)
  rwa [List.append_nil] at hbind

/-- Looking at the next byte takes nothing. -/
theorem Reads.peek {f : UInt8 → SigDecoder α} {b : UInt8} {bytes : List UInt8} {a : α}
    (h : Reads used (f b) (b :: bytes) a) :
    Reads used (lift Decoder.peekByte >>= f) (b :: bytes) a := by
  intro s hs hahead
  change EStateM.bind (lift Decoder.peekByte) f s = _
  simp only [EStateM.bind, lift, Decoder.peekByte_of_ahead hahead]
  exact h s hs hahead

namespace ReadsBack

theorem bind {e e' : Encoder Unit} {d : SigDecoder α} {f : α → SigDecoder β} {a : α} {b : β}
    (h : ReadsBack used e d a) (h' : ReadsBack used e' (f a) b) :
    ReadsBack used (do e; e') (d >>= f) b := by
  obtain ⟨first, hemit, hread⟩ := h
  obtain ⟨second, hemit', hread'⟩ := h'
  exact ⟨first ++ second, fun n => (hemit n).bind (hemit' _), hread.bind hread'⟩

theorem nothing (a : α) : ReadsBack used (pure ()) (pure a) a :=
  ⟨[], Encoder.emitsAt_pure, reads_pure a⟩

theorem andThen {e : Encoder Unit} {d : SigDecoder α} {f : α → SigDecoder β} {a : α} {b : β}
    (h : ReadsBack used e d a) (hf : f a = pure b) : ReadsBack used e (d >>= f) b := by
  obtain ⟨bytes, hemit, hread⟩ := h
  exact ⟨bytes, hemit, hread.andThen hf⟩

theorem map {e : Encoder Unit} {d : SigDecoder α} {a : α} (h : ReadsBack used e d a)
    (f : α → β) : ReadsBack used e (do return f (← d)) (f a) :=
  h.andThen rfl

end ReadsBack

/-! ### Bytes and numbers -/

theorem byte_readsBack (b : UInt8) : ReadsBack used (Encoder.byte b) byte b :=
  ⟨[b], fun n => Encoder.emitsAt_byte n b, reads_lift fun n => Decoder.readsAt_byte n b⟩

theorem compressed_readsBack {value : Nat} (h : value ≤ compressedLimit) :
    ReadsBack used (Encoder.compressed value) compressed value := by
  obtain ⟨bytes, hbytes⟩ := Decoder.compressed_readBack h
  exact ⟨bytes, fun n => (hbytes n).1, reads_lift fun n => (hbytes n).2⟩

theorem count_readsBack {n : Nat} (h : n ≤ compressedLimit) :
    ReadsBack used (SigEncoder.count n) compressed n := by
  rw [SigEncoder.count_of_le h]
  exact compressed_readsBack h

theorem compressedSigned_readsBack {value : Int} (h : -2 ^ 28 ≤ value ∧ value < 2 ^ 28) :
    ReadsBack used (Encoder.compressedSigned value) (lift Decoder.compressedSigned) value := by
  obtain ⟨bytes, hbytes⟩ := Decoder.compressedSigned_readBack h
  exact ⟨bytes, fun n => (hbytes n).1, reads_lift fun n => (hbytes n).2⟩

theorem times_readsBack {encode : α → Encoder Unit} {d : SigDecoder α} {items : List α}
    (h : ∀ item ∈ items, ReadsBack used (encode item) d item) :
    ReadsBack used (Encoder.each encode items) (times d items.length) items := by
  induction items with
  | nil => exact ReadsBack.nothing []
  | cons item rest ih =>
    have hrest := ih fun a ha => h a (List.mem_cons_of_mem _ ha)
    exact (h item List.mem_cons_self).bind (hrest.map (item :: ·))

/-! ### References -/

theorem reference_readsBack {tables : List TableKind} {token : Token}
    (h : token.NamesRowOf tables) (hsub : tables ⊆ [.typeDef, .typeRef, .typeSpec]) :
    ReadsBack used (SigEncoder.reference token) (reference none) (.ok token) := by
  obtain ⟨hrow, table, hmem, hin⟩ := h
  have hcandidate : some table ∈ CodedKind.typeDefOrRef.candidates := by
    have hone := hsub hmem
    simp only [List.mem_cons, List.not_mem_nil, or_false] at hone
    rcases hone with rfl | rfl | rfl <;> decide
  obtain ⟨value, hvalue⟩ := CodedKind.encode_of_candidate hcandidate hin
  have hsmall : value ≤ compressedLimit := by
    have hlt := CodedKind.lt_of_encode hvalue hrow
    rw [show CodedKind.typeDefOrRef.tagBits = 2 by decide] at hlt
    simp only [compressedLimit]
    omega
  obtain ⟨bytes, hemit, hread⟩ := @compressed_readsBack used _ hsmall
  refine ⟨bytes, fun n => ?_, fun s hs hahead => ?_⟩
  · rw [SigEncoder.reference, hvalue]
    exact hemit n
  · simp [reference, hread s hs hahead, CodedKind.decode_of_encode hvalue hrow]

theorem plainReference_readsBack {token : Token} (h : token.NamesRowOf [.typeDef, .typeRef]) :
    ReadsBack used (SigEncoder.reference token) (plainReference none) (.ok token) :=
  (reference_readsBack h (by simp)).andThen (by simp [h.isIn_typeSpec])

theorem namedType_readsBack {form : NamedForm} {token : Token}
    (h : token.NamesRowOf [.typeDef, .typeRef]) :
    ReadsBack used (SigEncoder.reference token) (namedType none form) (.named form token) :=
  (plainReference_readsBack h).andThen rfl

theorem arrayShape_readsBack {shape : ArrayShape} (h : shape.Writable) :
    ReadsBack used (SigEncoder.arrayShape shape) arrayShape shape := by
  have hsizes : ReadsBack used (Encoder.each Encoder.compressed shape.sizes)
      (times compressed shape.sizes.length) shape.sizes :=
    times_readsBack fun size hsize => compressed_readsBack (h.sizes size hsize)
  have hbounds : ReadsBack used (Encoder.each Encoder.compressedSigned shape.lowerBounds)
      (times (lift Decoder.compressedSigned) shape.lowerBounds.length) shape.lowerBounds :=
    times_readsBack fun bound hbound => compressedSigned_readsBack (h.lowerBounds bound hbound)
  refine (compressed_readsBack h.rank).bind ?_
  refine (count_readsBack h.sizeCount).bind (hsizes.bind ?_)
  exact (count_readsBack h.boundCount).bind (hbounds.map _)

/-! ### Nodes

What a reading does after each element byte. -/

theorem primitive_element_ne_sentinel (type : Primitive) : type.element ≠ Element.sentinel := by
  cases type <;> decide

theorem wrapper_element_ne_sentinel (wrapper : Wrapper) : wrapper.element ≠ Element.sentinel := by
  cases wrapper <;> decide

theorem form_element_ne_sentinel (form : NamedForm) : form.element ≠ Element.sentinel := by
  cases form <;> decide

theorem generic_element_ne_sentinel (kind : GenericKind) : kind.element ≠ Element.sentinel := by
  cases kind <;> decide

theorem modifier_element_ne_sentinel (required : Bool) :
    Element.modifier required ≠ Element.sentinel := by
  cases required <;> decide

section Nodes

variable (ctx : SigContext) (nested : SigContext → SigDecoder TypeSig) (offset : Nat)

theorem typeAfter_primitive (type : Primitive) :
    typeAfter ctx nested offset type.element = pure (.primitive type) := by
  simp [typeAfter]

theorem typeAfter_wrapped (wrapper : Wrapper) :
    typeAfter ctx nested offset wrapper.element = do return .wrapped wrapper (← nested ctx) := by
  cases wrapper <;> rfl

theorem typeAfter_named (form : NamedForm) :
    typeAfter ctx nested offset form.element = namedType ctx.resolver form := by
  cases form <;> rfl

theorem typeAfter_sentinel :
    typeAfter ctx nested offset Element.sentinel = pure .sentinel := rfl

theorem typeAfter_generic (kind : GenericKind) :
    typeAfter ctx nested offset kind.element = do return .generic ⟨kind, ← compressed⟩ := by
  cases kind <;> rfl

theorem typeAfter_array :
    typeAfter ctx nested offset Element.array = do return .array (← nested ctx) (← arrayShape) :=
  rfl

theorem typeAfter_applied :
    typeAfter ctx nested offset Element.applied = appliedType ctx nested := rfl

theorem typeAfter_modified (required : Bool) :
    typeAfter ctx nested offset (Element.modifier required) = modifiedType ctx nested required := by
  cases required <;> rfl

end Nodes
/-! ### Trees -/

/-- A tree is read back within `levels` levels, and only a sentinel starts with a sentinel's
byte. -/
def TypeReadsBack (used levels : Nat) (ctx : SigContext) (sig : TypeSig) : Prop :=
  ∃ lead tail, (lead = Element.sentinel → sig = .sentinel) ∧
    (∀ n, Encoder.EmitsAt n (SigEncoder.type sig) (lead :: tail)) ∧
    Reads used (typeAt levels ctx) (lead :: tail) sig

theorem TypeReadsBack.readsBack {levels : Nat} {ctx : SigContext} {sig : TypeSig}
    (h : TypeReadsBack used levels ctx sig) :
    ReadsBack used (SigEncoder.type sig) (typeAt levels ctx) sig := by
  obtain ⟨lead, tail, -, hemit, hread⟩ := h
  exact ⟨lead :: tail, hemit, hread⟩

/-- A node is read back if all that follows its element byte is. -/
theorem typeReadsBack_of_tail {levels : Nat} {ctx : SigContext} {sig : TypeSig} {lead : UInt8}
    {body : Encoder Unit} {d : SigDecoder TypeSig} (h : ReadsBack used body d sig)
    (hlead : lead = Element.sentinel → sig = .sentinel)
    (hencode : SigEncoder.type sig = do Encoder.byte lead; body)
    (hdecode : ∀ offset, typeAfter ctx (typeAt levels) offset lead = d) :
    TypeReadsBack used (levels + 1) ctx sig := by
  obtain ⟨tail, hemit, hread⟩ := h
  refine ⟨lead, tail, hlead, fun n => ?_, fun s hs hahead => ?_⟩
  · rw [hencode]
    exact (Encoder.emitsAt_byte n lead).bind (hemit _)
  · have hbyte := @reads_lift _ used _ _ _ fun n => Decoder.readsAt_byte n lead
    have hnode := hbyte.bind (hdecode s.cursor.pos ▸ hread)
    rw [typeAt]
    exact hnode s hs hahead

/-- A node that is its element byte alone. -/
theorem typeReadsBack_of_byte {levels : Nat} {ctx : SigContext} {sig : TypeSig} {lead : UInt8}
    (hlead : lead = Element.sentinel → sig = .sentinel)
    (hencode : SigEncoder.type sig = Encoder.byte lead)
    (hdecode : ∀ offset, typeAfter ctx (typeAt levels) offset lead = pure sig) :
    TypeReadsBack used (levels + 1) ctx sig :=
  typeReadsBack_of_tail (ReadsBack.nothing sig) hlead (by rw [hencode, bind_pure]) hdecode

theorem modifier_of_isModifier {modifier : TypeSig} (h : modifier.IsModifier) :
    ∃ token, modifier = .named .cls token ∧
      token.NamesRowOf [.typeDef, .typeRef, .typeSpec] := by
  unfold TypeSig.IsModifier at h
  split at h
  · exact ⟨_, rfl, h⟩
  · exact h.elim

variable {ctx : SigContext}

theorem appliedType_readsBack (plain : ctx.resolver = none) {form : NamedForm} {definition : Token}
    {arguments : List TypeSig} {nested : SigContext → SigDecoder TypeSig}
    (hdef : definition.NamesRowOf [.typeDef, .typeRef])
    (hcount : arguments.length ≤ compressedLimit)
    (hargs : ReadsBack used (SigEncoder.each arguments) (times (nested ctx) arguments.length)
      arguments) :
    ReadsBack used
      (do Encoder.byte form.element; SigEncoder.reference definition
          SigEncoder.count arguments.length; SigEncoder.each arguments)
      (appliedType ctx nested) (.applied form definition arguments) := by
  refine (byte_readsBack form.element).bind ?_
  rw [NamedForm.ofElement?_element, plain]
  refine (plainReference_readsBack hdef).bind ?_
  exact (count_readsBack hcount).bind (hargs.map _)

/-- Without a resolver a modifier is the token that names it. -/
theorem modifiedType_readsBack (plain : ctx.resolver = none) {required : Bool} {token : Token}
    {base : TypeSig} {nested : SigContext → SigDecoder TypeSig}
    (htoken : token.NamesRowOf [.typeDef, .typeRef, .typeSpec])
    (hbase : ReadsBack used (SigEncoder.type base) (nested ctx) base) :
    ReadsBack used (do SigEncoder.reference token; SigEncoder.type base)
      (modifiedType ctx nested required) (.modified required (.named .cls token) base) := by
  rw [modifiedType, plain]
  refine (reference_readsBack htoken (by simp)).bind ?_
  simp only [modifierType, plain, pure_bind]
  exact hbase.map _

mutual

/-- A tree that a blob can hold is read back, given a level for each step of its height. -/
theorem typeAt_readsBack (plain : ctx.resolver = none) (sig : TypeSig) (h : sig.Writable)
    (levels : Nat) (hlevels : sig.nesting ≤ levels) : TypeReadsBack used levels ctx sig := by
  obtain ⟨levels, rfl⟩ := Nat.exists_eq_add_one.2 (Nat.lt_of_lt_of_le sig.nesting_pos hlevels)
  -- Every node takes one level and leaves the others to its subtrees.
  match sig with
  | .primitive type =>
    exact typeReadsBack_of_byte (fun hlead => absurd hlead (primitive_element_ne_sentinel type)) rfl
      fun offset => typeAfter_primitive ctx _ offset type
  | .sentinel =>
    exact typeReadsBack_of_byte (fun _ => rfl) rfl fun offset => typeAfter_sentinel ctx _ offset
  | .named form token =>
    refine typeReadsBack_of_tail (namedType_readsBack h)
      (fun hlead => absurd hlead (form_element_ne_sentinel form)) rfl fun offset => ?_
    rw [typeAfter_named, plain]
  | .wrapped wrapper inner =>
    have hinner := (typeAt_readsBack plain inner h levels (by
      simp only [TypeSig.nesting] at hlevels; omega)).readsBack
    exact typeReadsBack_of_tail (hinner.map _)
      (fun hlead => absurd hlead (wrapper_element_ne_sentinel wrapper)) rfl
      fun offset => typeAfter_wrapped ctx _ offset wrapper
  | .array base shape =>
    have hbase := (typeAt_readsBack plain base h.1 levels (by
      simp only [TypeSig.nesting] at hlevels; omega)).readsBack
    exact typeReadsBack_of_tail (hbase.bind ((arrayShape_readsBack h.2).map _))
      (fun hlead => absurd hlead (by decide)) rfl fun offset => typeAfter_array ctx _ offset
  | .generic param =>
    exact typeReadsBack_of_tail ((compressed_readsBack h).map _)
      (fun hlead => absurd hlead (generic_element_ne_sentinel param.kind)) rfl
      fun offset => typeAfter_generic ctx _ offset param.kind
  | .applied form definition arguments =>
    have hargs := each_readsBack plain arguments h.2.2 levels (by
      simp only [TypeSig.nesting] at hlevels; omega)
    exact typeReadsBack_of_tail (appliedType_readsBack plain h.1 h.2.1 hargs)
      (fun hlead => absurd hlead (by decide)) rfl fun offset => typeAfter_applied ctx _ offset
  | .modified required modifier base =>
    have hbase := (typeAt_readsBack plain base h.2 levels (by
      simp only [TypeSig.nesting] at hlevels; omega)).readsBack
    -- A modifier is no subtree here: its blob is a token, and takes no level.
    obtain ⟨token, rfl, htoken⟩ := modifier_of_isModifier h.1
    exact typeReadsBack_of_tail (modifiedType_readsBack plain htoken hbase)
      (fun hlead => absurd hlead (modifier_element_ne_sentinel required)) rfl
      fun offset => typeAfter_modified ctx _ offset required

/-- Several trees that a blob can hold are read back one after the other. -/
theorem each_readsBack (plain : ctx.resolver = none) (sigs : List TypeSig)
    (h : TypeSig.AllWritable sigs) (levels : Nat) (hlevels : TypeSig.nestingOfAll sigs ≤ levels) :
    ReadsBack used (SigEncoder.each sigs) (times (typeAt levels ctx) sigs.length) sigs := by
  match sigs with
  | [] => exact ReadsBack.nothing []
  | sig :: rest =>
    simp only [TypeSig.nestingOfAll, max_le_iff] at hlevels
    have hsig := (typeAt_readsBack plain sig h.1 levels hlevels.1).readsBack
    have hrest := each_readsBack plain rest h.2 levels hlevels.2
    exact hsig.bind (hrest.map (sig :: ·))

end

end SigDecoder

end CilMetadata

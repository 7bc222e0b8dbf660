import CilMetadata.Proofs.Signature.ReadBack
import Mathlib.Tactic.IntervalCases

/-!
# Signatures are read back

Every signature of `Signature.Writable` has a blob, and a reading without a resolver that may nest
as deep as the signature does gives the signature back and stops at the end of the blob, whatever
follows it (`Signature.decode_encode_append`). The parameters of a method take some care: the
reading looks for the sentinel of the variable arguments before each fixed parameter
(`params_readsBack`).
-/

namespace CilMetadata

namespace TypeSig

theorem allWritable_iff {sigs : List TypeSig} :
    AllWritable sigs ↔ ∀ sig ∈ sigs, sig.Writable := by
  induction sigs with
  | nil => simp [AllWritable]
  | cons sig rest ih => simp [AllWritable, ih]

theorem nestingOfAll_le_iff {sigs : List TypeSig} {levels : Nat} :
    nestingOfAll sigs ≤ levels ↔ ∀ sig ∈ sigs, sig.nesting ≤ levels := by
  induction sigs with
  | nil => simp [nestingOfAll]
  | cons sig rest ih => simp [nestingOfAll, ih]

end TypeSig

open TypeSig

theorem SigEncoder.each_eq (sigs : List TypeSig) :
    SigEncoder.each sigs = Encoder.each SigEncoder.type sigs := by
  induction sigs with
  | nil => rfl
  | cons sig rest ih => rw [SigEncoder.each, Encoder.each, ih]

namespace SigDecoder

variable {used : Nat} {ctx : SigContext}

/-! ### Types -/

theorem Reads.type {bytes : List UInt8} {sig : TypeSig}
    (h : Reads used (typeAt (ctx.maxDepth - used) ctx) bytes sig) :
    Reads used (type ctx) bytes sig := by
  intro s hs hahead
  have hs' : ctx.maxDepth - s.depth = ctx.maxDepth - used := by rw [hs]
  rw [SigDecoder.type, hs']
  exact h s hs hahead

theorem type_readsBack (plain : ctx.resolver = none) {sig : TypeSig} (h : sig.Writable)
    (hlevels : sig.nesting ≤ ctx.maxDepth - used) :
    ReadsBack used (SigEncoder.type sig) (type ctx) sig := by
  obtain ⟨bytes, hemit, hread⟩ := (typeAt_readsBack plain sig h _ hlevels).readsBack
  exact ⟨bytes, hemit, hread.type⟩

theorem types_readsBack (plain : ctx.resolver = none) {sigs : List TypeSig} (h : AllWritable sigs)
    (hlevels : nestingOfAll sigs ≤ ctx.maxDepth - used) :
    ReadsBack used (SigEncoder.each sigs) (times (type ctx) sigs.length) sigs := by
  rw [SigEncoder.each_eq]
  refine times_readsBack fun sig hsig => ?_
  exact type_readsBack plain (allWritable_iff.1 h sig hsig) (nestingOfAll_le_iff.1 hlevels sig hsig)

/-! ### Parameters -/

/-- The variable arguments with the sentinel before them, if there are any. -/
theorem varargs_readsBack (plain : ctx.resolver = none) {varargs : List TypeSig}
    (h : AllWritable varargs) (hlevels : nestingOfAll varargs ≤ ctx.maxDepth - used) :
    ReadsBack used
      (if !varargs.isEmpty then do Encoder.byte Element.sentinel; SigEncoder.each varargs
       else pure ())
      (params ctx varargs.length) ([], varargs) := by
  cases varargs with
  | nil => exact ReadsBack.nothing _
  | cons first rest =>
    obtain ⟨bytes, hemit, hread⟩ := @types_readsBack used _ plain _ h hlevels
    refine ⟨Element.sentinel :: bytes, fun n => ?_, ?_⟩
    · exact (Encoder.emitsAt_byte n _).bind (hemit _)
    · refine Reads.peek ?_
      rw [if_pos rfl]
      have hskip : Reads used (lift (Decoder.skip 1)) [Element.sentinel] () :=
        reads_lift fun n => Decoder.readsAt_skip n [Element.sentinel]
      exact hskip.bind (hread.andThen rfl)

/-- Fixed parameters, none of which is a sentinel, and the variable arguments behind them. -/
theorem params_readsBack (plain : ctx.resolver = none) {fixed varargs : List TypeSig}
    (h : AllWritable (fixed ++ varargs)) (hfixed : ∀ param ∈ fixed, param ≠ .sentinel)
    (hlevels : nestingOfAll (fixed ++ varargs) ≤ ctx.maxDepth - used) :
    ReadsBack used
      (do SigEncoder.each fixed
          if !varargs.isEmpty then
            Encoder.byte Element.sentinel
            SigEncoder.each varargs)
      (params ctx (fixed.length + varargs.length)) (fixed, varargs) := by
  induction fixed with
  | nil =>
    rw [List.nil_append] at h hlevels
    rw [List.length_nil, Nat.zero_add]
    exact varargs_readsBack plain h hlevels
  | cons param rest ih =>
    rw [List.cons_append] at h hlevels
    simp only [nestingOfAll, max_le_iff] at hlevels
    obtain ⟨lead, tail, hlead, hemit, hread⟩ :=
      @typeAt_readsBack used _ plain param h.1 _ hlevels.1
    obtain ⟨bytes, hemit', hread'⟩ :=
      ih h.2 (fun p hp => hfixed p (List.mem_cons_of_mem _ hp)) hlevels.2
    -- The reading looks at the first byte of the parameter, which must not be the sentinel.
    have hne : lead ≠ Element.sentinel := fun heq =>
      hfixed param List.mem_cons_self (hlead heq)
    refine ⟨(lead :: tail) ++ bytes, fun n => ?_, ?_⟩
    · rw [SigEncoder.each, bind_assoc]
      exact (hemit n).bind (hemit' _)
    · rw [List.length_cons, Nat.add_right_comm, params, List.cons_append]
      refine Reads.peek ?_
      rw [if_neg hne, ← List.cons_append]
      refine hread.type.bind ?_
      exact hread'.andThen rfl

/-! ### Headed signatures -/

theorem toNat_and_conventionMask (convention : UInt8) :
    (convention &&& Header.conventionMask).toNat = convention.toNat % 16 := by
  rw [UInt8.toNat_and]
  exact Nat.and_two_pow_sub_one_eq_mod _ 4

/-- The first byte of a method holds its flags, and as much of its convention as fits. -/
theorem methodHead_fields (sig : MethodSig) :
    SigEncoder.methodHead sig &&& Header.conventionMask =
        sig.convention &&& Header.conventionMask ∧
      (SigEncoder.methodHead sig &&& Header.thisBit != 0) = sig.hasThis ∧
      (SigEncoder.methodHead sig &&& Header.explicitThisBit != 0) = sig.explicitThis ∧
      (SigEncoder.methodHead sig &&& Header.genericBit = 0 ↔ sig.genericCount = 0) := by
  have hcases : ∀ n < 16, ∀ this explicit generic : Bool,
      let head := UInt8.ofNat n
        ||| (if this then Header.thisBit else 0)
        ||| (if explicit then Header.explicitThisBit else 0)
        ||| (if generic then Header.genericBit else 0)
      head &&& Header.conventionMask = UInt8.ofNat n ∧ (head &&& Header.thisBit != 0) = this ∧
        (head &&& Header.explicitThisBit != 0) = explicit ∧
        (head &&& Header.genericBit = 0 ↔ generic = false) := by decide +kernel
  have hlt : (sig.convention &&& Header.conventionMask).toNat < 16 := by
    rw [toNat_and_conventionMask]
    exact Nat.mod_lt _ (by decide)
  have hbits := hcases _ hlt sig.hasThis sig.explicitThis (decide (0 < sig.genericCount))
  simpa [SigEncoder.methodHead] using hbits

theorem methodHead_bits {sig : MethodSig} (h : sig.convention ≤ Header.lastConvention) :
    SigEncoder.methodHead sig &&& Header.conventionMask = sig.convention ∧
      (SigEncoder.methodHead sig &&& Header.thisBit != 0) = sig.hasThis ∧
      (SigEncoder.methodHead sig &&& Header.explicitThisBit != 0) = sig.explicitThis ∧
      (SigEncoder.methodHead sig &&& Header.genericBit = 0 ↔ sig.genericCount = 0) := by
  have hkept : sig.convention &&& Header.conventionMask = sig.convention := by
    rw [UInt8.le_iff_toNat_le] at h
    rw [← UInt8.toNat_inj, toNat_and_conventionMask]
    simp only [Header.lastConvention, UInt8.reduceToNat] at h
    omega
  simpa only [hkept] using methodHead_fields sig

theorem method_readsBack (plain : ctx.resolver = none) {sig : MethodSig} (h : sig.Writable)
    (hlevels : (Signature.method sig).nesting ≤ ctx.maxDepth - used) :
    ReadsBack used (SigEncoder.method sig) (method ctx) sig := by
  obtain ⟨hconv, hthis, hexplicit, hgeneric⟩ := methodHead_bits h.convention
  rw [Signature.nesting, List.cons_append, nestingOfAll, max_le_iff] at hlevels
  have hall : AllWritable (sig.params ++ sig.varargs) :=
    allWritable_iff.2 fun param hparam => (List.mem_append.1 hparam).elim
      (allWritable_iff.1 h.params param) (allWritable_iff.1 h.varargs param)
  have hparams := @params_readsBack used _ plain _ _ hall h.fixed hlevels.2
  have htype := @type_readsBack used _ plain _ h.returnType hlevels.1
  have hcount := @count_readsBack used _ h.count
  refine (byte_readsBack (SigEncoder.methodHead sig)).bind ?_
  simp only [hconv, hthis, hexplicit, hgeneric]
  rw [if_neg (UInt8.not_lt.2 h.convention)]
  by_cases hzero : sig.genericCount = 0
  · rw [if_neg (by omega), if_pos hzero, pure_bind, ← hzero]
    exact hcount.bind (htype.bind (hparams.andThen rfl))
  · rw [if_pos (by omega), if_neg hzero]
    refine (compressed_readsBack h.genericCount).bind ?_
    exact hcount.bind (htype.bind (hparams.andThen rfl))

theorem field_readsBack (plain : ctx.resolver = none) {sig : FieldSig}
    (h : (Signature.field sig).Writable)
    (hlevels : (Signature.field sig).nesting ≤ ctx.maxDepth - used) :
    ReadsBack used (SigEncoder.field sig) (field ctx) sig := by
  refine (byte_readsBack Header.field).bind ?_
  rw [if_pos rfl]
  exact (type_readsBack plain h hlevels).map _

theorem property_readsBack (plain : ctx.resolver = none) {sig : PropertySig} (h : sig.Writable)
    (hlevels : (Signature.property sig).nesting ≤ ctx.maxDepth - used) :
    ReadsBack used (SigEncoder.property sig) (property ctx) sig := by
  rw [Signature.nesting, nestingOfAll, max_le_iff] at hlevels
  have hbits : ∀ this : Bool,
      let head := Header.property ||| (if this then Header.thisBit else 0)
      head &&& Header.conventionMask = Header.property ∧ (head &&& Header.thisBit != 0) = this := by
    decide
  obtain ⟨hkind, hthis⟩ := hbits sig.hasThis
  have htype := @type_readsBack used _ plain _ h.propertyType hlevels.1
  refine (byte_readsBack _).bind ?_
  rw [if_pos hkind, hthis]
  refine (count_readsBack h.count).bind (htype.bind ?_)
  exact (types_readsBack plain h.params hlevels.2).map _

theorem locals_readsBack (plain : ctx.resolver = none) {sig : LocalsSig}
    (h : (Signature.locals sig).Writable)
    (hlevels : (Signature.locals sig).nesting ≤ ctx.maxDepth - used) :
    ReadsBack used (SigEncoder.locals sig) (locals ctx) sig := by
  refine (byte_readsBack Header.locals).bind ?_
  rw [if_pos rfl]
  exact (count_readsBack h.1).bind ((types_readsBack plain h.2 hlevels).map _)

theorem methodSpec_readsBack (plain : ctx.resolver = none) {sig : MethodSpecSig}
    (h : (Signature.methodSpec sig).Writable)
    (hlevels : (Signature.methodSpec sig).nesting ≤ ctx.maxDepth - used) :
    ReadsBack used (SigEncoder.methodSpec sig) (methodSpec ctx) sig := by
  refine (byte_readsBack Header.methodSpec).bind ?_
  rw [if_pos rfl]
  exact (count_readsBack h.1).bind ((types_readsBack plain h.2 hlevels).map _)

end SigDecoder

namespace Signature

open SigDecoder

/-- A signature of any kind is read back. -/
theorem decode_readsBack {used : Nat} {ctx : SigContext} (plain : ctx.resolver = none)
    {sig : Signature} (h : sig.Writable) (hlevels : sig.nesting ≤ ctx.maxDepth - used) :
    ReadsBack used sig.encode (decode ctx sig.kind) sig := by
  cases sig with
  | type sig => exact (type_readsBack plain h hlevels).map _
  | method sig => exact (method_readsBack plain h hlevels).map _
  | field sig => exact (field_readsBack plain h hlevels).map _
  | property sig => exact (property_readsBack plain h hlevels).map _
  | locals sig => exact (locals_readsBack plain h hlevels).map _
  | methodSpec sig => exact (methodSpec_readsBack plain h hlevels).map _

/-- **Signatures survive being written and read.** A writable signature has a blob; a reading
without a resolver that may nest as deep as the signature takes exactly the blob, whatever follows,
and gives the signature back. -/
theorem decode_encode_append (ctx : SigContext) (plain : ctx.resolver = none) (sig : Signature)
    (h : sig.Writable) (hlevels : sig.nesting ≤ ctx.maxDepth) (suffix : Array UInt8) :
    ∃ blob, sig.encode.bytes? = .ok blob ∧
      decode ctx sig.kind { cursor := { bytes := blob ++ suffix } } =
        .ok sig { cursor := { bytes := blob ++ suffix, pos := blob.size } } := by
  obtain ⟨bytes, hemit, hread⟩ := @decode_readsBack 0 _ plain _ h hlevels
  refine ⟨bytes.toArray, (hemit 0).bytes?, ?_⟩
  have hstart := hread { cursor := { bytes := bytes.toArray ++ suffix } } rfl
    (Cursor.ahead_start bytes suffix)
  simpa [Cursor.forward] using hstart

/-- A call with variable arguments, whose types use references of two bytes, a modifier named by a
specification, and an array with a negative lower bound. -/
def varargsCall : MethodSig where
  convention := 5
  hasThis := true
  genericCount := 2
  returnType :=
    .modified true (.named .cls ⟨0x1B000003⟩) (.wrapped .szArray (.generic ⟨.method, 1⟩))
  params := [
    .applied .valueType ⟨0x01000040⟩ [.primitive .string, .wrapped .ptr (.primitive .void)],
    .array (.primitive .i4) ⟨2, [300], [-3, 0]⟩]
  varargs := [.sentinel, .primitive .i8]

theorem decode_encode_append_varargsCall :
    ∃ blob, (method varargsCall).encode.bytes? = .ok blob ∧
      decode { maxDepth := 3 } .method { cursor := { bytes := blob ++ #[0x41] } } =
        .ok (method varargsCall) { cursor := { bytes := blob ++ #[0x41], pos := blob.size } } := by
  have hwritable : varargsCall.Writable :=
    { convention := by decide
      genericCount := by decide
      count := by decide
      returnType := by decide
      params := by decide
      varargs := by decide
      fixed := by simp [varargsCall] }
  exact decode_encode_append { maxDepth := 3 } rfl (method varargsCall) hwritable (by decide)
    #[0x41]

end Signature

end CilMetadata

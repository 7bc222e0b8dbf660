import CilMetadata.Proofs.Bytes.Following
import CilMetadata.Proofs.Signature.Reread

/-!
# Which signatures keep their meaning

The blob of a method may fall apart where the blobs of its types do not: a calling convention loses
its high bits, and a sentinel among the fixed parameters starts the variable ones, for which the
count may then ask too much. So a reading of it need not succeed.

* `MethodSig.reread` is the outcome of reading the blob of a method. It is the method in canonical
  form when the method is representable (`reread_eq_canonical_iff`);
* `Concludes used d bytes r` says that the reader ends with the outcome `r` on a blob that ends
  with `bytes`, `Yields used e d r` that it does so on whatever the encoder writes;
* `SigDecoder.written_keeps_meaning_iff` puts types and methods together.
-/

namespace CilMetadata

open TypeSig

/-! ### Methods -/

namespace TypeSig

/-- What the fixed parameters and the variable ones are read as.

A sentinel among the fixed ones takes the place of one that is to be read, so that one is missing in
the end, unless the sentinel of the variable ones stands for it. -/
def rereadParams (varargs : List TypeSig) :
    List TypeSig → Except Fault (List TypeSig × List TypeSig)
  | [] => .ok ([], rereadAll varargs)
  | .sentinel :: rest =>
    if varargs.isEmpty then .error .outOfBounds
    else .ok ([], rereadAll (rest ++ .sentinel :: varargs))
  | param :: rest => (rereadParams varargs rest).map fun split =>
    (param.reread :: split.1, split.2)

theorem rereadParams_sentinel (varargs rest : List TypeSig) :
    rereadParams varargs (.sentinel :: rest) =
      if varargs.isEmpty then .error .outOfBounds
      else .ok ([], rereadAll (rest ++ .sentinel :: varargs)) := by
  rw [rereadParams]

theorem rereadParams_cons {param : TypeSig} (h : param ≠ .sentinel) (varargs rest : List TypeSig) :
    rereadParams varargs (param :: rest) = (rereadParams varargs rest).map fun split =>
      (param.reread :: split.1, split.2) := by
  rw [rereadParams]
  exact h

/-- Parameters keep their meaning when they are referable and no sentinel stands among the fixed
ones. -/
theorem rereadParams_eq_canonical_iff {varargs fixed : List TypeSig} :
    rereadParams varargs fixed = .ok (canonicalAll fixed, canonicalAll varargs) ↔
      AllReferable fixed ∧ AllReferable varargs ∧ ∀ param ∈ fixed, param ≠ .sentinel := by
  induction fixed with
  | nil =>
    simp [rereadParams, canonicalAll, AllReferable, rereadAll_eq_canonicalAll_iff]
  | cons param rest ih =>
    by_cases hsentinel : param = .sentinel
    · subst hsentinel
      rw [rereadParams_sentinel]
      split_ifs <;> simp [canonicalAll]
    · rw [rereadParams_cons hsentinel]
      have hhead := reread_eq_canonical_iff param
      cases hrest : rereadParams varargs rest with
      | error fault =>
        rw [hrest] at ih
        simp only [reduceCtorEq, false_iff] at ih
        simp only [Except.map, reduceCtorEq, false_iff]
        rintro ⟨⟨-, hfixed⟩, hvarargs, hnone⟩
        exact ih ⟨hfixed, hvarargs, fun p hp => hnone p (List.mem_cons_of_mem _ hp)⟩
      | ok split =>
        rw [hrest] at ih
        simp only [Except.ok.injEq, Prod.ext_iff] at ih
        simp only [Except.map, canonicalAll, AllReferable, Except.ok.injEq, Prod.mk.injEq,
          List.cons.injEq, hhead, List.forall_mem_cons]
        tauto

end TypeSig

namespace MethodSig

/-- What the blob of a method is read as. -/
def reread (sig : MethodSig) : Except Fault MethodSig :=
  let convention := sig.convention &&& Header.conventionMask
  if Header.lastConvention < convention then
    .error (.malformed (.callingConvention (SigEncoder.methodHead sig)))
  else (rereadParams sig.varargs sig.params).map fun split =>
    { sig with
      convention
      returnType := sig.returnType.reread
      params := split.1
      varargs := split.2 }

/-- The calling conventions that a blob can hold and a reading accepts. -/
theorem convention_kept_iff (convention : UInt8) :
    (¬Header.lastConvention < convention &&& Header.conventionMask ∧
      convention &&& Header.conventionMask = convention) ↔ convention ≤ Header.lastConvention := by
  rw [UInt8.not_lt, UInt8.le_iff_toNat_le, UInt8.le_iff_toNat_le, ← UInt8.toNat_inj,
    SigDecoder.toNat_and_conventionMask]
  simp only [Header.lastConvention, UInt8.reduceToNat]
  omega

/-- Exactly the representable methods are read as what they stand for. -/
theorem reread_eq_canonical_iff (sig : MethodSig) :
    sig.reread = .ok sig.canonical ↔ sig.Representable := by
  have hconvention := convention_kept_iff sig.convention
  have hparams := @rereadParams_eq_canonical_iff sig.varargs sig.params
  have hreturn := TypeSig.reread_eq_canonical_iff sig.returnType
  rw [representable_iff, ← hconvention, ← hreturn, ← hparams, reread, canonical]
  split_ifs with hlast
  · simp [hlast]
  · cases rereadParams sig.varargs sig.params with
    | error fault => simp [Except.map]
    | ok split => simp [Except.map, hlast, Prod.ext_iff]

end MethodSig

theorem SigEncoder.each_append (first second : List TypeSig) :
    SigEncoder.each (first ++ second) =
      (do SigEncoder.each first
          SigEncoder.each second) := by
  induction first with
  | nil => rfl
  | cons sig rest ih => rw [List.cons_append, SigEncoder.each, SigEncoder.each, ih, bind_assoc]

namespace SigDecoder

variable {α β : Type} {used : Nat}

/-! ### Readings to the end of a blob -/

/-- The outcome of a reader. -/
def outcome (d : SigDecoder α) (s : SigState) : Except Fault α :=
  match d s with
  | .ok a _ => .ok a
  | .error fault _ => .error fault

/-- With `used` levels in use and `bytes` left of the blob, the reader ends with the outcome `r`. -/
def Concludes (used : Nat) (d : SigDecoder α) (bytes : List UInt8) (r : Except Fault α) : Prop :=
  ∀ s : SigState, s.depth = used → s.cursor.pos ≤ s.cursor.bytes.size → s.cursor.rest = bytes →
    outcome d s = r

theorem Reads.concludes {d : SigDecoder α} {bytes : List UInt8} {a : α} (h : Reads used d bytes a) :
    Concludes used d bytes (.ok a) := by
  intro s hs hpos hrest
  rw [outcome, h s hs ⟨hpos, hrest ▸ List.prefix_rfl⟩]

theorem concludes_throw (fault : Fault) (bytes : List UInt8) :
    Concludes used (throw fault : SigDecoder α) bytes (.error fault) :=
  fun _ _ _ _ => rfl

theorem Reads.thenConcludes {d : SigDecoder α} {f : α → SigDecoder β} {first second : List UInt8}
    {a : α} {r : Except Fault β} (h : Reads used d first a) (h' : Concludes used (f a) second r) :
    Concludes used (d >>= f) (first ++ second) r := by
  intro s hs hpos hrest
  have hahead : s.cursor.Ahead first := ⟨hpos, hrest ▸ List.prefix_append first second⟩
  have hnext := h' { s with cursor := s.cursor.forward first.length } hs hahead.fits
    (by rw [Cursor.rest_forward, hrest, List.drop_left])
  rwa [outcome, bind_of_ok (h s hs hahead)]

theorem Concludes.map {d : SigDecoder α} {f : α → β} {g : α → SigDecoder β} {bytes : List UInt8}
    {r : Except Fault α} (h : Concludes used d bytes r) (hg : ∀ a, g a = pure (f a)) :
    Concludes used (d >>= g) bytes (r.map f) := by
  intro s hs hpos hrest
  have hd := h s hs hpos hrest
  rw [outcome] at hd ⊢
  cases hrun : d s with
  | ok a s' =>
    rw [bind_of_ok hrun, hg]
    rw [hrun] at hd
    rw [← hd]
    rfl
  | error fault s' =>
    rw [bind_of_error hrun]
    rw [hrun] at hd
    rw [← hd]
    rfl

theorem Concludes.peek {f : UInt8 → SigDecoder α} {b : UInt8} {bytes : List UInt8}
    {r : Except Fault α} (h : Concludes used (f b) (b :: bytes) r) :
    Concludes used (lift Decoder.peekByte >>= f) (b :: bytes) r := by
  intro s hs hpos hrest
  have hpeek : lift Decoder.peekByte s = .ok b s := by
    have hahead : s.cursor.Ahead (b :: bytes) := ⟨hpos, hrest ▸ List.prefix_rfl⟩
    rw [lift, Decoder.peekByte_of_ahead hahead]
  rw [outcome, bind_of_ok hpeek]
  exact h s hs hpos hrest

/-- Whatever the encoder writes, the reader ends with the outcome `r` where a blob ends with it. -/
def Yields (used : Nat) (e : Encoder Unit) (d : SigDecoder α) (r : Except Fault α) : Prop :=
  ∀ out out', e out = .ok () out' → ∃ bytes : List UInt8,
    out' = out ++ bytes.toArray ∧ Concludes used d bytes r

theorem Recovers.yields {e : Encoder Unit} {d : SigDecoder α} {a : α} (h : Recovers used e d a) :
    Yields used e d (.ok a) := by
  intro out out' hout
  obtain ⟨bytes, hwritten, hread⟩ := h out out' hout
  exact ⟨bytes, hwritten, hread.concludes⟩

theorem Recovers.thenYields {e e' : Encoder Unit} {d : SigDecoder α} {f : α → SigDecoder β} {a : α}
    {r : Except Fault β} (h : Recovers used e d a) (h' : Yields used e' (f a) r) :
    Yields used (do e; e') (d >>= f) r := by
  intro out out' hout
  obtain ⟨⟨⟩, mid, hfirst, hsecond⟩ := bind_eq_ok.1 hout
  obtain ⟨first, rfl, hread⟩ := h out mid hfirst
  obtain ⟨second, rfl, hconcludes⟩ := h' _ out' hsecond
  exact ⟨first ++ second, by simp [Array.append_assoc], hread.thenConcludes hconcludes⟩

theorem Yields.map {e : Encoder Unit} {d : SigDecoder α} {f : α → β} {g : α → SigDecoder β}
    {r : Except Fault α} (h : Yields used e d r) (hg : ∀ a, g a = pure (f a)) :
    Yields used e (d >>= g) (r.map f) := by
  intro out out' hout
  obtain ⟨bytes, hwritten, hconcludes⟩ := h out out' hout
  exact ⟨bytes, hwritten, hconcludes.map hg⟩

/-- A reader that refuses to begin. -/
theorem Yields.unless {e : Encoder Unit} {d : SigDecoder α} {r : Except Fault α} {c : Prop}
    [Decidable c] (fault : Fault) (h : Yields used e d r) :
    Yields used e (if c then throw fault else d) (if c then .error fault else r) := by
  split_ifs
  · intro out out' hout
    obtain ⟨bytes, hwritten, -⟩ := h out out' hout
    exact ⟨bytes, hwritten, concludes_throw fault bytes⟩
  · exact h

/-- The outcome on a blob that holds nothing else. -/
theorem Yields.value? {e : Encoder Unit} {d : SigDecoder α} {r : Except Fault α}
    {blob : Array UInt8} (h : Yields 0 e d r) (hblob : e.bytes? = .ok blob) :
    value? d blob = r := by
  rw [Encoder.bytes?] at hblob
  split at hblob
  next out hout =>
    obtain ⟨bytes, rfl, hconcludes⟩ := h #[] out hout
    cases hblob
    exact hconcludes { cursor := { bytes := #[] ++ bytes.toArray } } rfl (Nat.zero_le _)
      (by simp [Cursor.rest])
  next => cases hblob

variable {ctx : SigContext}

/-! ### Parameters -/

/-- Where the blob is over there is no type. -/
theorem concludes_type_nil (hlevels : 0 < ctx.maxDepth - used) :
    Concludes used (type ctx) [] (.error .outOfBounds) := by
  rintro s rfl - hrest
  obtain ⟨levels, hlevels⟩ := Nat.exists_eq_add_one.2 hlevels
  have hnone : s.cursor.bytes[s.cursor.pos]? = none := by
    have hsize := List.drop_eq_nil_iff.1 hrest
    simpa using hsize
  have hbyte : byte s = .error .outOfBounds s := by
    simp [byte, lift, Decoder.byte, hnone]
  have hposition : lift Decoder.position s = .ok s.cursor.pos s := rfl
  rw [outcome, type, hlevels, typeAt, bind_of_ok hposition, bind_of_error hbyte]

/-- One type more than the blob has. -/
theorem types_one_more (plain : ctx.resolver = none) {sigs : List TypeSig}
    (hpos : 0 < ctx.maxDepth - used) (hlevels : nestingOfAll sigs ≤ ctx.maxDepth - used) :
    Yields used (SigEncoder.each sigs) (times (type ctx) (sigs.length + 1))
      (.error .outOfBounds) := by
  induction sigs with
  | nil =>
    intro out out' hout
    cases hout
    exact ⟨[], by simp, (concludes_type_nil hpos).map (f := fun a => [a]) fun a => rfl⟩
  | cons sig rest ih =>
    simp only [nestingOfAll, max_le_iff] at hlevels
    exact (type_rereads plain hlevels.1).thenYields
      ((ih hlevels.2).map (f := (sig.reread :: ·)) fun a => rfl)

/-- From a sentinel on all the parameters are variable ones. -/
theorem Yields.pastSentinel {e : Encoder Unit} {n : Nat} {r : Except Fault (List TypeSig)}
    (h : Yields used e (times (type ctx) (n + 1)) r) :
    Yields used (do Encoder.byte Element.sentinel; e) (params ctx (n + 1)) (r.map ([], ·)) := by
  intro out out' hout
  obtain ⟨⟨⟩, mid, hbyte, hrest⟩ := bind_eq_ok.1 hout
  cases hbyte
  obtain ⟨bytes, rfl, hconcludes⟩ := h _ out' hrest
  refine ⟨Element.sentinel :: bytes, by simp, ?_⟩
  rw [params]
  refine Concludes.peek ?_
  rw [if_pos rfl]
  have hskip : Reads used (lift (Decoder.skip 1)) [Element.sentinel] () :=
    reads_lift fun n => Decoder.readsAt_skip n [Element.sentinel]
  exact hskip.thenConcludes (hconcludes.map fun _ => rfl)

/-- The parameters as they are written: the fixed ones, and behind a sentinel the variable ones. -/
theorem params_reread (plain : ctx.resolver = none) {fixed varargs : List TypeSig}
    (hpos : 0 < ctx.maxDepth - used)
    (hlevels : nestingOfAll (fixed ++ varargs) ≤ ctx.maxDepth - used) :
    Yields used
      (do SigEncoder.each fixed
          if !varargs.isEmpty then
            Encoder.byte Element.sentinel
            SigEncoder.each varargs)
      (params ctx (fixed.length + varargs.length)) (rereadParams varargs fixed) := by
  induction fixed with
  | nil =>
    cases varargs with
    | nil => exact (recovers_pure ([], [])).yields
    | cons first rest =>
      rw [List.length_nil, Nat.zero_add]
      exact (types_reread plain hlevels).yields.pastSentinel
  | cons param rest ih =>
    rw [List.cons_append] at hlevels
    simp only [nestingOfAll, max_le_iff] at hlevels
    rw [List.length_cons, Nat.add_right_comm, SigEncoder.each, bind_assoc]
    by_cases hsentinel : param = .sentinel
    · subst hsentinel
      rw [rereadParams_sentinel]
      cases varargs with
      | nil =>
        rw [List.append_nil] at hlevels
        simpa [SigEncoder.type, Except.map] using (types_one_more plain hpos hlevels.2).pastSentinel
      | cons first others =>
        have hall : nestingOfAll (rest ++ .sentinel :: first :: others) ≤ ctx.maxDepth - used := by
          obtain ⟨hparam, hrest⟩ := hlevels
          rw [nestingOfAll_le_iff, List.forall_mem_append] at hrest ⊢
          exact ⟨hrest.1, List.forall_mem_cons.2 ⟨hparam, hrest.2⟩⟩
        have h := (@types_reread used ctx plain _ hall).yields
        rw [SigEncoder.each_append, SigEncoder.each, SigEncoder.type, List.length_append,
          List.length_cons] at h
        exact h.pastSentinel
    · -- The byte that the reading looks at is that of a parameter, not of a sentinel.
      rw [rereadParams_cons hsentinel]
      intro out out' hout
      obtain ⟨⟨⟩, mid, hparam, hrest⟩ := bind_eq_ok.1 hout
      obtain ⟨lead, tail, rfl, hlead, hread⟩ :=
        typeAt_rereads plain param _ hlevels.1 out mid hparam
      obtain ⟨bytes, rfl, hconcludes⟩ := ih hlevels.2 _ out' hrest
      refine ⟨(lead :: tail) ++ bytes, by simp [Array.append_assoc], ?_⟩
      rw [params, List.cons_append]
      refine Concludes.peek ?_
      rw [if_neg (hlead.not.2 hsentinel), ← List.cons_append]
      exact hread.type.thenConcludes (hconcludes.map fun a => rfl)

/-! ### Methods and types -/

theorem method_rereads (plain : ctx.resolver = none) {sig : MethodSig}
    (hlevels : (Signature.method sig).nesting ≤ ctx.maxDepth - used) :
    Yields used (SigEncoder.method sig) (method ctx) sig.reread := by
  obtain ⟨hconvention, hthis, hexplicit, hgeneric⟩ := methodHead_fields sig
  rw [Signature.nesting, List.cons_append, nestingOfAll, max_le_iff] at hlevels
  have hpos := Nat.lt_of_lt_of_le sig.returnType.nesting_pos hlevels.1
  have htype := @type_rereads used _ plain _ hlevels.1
  have hcount := @recovers_count used (sig.params.length + sig.varargs.length)
  have hparams := @params_reread used _ plain _ _ hpos hlevels.2
  refine (byte_readsBack (SigEncoder.methodHead sig)).recovers.thenYields ?_
  simp only [hconvention, hthis, hexplicit, hgeneric]
  refine Yields.unless _ ?_
  by_cases hzero : sig.genericCount = 0
  · rw [if_neg (by omega), if_pos hzero, pure_bind, ← hzero]
    exact hcount.thenYields (htype.thenYields (hparams.map fun _ => rfl))
  · rw [if_pos (by omega), if_neg hzero]
    refine (recovers_compressed sig.genericCount).thenYields ?_
    exact hcount.thenYields (htype.thenYields (hparams.map fun _ => rfl))

/-- **Exactly what a blob can hold keeps its meaning.** A reading without a resolver, which may nest
as deep as what has been written, takes the blob of a type for `TypeSig.reread` and that of a method
for `MethodSig.reread`. This is the type or method in canonical form when it is referable, or
representable, and in no other case; and in no other case can a blob hold what is written. Whatever
else a blob cannot hold is refused. -/
theorem written_keeps_meaning_iff (ctx : SigContext) (plain : ctx.resolver = none) :
    (∀ (sig : TypeSig) (blob : Array UInt8), sig.nesting ≤ ctx.maxDepth →
        (SigEncoder.type sig).bytes? = .ok blob →
          value? (type ctx) blob = .ok sig.reread ∧
            (value? (type ctx) blob = .ok sig.canonical ↔ sig.Referable) ∧
            (sig.canonical.Writable ↔ sig.Referable)) ∧
      ∀ (sig : MethodSig) (blob : Array UInt8), (Signature.method sig).nesting ≤ ctx.maxDepth →
        (SigEncoder.method sig).bytes? = .ok blob →
          value? (method ctx) blob = sig.reread ∧
            (value? (method ctx) blob = .ok sig.canonical ↔ sig.Representable) ∧
            (sig.canonical.Writable ↔ sig.Representable) := by
  constructor
  · intro sig blob hlevels hblob
    have hvalue := (@type_rereads 0 ctx plain sig hlevels).yields.value? hblob
    refine ⟨hvalue, ?_, SigEncoder.writable_iff_of_type hblob⟩
    rw [hvalue, Except.ok.injEq]
    exact TypeSig.reread_eq_canonical_iff sig
  · intro sig blob hlevels hblob
    have hvalue := (@method_rereads 0 ctx plain sig hlevels).value? hblob
    refine ⟨hvalue, ?_, SigEncoder.writable_iff_of_method hblob⟩
    rw [hvalue]
    exact MethodSig.reread_eq_canonical_iff sig

/-- A modifier given as an expanded specification is read as the class of its token; a sentinel
among the fixed parameters leaves one too few to read. -/
theorem written_keeps_meaning_iff_modifierAndSentinel :
    value? (type {}) #[0x1F, 0x0A, 0x1C] =
        .ok (.modified true (.named .cls ⟨0x1B000002⟩) (.primitive .object)) ∧
      value? (method {}) #[0x00, 0x01, 0x01, 0x41] = .error .outOfBounds :=
  have h := written_keeps_meaning_iff {} rfl
  ⟨(h.1 (.modified true (.typeSpec ⟨0x1B000002⟩ (.primitive .i4)) (.primitive .object))
      #[0x1F, 0x0A, 0x1C] (by decide) rfl).1,
    (h.2 { params := [.sentinel] } #[0x00, 0x01, 0x01, 0x41] (by decide) rfl).1⟩

/-- None of these is refused, and none keeps its meaning: a specification in the place of a class, a
class of row 0, a calling convention that there is not, a sentinel among the fixed parameters. -/
theorem misread_written :
    ((SigEncoder.type (.named .cls ⟨0x1B000001⟩)).bytes? = .ok #[0x12, 0x06] ∧
        value? (type {}) #[0x12, 0x06] = .ok (.invalid .illegalTypeSpec)) ∧
      ((SigEncoder.type (.named .cls ⟨0x02000000⟩)).bytes? = .ok #[0x12, 0x00] ∧
        value? (type {}) #[0x12, 0x00] = .ok (.invalid .invalidCodedIndex)) ∧
      ((SigEncoder.method { convention := 0x10 }).bytes? = .ok #[0x00, 0x00, 0x01] ∧
        value? (method {}) #[0x00, 0x00, 0x01] = .ok { convention := 0 }) ∧
      ((SigEncoder.method { params := [.sentinel], varargs := [.primitive .i4] }).bytes? =
          .ok #[0x00, 0x02, 0x01, 0x41, 0x41, 0x08] ∧
        value? (method {}) #[0x00, 0x02, 0x01, 0x41, 0x41, 0x08] =
          .ok { varargs := [.sentinel, .primitive .i4] }) :=
  ⟨⟨rfl, rfl⟩, ⟨rfl, rfl⟩, ⟨rfl, rfl⟩, ⟨rfl, rfl⟩⟩

end SigDecoder

end CilMetadata

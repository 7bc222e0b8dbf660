import CilMetadata.Proofs.Signature.RoundTrip
import CilMetadata.Proofs.Signature.Spelling
import CilMetadata.Proofs.Table.Aliasing

/-!
# What is read can be written again

Reading takes more than writing gives: compressed integers of any width, bits without meaning in the
first byte, a number of generic parameters that is zero, sentinels among the variable arguments.
All of this is written in one form, the shortest one, which is read back as the same signature.

* `Shortens e bytes`: the encoder writes no more bytes than the given ones;
* `TypeSig.canonical_of_spells`, `Signature.canonical_of_spells`: what is spelled with references
  whose rows fit a token can be written, and is not longer than its spelling. Both go by the
  grammar;
* `Signature.decode_canonical`: so does whatever is read, and it is read back.
-/

namespace CilMetadata

open TypeSig

/-! ### Writing less -/

/-- Wherever the encoder writes, it writes no more bytes than the given ones. -/
def Shortens (e : Encoder Unit) (bytes : List UInt8) : Prop :=
  ∃ out, (∀ n, Encoder.EmitsAt n e out) ∧ out.length ≤ bytes.length

namespace Shortens

theorem nothing (bytes : List UInt8) : Shortens (pure ()) bytes :=
  ⟨[], Encoder.emitsAt_pure, Nat.zero_le _⟩

theorem bind {e e' : Encoder Unit} {first second : List UInt8} (h : Shortens e first)
    (h' : Shortens e' second) : Shortens (do e; e') (first ++ second) := by
  obtain ⟨out, hemit, hle⟩ := h
  obtain ⟨out', hemit', hle'⟩ := h'
  refine ⟨out ++ out', fun n => (hemit n).bind (hemit' _), ?_⟩
  rw [List.length_append, List.length_append]
  exact Nat.add_le_add hle hle'

theorem byte (b b' : UInt8) : Shortens (Encoder.byte b) [b'] :=
  ⟨[b], fun n => Encoder.emitsAt_byte n b, le_rfl⟩

/-- A byte in the place of another one, and what follows. -/
theorem behindByte {e : Encoder Unit} {bytes : List UInt8} (h : Shortens e bytes) (b b' : UInt8) :
    Shortens (do Encoder.byte b; e) (b' :: bytes) :=
  (byte b b').bind h

end Shortens

theorem IsCompressed.shortens {bytes : List UInt8} {value : Nat} (h : IsCompressed bytes value) :
    Shortens (Encoder.compressed value) bytes := h.emitsAt

theorem IsCompressed.shortens_count {bytes : List UInt8} {n : Nat} (h : IsCompressed bytes n) :
    Shortens (SigEncoder.count n) bytes := by
  rw [SigEncoder.count_of_le h.le_limit]
  exact h.shortens

/-- Items that are written in no more bytes than they are spelled. -/
theorem SpellsEach.shortens {α : Type} {one : List UInt8 → α → Prop} {encode : α → Encoder Unit}
    (h : ∀ bytes item, one bytes item → Shortens (encode item) bytes) {bytes : List UInt8}
    {items : List α} (hspells : SpellsEach one bytes items) :
    Shortens (Encoder.each encode items) bytes := by
  induction hspells with
  | nil => exact .nothing []
  | cons hitem _ ih => exact (h _ _ hitem).bind ih

theorem SpellsEach.forall {α : Type} {one : List UInt8 → α → Prop} {p : α → Prop}
    (h : ∀ bytes item, one bytes item → p item) {bytes : List UInt8} {items : List α}
    (hspells : SpellsEach one bytes items) : ∀ item ∈ items, p item := by
  induction hspells with
  | nil => simp
  | cons hitem _ ih => exact List.forall_mem_cons.2 ⟨h _ _ hitem, ih⟩

/-! ### References -/

/-- The row of a coded value fits a token. -/
def FitsToken (code : Nat) : Prop := CodedKind.typeDefOrRef.rowIn code < 2 ^ 24

section References

variable {bytes : List UInt8} {code : Nat} {token : Token}

/-- The token of a reference whose row fits is coded by the value of the reference. -/
theorem SpellsReference.encode_eq (h : SpellsReference bytes code token) (hfits : FitsToken code) :
    token.isNull = false ∧ CodedKind.typeDefOrRef.encode token = .ok code := by
  cases htable : CodedKind.typeDefOrRef.tableIn? code with
  | none =>
    have hdecoded := h.decoded
    rw [CodedKind.decode_eq, htable] at hdecoded
    cases hdecoded
  | some table => exact ((CodedKind.unaliased_of_rowIn_lt htable hfits).decoded token h.decoded).2

theorem SpellsReference.namesRowOf (h : SpellsReference bytes code token) (hfits : FitsToken code) :
    token.NamesRowOf [.typeDef, .typeRef, .typeSpec] := by
  obtain ⟨hrow, hencode⟩ := h.encode_eq hfits
  obtain ⟨tag, htag, -⟩ := (CodedKind.encode_eq_ok_iff hrow).1 hencode
  obtain ⟨table, htable, hin⟩ := CodedKind.tagOf?_eq_some htag
  have hmem := List.mem_of_getElem? htable
  exact ⟨hrow, table, by simpa [CodedKind.candidates] using hmem, hin⟩

/-- A reference that names no specification. -/
theorem SpellsReference.namesRowOf_plain (h : SpellsReference bytes code token)
    (hfits : FitsToken code) (plain : token.isIn .typeSpec = false) :
    token.NamesRowOf [.typeDef, .typeRef] := by
  obtain ⟨hrow, table, hmem, hin⟩ := h.namesRowOf hfits
  refine ⟨hrow, table, ?_, hin⟩
  have hne : table ≠ .typeSpec := by
    rintro rfl
    rw [plain] at hin
    cases hin
  simpa [hne] using hmem

theorem SpellsReference.shortens (h : SpellsReference bytes code token) (hfits : FitsToken code) :
    Shortens (SigEncoder.reference token) bytes := by
  unfold SigEncoder.reference
  rw [(h.encode_eq hfits).2]
  exact h.compressed.shortens

/-- All references fit if no byte announces an integer of four bytes. -/
theorem Signature.Spells.fitsToken_of_narrow {sig : Signature} {codes : List Nat}
    (h : Signature.Spells bytes codes sig) (hnarrow : ∀ byte ∈ bytes, byte < 0xC0) :
    ∀ code ∈ codes, FitsToken code := by
  intro code hcode
  obtain ⟨part, hpart, hcompressed⟩ := h.codedWithin code hcode
  have hlt := hcompressed.lt_of_narrow fun byte hbyte => hnarrow byte (hpart.mem hbyte)
  exact (Nat.div_le_self _ _).trans_lt (hlt.trans (by decide))

end References

/-! ### Types -/

theorem SpellsShape.canonical {bytes : List UInt8} {shape : ArrayShape}
    (h : SpellsShape bytes shape) :
    shape.Writable ∧ Shortens (SigEncoder.arrayShape shape) bytes := by
  obtain ⟨hrank, hsizeCount, hsizes, hboundCount, hbounds⟩ := h
  constructor
  · exact {
      rank := hrank.le_limit
      sizeCount := hsizeCount.le_limit
      sizes := hsizes.forall fun _ _ hsize => hsize.le_limit
      boundCount := hboundCount.le_limit
      lowerBounds := hbounds.forall fun _ _ hbound => hbound.range }
  · refine hrank.shortens.bind (hsizeCount.shortens_count.bind ?_)
    refine Shortens.bind (hsizes.shortens fun _ _ hsize => hsize.shortens) ?_
    exact hboundCount.shortens_count.bind (hbounds.shortens fun _ _ hbound => hbound.emitsAt)

namespace TypeSig

mutual

/-- What is spelled can be written in no more bytes. -/
theorem canonical_of_spells (sig : TypeSig) {bytes : List UInt8} {codes : List Nat}
    (h : Spells bytes codes sig) (hfit : ∀ code ∈ codes, FitsToken code) :
    sig.Writable ∧ Shortens (SigEncoder.type sig) bytes := by
  match sig, h with
  | _, .primitive type => exact ⟨trivial, .byte _ _⟩
  | _, .sentinel => exact ⟨trivial, .byte _ _⟩
  | _, .named form href hplain =>
    have hfits := hfit _ List.mem_cons_self
    exact ⟨href.namesRowOf_plain hfits hplain, (href.shortens hfits).behindByte _ _⟩
  | .wrapped _ inner, .wrapped wrapper hinner =>
    obtain ⟨hwritable, hshort⟩ := canonical_of_spells inner hinner hfit
    exact ⟨hwritable, hshort.behindByte _ _⟩
  | .array base _, .array hbase hshape =>
    obtain ⟨hwritable, hshort⟩ := canonical_of_spells base hbase hfit
    exact ⟨⟨hwritable, hshape.canonical.1⟩, (hshort.bind hshape.canonical.2).behindByte _ _⟩
  | _, .generic kind hindex => exact ⟨hindex.le_limit, hindex.shortens.behindByte _ _⟩
  | .applied _ _ arguments, .applied form href hplain hcount harguments =>
    obtain ⟨hfits, hothers⟩ := List.forall_mem_cons.1 hfit
    obtain ⟨hwritable, hshort⟩ := canonical_of_spellsAll arguments harguments hothers
    refine ⟨⟨href.namesRowOf_plain hfits hplain, hcount.le_limit, hwritable⟩, ?_⟩
    refine Shortens.behindByte (Shortens.behindByte ?_ _ _) _ _
    exact (href.shortens hfits).bind (hcount.shortens_count.bind hshort)
  | .modified _ _ base, .modified required href hbase =>
    obtain ⟨hfits, hothers⟩ := List.forall_mem_cons.1 hfit
    obtain ⟨hwritable, hshort⟩ := canonical_of_spells base hbase hothers
    exact ⟨⟨href.namesRowOf hfits, hwritable⟩,
      ((href.shortens hfits).bind hshort).behindByte _ _⟩

/-- What is spelled one after the other can be written in no more bytes. -/
theorem canonical_of_spellsAll (sigs : List TypeSig) {bytes : List UInt8} {codes : List Nat}
    (h : SpellsAll bytes codes sigs) (hfit : ∀ code ∈ codes, FitsToken code) :
    AllWritable sigs ∧ Shortens (SigEncoder.each sigs) bytes := by
  match sigs, h with
  | [], .nil => exact ⟨trivial, .nothing []⟩
  | sig :: rest, .cons hsig hrest =>
    obtain ⟨hfits, hothers⟩ := List.forall_mem_append.1 hfit
    obtain ⟨hwritable, hshort⟩ := canonical_of_spells sig hsig hfits
    obtain ⟨hwritables, hshorts⟩ := canonical_of_spellsAll rest hrest hothers
    exact ⟨⟨hwritable, hwritables⟩, hshort.bind hshorts⟩

end

end TypeSig

/-! ### Signatures -/

theorem SpellsParams.canonical {bytes : List UInt8} {codes : List Nat}
    {fixed varargs : List TypeSig} (h : SpellsParams bytes codes fixed varargs)
    (hfit : ∀ code ∈ codes, FitsToken code) :
    AllWritable fixed ∧ AllWritable varargs ∧ (∀ param ∈ fixed, param ≠ .sentinel) ∧
      Shortens
        (do SigEncoder.each fixed
            if !varargs.isEmpty then
              Encoder.byte Element.sentinel
              SigEncoder.each varargs) bytes := by
  induction h with
  | nil => exact ⟨trivial, trivial, by simp, .nothing []⟩
  | @sentinel bytes codes varargs hsome hvarargs =>
    obtain ⟨hwritable, hshort⟩ := canonical_of_spellsAll varargs hvarargs hfit
    refine ⟨trivial, hwritable, by simp, ?_⟩
    rw [if_pos (by simpa using hsome)]
    exact hshort.behindByte _ _
  | @cons first rest codes restCodes param fixed varargs hparam hfixed hrest ih =>
    obtain ⟨hfits, hothers⟩ := List.forall_mem_append.1 hfit
    obtain ⟨hwritable, hshort⟩ := canonical_of_spells param hparam hfits
    obtain ⟨hwritables, hvarargs, hnone, hshorts⟩ := ih hothers
    refine ⟨⟨hwritable, hwritables⟩, hvarargs, List.forall_mem_cons.2 ⟨hfixed, hnone⟩, ?_⟩
    rw [SigEncoder.each, bind_assoc]
    exact hshort.bind hshorts

theorem SpellsGenericCount.le_limit {head : UInt8} {bytes : List UInt8} {count : Nat}
    (h : SpellsGenericCount head bytes count) : count ≤ compressedLimit := by
  unfold SpellsGenericCount at h
  split_ifs at h
  · exact h.2.trans_le (Nat.zero_le _)
  · exact h.le_limit

/-- The number of generic parameters is left out if it is zero, whether it is spelled or not. -/
theorem SpellsGenericCount.shortens {head : UInt8} {bytes rest : List UInt8} {count : Nat}
    {e : Encoder Unit} (h : SpellsGenericCount head bytes count) (hrest : Shortens e rest) :
    Shortens (if 0 < count then do Encoder.compressed count; e else e) (bytes ++ rest) := by
  by_cases hpos : 0 < count
  · rw [if_pos hpos]
    unfold SpellsGenericCount at h
    split_ifs at h
    · omega
    · exact h.shortens.bind hrest
  · rw [if_neg hpos]
    obtain ⟨out, hemit, hle⟩ := hrest
    refine ⟨out, hemit, hle.trans ?_⟩
    rw [List.length_append]
    exact Nat.le_add_left _ _

namespace Signature

/-- What is spelled can be written in no more bytes. -/
theorem canonical_of_spells {sig : Signature} {bytes : List UInt8} {codes : List Nat}
    (h : Spells bytes codes sig) (hfit : ∀ code ∈ codes, FitsToken code) :
    sig.Writable ∧ Shortens sig.encode bytes := by
  cases h with
  | type h => exact TypeSig.canonical_of_spells _ h hfit
  | field h =>
    obtain ⟨hwritable, hshort⟩ := TypeSig.canonical_of_spells _ h hfit
    exact ⟨hwritable, hshort.behindByte _ _⟩
  | locals hcount h =>
    obtain ⟨hwritable, hshort⟩ := canonical_of_spellsAll _ h hfit
    exact ⟨⟨hcount.le_limit, hwritable⟩, (hcount.shortens_count.bind hshort).behindByte _ _⟩
  | methodSpec hcount h =>
    obtain ⟨hwritable, hshort⟩ := canonical_of_spellsAll _ h hfit
    exact ⟨⟨hcount.le_limit, hwritable⟩, (hcount.shortens_count.bind hshort).behindByte _ _⟩
  | property hhead hcount htype hparams =>
    obtain ⟨hfits, hothers⟩ := List.forall_mem_append.1 hfit
    obtain ⟨hwritable, hshort⟩ := TypeSig.canonical_of_spells _ htype hfits
    obtain ⟨hwritables, hshorts⟩ := canonical_of_spellsAll _ hparams hothers
    refine ⟨⟨hcount.le_limit, hwritable, hwritables⟩, ?_⟩
    exact (hcount.shortens_count.bind (hshort.bind hshorts)).behindByte _ _
  | method hhead hgeneric hcount hreturn hparams =>
    obtain ⟨hfits, hothers⟩ := List.forall_mem_append.1 hfit
    obtain ⟨hwritable, hshort⟩ := TypeSig.canonical_of_spells _ hreturn hfits
    obtain ⟨hfixed, hvarargs, hnone, hshorts⟩ := hparams.canonical hothers
    constructor
    · exact {
        convention := hhead
        genericCount := hgeneric.le_limit
        count := hcount.le_limit
        returnType := hwritable
        params := hfixed
        varargs := hvarargs
        fixed := hnone }
    · refine Shortens.behindByte ?_ _ _
      exact hgeneric.shortens (hcount.shortens_count.bind (hshort.bind hshorts))

/-- The kind of a signature is the one that it has been read as. -/
theorem kind_of_decode {ctx : SigContext} {kind : SigKind} :
    SucceedsWith (decode ctx kind) fun sig => sig.kind = kind := by
  cases kind <;> exact SucceedsWith.behind fun _ => succeedsWith_pure rfl

/-- The height of a signature is that of its highest tree. -/
theorem nesting_le_iff {sig : Signature} {levels : Nat} :
    sig.nesting ≤ levels ↔ ∀ tree ∈ sig.trees, tree.nesting ≤ levels := by
  cases sig with
  | type sig => simp [nesting, trees]
  | field sig => simp [nesting, trees]
  | method sig => exact nestingOfAll_le_iff
  | property sig => exact nestingOfAll_le_iff
  | locals sig => exact nestingOfAll_le_iff
  | methodSpec sig => exact nestingOfAll_le_iff

/-- A signature that a blob can hold has writable trees. -/
theorem Writable.trees {sig : Signature} (h : sig.Writable) :
    ∀ tree ∈ sig.trees, tree.Writable := by
  cases sig with
  | type sig => exact List.forall_mem_singleton.2 h
  | field sig => exact List.forall_mem_singleton.2 h
  | method sig =>
    refine List.forall_mem_cons.2 ⟨h.returnType, List.forall_mem_append.2 ?_⟩
    exact ⟨allWritable_iff.1 h.params, allWritable_iff.1 h.varargs⟩
  | property sig => exact List.forall_mem_cons.2 ⟨h.propertyType, allWritable_iff.1 h.params⟩
  | locals sig => exact allWritable_iff.1 h.2
  | methodSpec sig => exact allWritable_iff.1 h.2

/-- **Whatever is read can be written in canonical form.** Bytes that are read without a resolver as
a signature without invalid nodes spell that signature. If the rows of the references among them fit
a token, the signature is written in no more bytes than have been taken, and these are read back to
their end, with the same nesting limit. -/
theorem decode_canonical {ctx : SigContext} (plain : ctx.resolver = none) {kind : SigKind}
    {blob : Array UInt8} {sig : Signature} {s : SigState}
    (hrun : decode ctx kind { cursor := { bytes := blob } } = .ok sig s)
    (hvalid : ∀ tree ∈ sig.trees, tree.invalidCause? = none) :
    ∃ codes, Spells (blob.toList.take s.cursor.pos) codes sig ∧
      ((∀ code ∈ codes, FitsToken code) →
        ∃ out, sig.encode.bytes? = .ok out ∧ out.size ≤ s.cursor.pos ∧
          decode ctx kind { cursor := { bytes := out } } =
            .ok sig { cursor := { bytes := out, pos := out.size } }) := by
  obtain ⟨bytes, hahead, hstop, hspells⟩ := SigDecoder.takes_decode plain kind _ s sig hrun
  obtain ⟨codes, hcodes⟩ := hspells hvalid
  have hpos : s.cursor.pos = bytes.length := by simp [hstop]
  have htaken : blob.toList.take s.cursor.pos = bytes := by
    rw [hpos]
    exact (List.prefix_iff_eq_take.1 (by simpa [Cursor.rest] using hahead)).symm
  refine ⟨codes, htaken ▸ hcodes, fun hfit => ?_⟩
  obtain ⟨hwritable, out, hemit, hle⟩ := canonical_of_spells hcodes hfit
  have hlevels : sig.nesting ≤ ctx.maxDepth := nesting_le_iff.2 fun tree htree => by
    rw [← TypeSig.levels_of_writable tree (hwritable.trees tree htree)]
    exact SigDecoder.decode_levels ctx kind _ s sig hrun tree htree
  -- The writing is the same on both sides, so the bytes that are read back are the short ones.
  obtain ⟨bytes', hemit', hread⟩ := @decode_readsBack 0 _ plain _ hwritable hlevels
  have hout : sig.encode.bytes? = .ok out.toArray := (hemit 0).bytes?
  obtain rfl : bytes' = out := by simpa [(hemit' 0).bytes?] using hout
  refine ⟨bytes'.toArray, hout, by simpa [hpos] using hle, ?_⟩
  have hback := hread { cursor := { bytes := bytes'.toArray } } rfl
    (by simpa using Cursor.ahead_start bytes' #[])
  rw [kind_of_decode _ s sig hrun] at hback
  simpa [Cursor.forward] using hback

/-- The signature that `looseBlob` stands for. -/
def looseCall : MethodSig where
  convention := 5
  hasThis := true
  returnType := .named .cls ⟨0x01000001⟩
  params := [.primitive .i4]
  varargs := [.sentinel, .sentinel, .primitive .string]

/-- A call with a bit without meaning in its first byte, no generic parameters though their number
is there, integers that are wider than needed, and sentinels behind a sentinel. -/
def looseBlob : Array UInt8 :=
  #[0xB5, 0x80, 0x00, 0x80, 0x04, 0x12, 0x80, 0x05, 0x08, 0x41, 0x41, 0x41, 0x0E]

theorem decode_canonical_looseBlob :
    decode { maxDepth := 1 } .method { cursor := { bytes := looseBlob } } =
        .ok (.method looseCall) { cursor := { bytes := looseBlob, pos := 13 } } ∧
      ∃ out, (method looseCall).encode.bytes? = .ok out ∧ out.size ≤ 13 ∧
        decode { maxDepth := 1 } .method { cursor := { bytes := out } } =
          .ok (.method looseCall) { cursor := { bytes := out, pos := out.size } } := by
  have hrun : decode { maxDepth := 1 } .method { cursor := { bytes := looseBlob } } =
      .ok (.method looseCall) { cursor := { bytes := looseBlob, pos := 13 } } := by cbv
  have hvalid : ∀ tree ∈ (method looseCall).trees, tree.invalidCause? = none := by
    decide
  have hnarrow : ∀ byte ∈ looseBlob.toList.take 13, byte < 0xC0 := by
    simp [looseBlob]
  obtain ⟨codes, hspells, hcanonical⟩ := decode_canonical rfl hrun hvalid
  exact ⟨hrun, hcanonical (hspells.fitsToken_of_narrow hnarrow)⟩

end Signature

end CilMetadata

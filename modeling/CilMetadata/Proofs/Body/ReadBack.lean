import CilMetadata.Body.Raw
import CilMetadata.Proofs.Bytes.Stream
import Mathlib.Tactic.SplitIfs

/-!
# Stored method bodies are read back

A clause is written in one of two forms (`smallForm`, `fatForm`), all clauses of a body in one
section, and the section behind the code on a multiple of four.

* `section_readBack`: a section gives its clauses back and says that no other section follows;
* `RawBody.fat_readBack`: a body with a fat header is read back as it is;
* `RawBody.tiny_readBack`: of a body with a tiny header all but the stack depth is read back.
-/

namespace CilMetadata

open Decoder Encoder

/-! ### Clauses -/

namespace Clause

/-- The bytes of the small form. -/
def smallForm (clause : Clause) : List UInt8 :=
  Bytes.toLE 2 clause.flags.toUInt16.toNat ++ (Bytes.toLE 2 clause.tryOffset.toUInt16.toNat ++
    ([clause.tryLength.toUInt8] ++ (Bytes.toLE 2 clause.handlerOffset.toUInt16.toNat ++
      ([clause.handlerLength.toUInt8] ++ Bytes.toLE 4 clause.classOrFilter.toNat))))

/-- The bytes of the fat form. -/
def fatForm (clause : Clause) : List UInt8 :=
  Bytes.toLE 4 clause.flags.toNat ++ (Bytes.toLE 4 clause.tryOffset.toNat ++
    (Bytes.toLE 4 clause.tryLength.toNat ++ (Bytes.toLE 4 clause.handlerOffset.toNat ++
      (Bytes.toLE 4 clause.handlerLength.toNat ++ Bytes.toLE 4 clause.classOrFilter.toNat))))

@[simp] theorem length_smallForm (clause : Clause) : clause.smallForm.length = smallSize := by
  simp [smallForm, smallSize]

@[simp] theorem length_fatForm (clause : Clause) : clause.fatForm.length = fatSize := by
  simp [fatForm, fatSize]

theorem emitsAt_encodeSmall (n : Nat) (clause : Clause) :
    EmitsAt n clause.encodeSmall clause.smallForm :=
  (emitsAt_number _ 2 _).bind ((emitsAt_number _ 2 _).bind ((emitsAt_byte _ _).bind
    ((emitsAt_number _ 2 _).bind ((emitsAt_byte _ _).bind (emitsAt_number _ 4 _)))))

theorem emitsAt_encodeFat (n : Nat) (clause : Clause) :
    EmitsAt n clause.encodeFat clause.fatForm :=
  (emitsAt_number _ 4 _).bind ((emitsAt_number _ 4 _).bind ((emitsAt_number _ 4 _).bind
    ((emitsAt_number _ 4 _).bind ((emitsAt_number _ 4 _).bind (emitsAt_number _ 4 _)))))

theorem toUInt32_toUInt16 {value : UInt32} (h : value ≤ 0xFFFF) :
    value.toUInt16.toUInt32 = value := by
  have hle := UInt32.le_iff_toNat_le.1 h
  apply UInt32.toNat_inj.1
  simp at hle ⊢
  omega

theorem toUInt32_toUInt8 {value : UInt32} (h : value ≤ 0xFF) :
    value.toUInt8.toUInt32 = value := by
  have hle := UInt32.le_iff_toNat_le.1 h
  apply UInt32.toNat_inj.1
  simp at hle ⊢
  omega

theorem readsAt_decodeFat (n : Nat) (clause : Clause) :
    ReadsAt n decodeFat clause.fatForm clause :=
  (readsAt_u32 _ _).bind ((readsAt_u32 _ _).bind ((readsAt_u32 _ _).bind ((readsAt_u32 _ _).bind
    ((readsAt_u32 _ _).bind ((readsAt_u32 _ _).map _)))))

/-- A clause that fits the small form is read back from it. -/
theorem readsAt_decodeSmall (n : Nat) {clause : Clause} (h : clause.fitsSmall = true) :
    ReadsAt n decodeSmall clause.smallForm clause := by
  have hcut : ReadsAt n decodeSmall clause.smallForm
      { flags := clause.flags.toUInt16.toUInt32
        tryOffset := clause.tryOffset.toUInt16.toUInt32
        tryLength := clause.tryLength.toUInt8.toUInt32
        handlerOffset := clause.handlerOffset.toUInt16.toUInt32
        handlerLength := clause.handlerLength.toUInt8.toUInt32
        classOrFilter := clause.classOrFilter } :=
    (readsAt_u16 _ _).bind ((readsAt_u16 _ _).bind ((readsAt_byte _ _).bind
      ((readsAt_u16 _ _).bind ((readsAt_byte _ _).bind ((readsAt_u32 _ _).map _)))))
  simp only [fitsSmall, Bool.and_eq_true, decide_eq_true_eq] at h
  obtain ⟨⟨⟨⟨htryOffset, htryLength⟩, hhandlerOffset⟩, hhandlerLength⟩, hflags⟩ := h
  rwa [toUInt32_toUInt16 hflags, toUInt32_toUInt16 htryOffset, toUInt32_toUInt8 htryLength,
    toUInt32_toUInt16 hhandlerOffset, toUInt32_toUInt8 hhandlerLength] at hcut

end Clause

namespace RawBody

/-! ### Sections -/

theorem readsAt_alignSection (n : Nat) :
    ReadsAt n alignSection (List.replicate (Decoder.paddingFor 4 n) 0) () := by
  rintro c rfl -
  rw [List.length_replicate]
  rfl

/-- The size field of a small section. -/
theorem readsAt_sectionSize_small (n : Nat) {size : Nat} (h : size ≤ smallSectionLimit) :
    ReadsAt n (sectionSize 0x01) [UInt8.ofNat size, 0, 0] size := by
  have hsize : (UInt8.ofNat size).toNat = size := by
    unfold smallSectionLimit at h
    rw [UInt8.toNat_ofNat']
    omega
  have hread : ReadsAt n (sectionSize 0x01) [UInt8.ofNat size, 0, 0] (UInt8.ofNat size).toNat :=
    ReadsAt.behindByte ((readsAt_forward _ [0, 0]).andThen (readsAt_pure _ _))
  rwa [hsize] at hread

/-- The size field of a fat section. -/
theorem readsAt_sectionSize_fat (n : Nat) {size : Nat} (h : size ≤ fatSectionLimit) :
    ReadsAt n (sectionSize 0x41) (Bytes.toLE 3 size) size := by
  have hsplit : Bytes.toLE 3 size = Bytes.toLE 2 size ++ [UInt8.ofNat (size / 256 / 256)] := rfl
  have hsize : (UInt16.ofNat (Bytes.decode .little (Bytes.toLE 2 size))).toNat +
      0x10000 * (UInt8.ofNat (size / 256 / 256)).toNat = size := by
    unfold fatSectionLimit at h
    rw [Bytes.decode, Bytes.ofLE_toLE, UInt16.toNat_ofNat', UInt8.toNat_ofNat']
    omega
  have hread : ReadsAt n (sectionSize 0x41)
      (Bytes.toLE 2 size ++ [UInt8.ofNat (size / 256 / 256)]) _ :=
    ((readsAt_number n .little (Bytes.toLE 2 size)).map UInt16.ofNat).bind
      ((readsAt_byte _ (UInt8.ofNat (size / 256 / 256))).map fun high =>
        (UInt16.ofNat (Bytes.decode .little (Bytes.toLE 2 size))).toNat + 0x10000 * high.toNat)
  rwa [hsize, ← hsplit] at hread

/-- A section of given size: its header, and its clauses behind it. -/
theorem readsAt_section {n size : Nat} {flags : UInt8} {header body : List UInt8}
    {clauses : List Clause} (hheader : header.length + 1 = sectionHeaderSize)
    (hsize : size = sectionHeaderSize + body.length)
    (hread : ReadsAt (n + 1) (sectionSize flags) header size)
    (hbody : ReadsAt (n + sectionHeaderSize) (sectionClauses flags size) body clauses) :
    ReadsAt n readSection (flags :: header ++ body) (clauses, flags &&& 0x80 != 0) := by
  refine ReadsAt.behind (ReadsAt.behindByte (hread.bind ?_)) (readsAt_position n)
  rw [if_neg (by omega)]
  have hplace : n + 1 + header.length = n + sectionHeaderSize := by omega
  rw [← hplace] at hbody
  refine ReadsAt.get fun c hc hahead => ?_
  have hfits := hahead.fits
  rw [if_neg (by omega)]
  refine hbody.andThen ((readsAt_moveTo (by omega)).andThen (readsAt_pure _ _))

/-- As many clauses as fit a fat section. -/
def clauseLimit : Nat := 699050

theorem length_flatMap_form {form : Clause → List UInt8} {size : Nat}
    (h : ∀ clause, (form clause).length = size) (clauses : List Clause) :
    (clauses.flatMap form).length = clauses.length * size := by
  induction clauses with
  | nil => simp
  | cons clause rest ih =>
    rw [List.flatMap_cons, List.length_append, h, ih, List.length_cons, Nat.succ_mul, Nat.add_comm]

/-- The clauses of a body are written as one section that is read back. -/
theorem section_readBack {clauses : List Clause} (h : clauses.length ≤ clauseLimit) (n : Nat) :
    ∃ bytes, EmitsAt n (writeSection clauses) bytes ∧
      ReadsAt n readSection bytes (clauses, false) := by
  by_cases hsmall : smallSectionSize clauses.length ≤ smallSectionLimit ∧
      clauses.all Clause.fitsSmall
  · have hlen := length_flatMap_form Clause.length_smallForm clauses
    have hsize : smallSectionSize clauses.length =
        sectionHeaderSize + (clauses.flatMap Clause.smallForm).length := by
      rw [hlen, smallSectionSize]
    refine ⟨0x01 :: [UInt8.ofNat (smallSectionSize clauses.length), 0, 0] ++
      clauses.flatMap Clause.smallForm, ?_, ?_⟩
    · rw [writeSection, if_pos hsmall]
      exact (emitsAt_emit n _).bind
        (emitsAt_each (fun clause _ n => clause.emitsAt_encodeSmall n) _)
    · refine readsAt_section rfl hsize (readsAt_sectionSize_small _ hsmall.1) ?_
      -- The reading counts the clauses by the size of the section.
      have hcount : (smallSectionSize clauses.length - sectionHeaderSize) / Clause.smallSize =
          clauses.length := by
        simp [smallSectionSize, sectionHeaderSize, Clause.smallSize]
      have hread := readsAt_times (fun clause hmem n =>
        Clause.readsAt_decodeSmall n (List.all_eq_true.1 hsmall.2 clause hmem))
        (n + sectionHeaderSize)
      rw [List.map_id', ← hcount] at hread
      exact hread
  · have hfat : fatSectionSize clauses.length ≤ fatSectionLimit := by
      simp only [fatSectionSize, fatSectionLimit, sectionHeaderSize, Clause.fatSize, clauseLimit]
        at h ⊢
      omega
    have hlen := length_flatMap_form Clause.length_fatForm clauses
    have hsize : fatSectionSize clauses.length =
        sectionHeaderSize + (clauses.flatMap Clause.fatForm).length := by
      rw [hlen, fatSectionSize]
    refine ⟨0x41 :: Bytes.toLE 3 (fatSectionSize clauses.length) ++
      clauses.flatMap Clause.fatForm, ?_, ?_⟩
    · rw [writeSection, if_neg hsmall, if_pos hfat]
      exact (emitsAt_byte n 0x41).bind ((emitsAt_number _ 3 _).bind
        (emitsAt_each (fun clause _ n => clause.emitsAt_encodeFat n) _))
    · refine readsAt_section rfl hsize (readsAt_sectionSize_fat _ hfat) ?_
      have hcount : (fatSectionSize clauses.length - sectionHeaderSize) / Clause.fatSize =
          clauses.length := by
        simp [fatSectionSize, sectionHeaderSize, Clause.fatSize]
      have hread := readsAt_times (fun clause (_ : clause ∈ clauses) n =>
        Clause.readsAt_decodeFat n clause) (n + sectionHeaderSize)
      rw [List.map_id', ← hcount] at hread
      exact hread

/-- A last section is all there is to read. -/
theorem readsAt_readSections {n steps : Nat} {bytes : List UInt8} {clauses : List Clause}
    (hsteps : 0 < steps)
    (h : ReadsAt (n + Decoder.paddingFor 4 n) readSection bytes (clauses, false)) :
    ReadsAt n (readSections steps) (List.replicate (Decoder.paddingFor 4 n) 0 ++ bytes)
      clauses := by
  obtain ⟨steps, rfl⟩ : ∃ fewer, steps = fewer + 1 := ⟨steps - 1, by omega⟩
  rw [readSections]
  refine (readsAt_alignSection n).bind ?_
  rw [List.length_replicate]
  exact h.andThen (readsAt_pure _ _)

/-! ### Bodies -/

theorem fatWord_header (body : RawBody) : body.fatWord.toNat / 0x1000 = 3 := by
  unfold fatWord
  cases body.initLocals <;> cases body.clauses.isEmpty <;> decide

theorem fatWord_format (body : RawBody) : UInt8.ofNat body.fatWord.toNat &&& 0x03 = 0x03 := by
  unfold fatWord
  cases body.initLocals <;> cases body.clauses.isEmpty <;> decide

theorem fatWord_initLocals (body : RawBody) :
    (body.fatWord &&& 0x10 != 0) = body.initLocals := by
  unfold fatWord
  cases body.initLocals <;> cases body.clauses.isEmpty <;> decide

theorem fatWord_clauses (body : RawBody) : body.fatWord &&& 0x08 = 0 ↔ body.clauses = [] := by
  rw [← List.isEmpty_iff]
  unfold fatWord
  cases body.initLocals <;> cases body.clauses.isEmpty <;> decide

/-- What stands behind the code of a body with a fat header. -/
theorem sections_readBack {body : RawBody} (h : body.clauses.length ≤ clauseLimit) {n : Nat}
    (hn : 0 < n) :
    ∃ bytes,
      EmitsAt n (if !body.clauses.isEmpty then do Encoder.align 4 0; writeSection body.clauses
        else pure ()) bytes ∧
      ∀ k : List Clause → RawBody, ReadsAt n
        (if body.fatWord &&& 0x08 = 0 then do return k (← pure [])
          else do return k (← readSections (← get).bytes.size)) bytes (k body.clauses) := by
  by_cases hnone : body.clauses = []
  · refine ⟨[], ?_, fun k => ?_⟩
    · simpa [hnone] using emitsAt_pure n
    · rw [if_pos (body.fatWord_clauses.2 hnone), hnone]
      exact readsAt_pure n (k [])
  · obtain ⟨bytes, hemit, hread⟩ := section_readBack h (n + Decoder.paddingFor 4 n)
    refine ⟨List.replicate (Decoder.paddingFor 4 n) 0 ++ bytes, ?_, fun k => ?_⟩
    · rw [if_pos (by simpa using hnone)]
      refine (emitsAt_align n 4 0).bind ?_
      rwa [List.length_replicate]
    · rw [if_neg (fun hflag => hnone (body.fatWord_clauses.1 hflag))]
      refine ReadsAt.get fun c hc hahead => (readsAt_readSections ?_ hread).map k
      have hinside := hahead.1
      omega

/-- **A body with a fat header is read back as it is.** -/
theorem fat_readBack {body : RawBody} (hfat : body.isFat = true)
    (hcode : body.code.size < 0x100000000) (hclauses : body.clauses.length ≤ clauseLimit) :
    ∃ bytes, bytes ≠ [] ∧ EmitsAt 0 body.writeFat bytes ∧ ReadsAt 0 read bytes body := by
  obtain ⟨tail, hemit, hread⟩ :=
    sections_readBack hclauses (n := fatHeaderSize + body.code.size)
      (by simp only [fatHeaderSize]; omega)
  have hcodeSize : (UInt32.ofNat body.code.size).toNat = body.code.size :=
    UInt32.toNat_ofNat_of_lt' hcode
  have hsize := readsAt_u32 4 (UInt32.ofNat body.code.size)
  rw [hcodeSize] at hsize
  refine ⟨Bytes.toLE 2 body.fatWord.toNat ++ (Bytes.toLE 2 body.maxStack.toNat ++
    (Bytes.toLE 4 body.code.size ++ (Bytes.toLE 4 body.localsToken.value.toNat ++
      (body.code.toList ++ tail)))), by simp [Bytes.toLE], ?_, ?_⟩
  · rw [writeFat, if_pos hcode]
    refine (emitsAt_number 0 2 _).bind ((emitsAt_number _ 2 _).bind ((emitsAt_number _ 4 _).bind
      ((emitsAt_number _ 4 _).bind ((emitsAt_emitArray _ body.code).bind ?_))))
    simpa [fatHeaderSize] using hemit
  · -- The first byte tells the header, and is read again as a part of it.
    refine ReadsAt.peekByte ?_ rfl
    rw [body.fatWord_format, if_neg (by decide), if_pos rfl]
    refine ReadsAt.get fun c hc hahead => ?_
    have hfits := hahead.fits
    have hroom : ¬ c.remaining < fatHeaderSize := by
      simp only [List.length_append, Bytes.length_toLE] at hfits
      simp only [Cursor.remaining, fatHeaderSize]
      omega
    rw [if_neg hroom]
    refine ReadsAt.behind ?_ (readsAt_position 0)
    refine (readsAt_u16 0 _).bind ((readsAt_u16 _ _).bind (hsize.bind ((readsAt_u32 _ _).bind ?_)))
    rw [hcodeSize, fatWord_header, if_neg (by decide)]
    refine ReadsAt.behind ?_ (readsAt_moveTo (by simp))
    refine (readsAt_take _ body.code.toList).bind ?_
    have hplace : 4 + (Bytes.toLE 4 body.code.size).length +
        (Bytes.toLE 4 body.localsToken.value.toNat).length + body.code.toList.length =
        fatHeaderSize + body.code.size := by simp [fatHeaderSize]
    have hrest := hread fun clauses =>
      { isFat := true, maxStack := body.maxStack, initLocals := body.fatWord &&& 0x10 != 0
        localsToken := body.localsToken, code := body.code, clauses }
    have hsame : { body with isFat := true, initLocals := body.fatWord &&& 0x10 != 0 } = body := by
      rw [fatWord_initLocals, ← hfat]
    rw [hsame] at hrest
    rw [hplace]
    exact hrest

theorem tinyHead_format {size : Nat} (h : size ≤ tinyCodeLimit) :
    UInt8.ofNat (4 * size + 2) &&& 0x03 = 0x02 := by
  have hall : ∀ size : Fin 64, UInt8.ofNat (4 * size + 2) &&& 0x03 = 0x02 := by decide
  exact hall ⟨size, Nat.lt_succ_of_le h⟩

theorem tinyHead_size {size : Nat} (h : size ≤ tinyCodeLimit) :
    (UInt8.ofNat (4 * size + 2)).toNat / 4 = size := by
  unfold tinyCodeLimit at h
  rw [UInt8.toNat_ofNat']
  omega

/-- **A body with a tiny header is read back** with the stack depth of such a header, and without a
token of local variables. -/
theorem tiny_readBack {body : RawBody} (htiny : body.isFat = false) (hfits : body.fitsTiny = true) :
    ∃ bytes, bytes ≠ [] ∧ EmitsAt 0 body.writeTiny bytes ∧
      ReadsAt 0 read bytes { body with maxStack := tinyMaxStack, localsToken := .null } := by
  have hparts := hfits
  simp only [fitsTiny, Bool.and_eq_true, decide_eq_true_eq, List.isEmpty_iff,
    Bool.not_eq_true'] at hparts
  obtain ⟨⟨⟨hsize, hclauses⟩, -⟩, hinit⟩ := hparts
  refine ⟨UInt8.ofNat (4 * body.code.size + 2) :: body.code.toList, by simp, ?_, ?_⟩
  · rw [writeTiny, if_pos hfits]
    exact (emitsAt_byte 0 _).bind (emitsAt_emitArray _ body.code)
  · refine ReadsAt.peekByte ?_ rfl
    rw [tinyHead_format hsize, if_pos rfl]
    refine (readsAt_skip 0 [_]).bind ?_
    have hcode := (readsAt_take 1 body.code.toList).map fun code =>
      ({ isFat := false, maxStack := tinyMaxStack, initLocals := false, localsToken := .null
         code, clauses := [] } : RawBody)
    rw [Array.length_toList, ← tinyHead_size hsize] at hcode
    rw [htiny, hinit, hclauses]
    exact hcode

/-- The outcome of reading some bytes, whatever follows them. -/
theorem decode_of_readsAt {bytes : List UInt8} {body : RawBody} (hbytes : bytes ≠ [])
    (h : ReadsAt 0 read bytes body) (suffix : Array UInt8) :
    decode (bytes.toArray ++ suffix) = .ok body := by
  have hstart := h { bytes := bytes.toArray ++ suffix } rfl (Cursor.ahead_start bytes suffix)
  have hnonempty : (bytes.toArray ++ suffix).isEmpty = false := by
    cases bytes with
    | nil => exact absurd rfl hbytes
    | cons byte bytes => simp
  rw [decode, hnonempty, if_neg (by decide), Decoder.value?, hstart]

end RawBody

end CilMetadata

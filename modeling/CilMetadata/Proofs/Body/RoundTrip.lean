import CilMetadata.Proofs.Body.ReadBack
import CilMetadata.Proofs.Bytes.Success

/-!
# What stored method bodies hold

A body is written if its header leaves room for all of it (`Storable`), and what is read back from
the bytes is the body as its header gives it (`stored`): a fat header gives everything, a tiny one
the code alone.

* `storable_of_encode` and `readBack_of_storable`: a body is written exactly if it is storable;
* `encode_readBack`: what is written is read back, whatever follows.
-/

namespace CilMetadata

open Decoder Encoder

namespace RawBody

/-- The header of a body leaves room for it: a fat one if the sizes of its code and of its clauses
can be given, a tiny one if there is little code and nothing else. -/
def Storable (body : RawBody) : Prop :=
  if body.isFat then
    body.code.size < 2 ^ 32 ∧ fatSectionSize body.clauses.length ≤ fatSectionLimit
  else
    body.code.size ≤ 63 ∧ body.clauses = [] ∧ body.localsToken.isNull = true ∧
      body.initLocals = false

/-- A body as its header gives it. A tiny header stands for a stack depth of 8 and for no local
variables. -/
def stored (body : RawBody) : RawBody :=
  if body.isFat then body else { body with maxStack := 8, localsToken := .null }

theorem fatSection_fits_iff {count : Nat} :
    fatSectionSize count ≤ fatSectionLimit ↔ count ≤ clauseLimit := by
  simp only [fatSectionSize, fatSectionLimit, sectionHeaderSize, Clause.fatSize, clauseLimit]
  omega

theorem fitsTiny_iff {body : RawBody} :
    body.fitsTiny = true ↔ body.code.size ≤ 63 ∧ body.clauses = [] ∧
      body.localsToken.isNull = true ∧ body.initLocals = false := by
  simp only [fitsTiny, Bool.and_eq_true, decide_eq_true_eq, List.isEmpty_iff, Bool.not_eq_true',
    and_assoc]
  rfl

/-! ### Success -/

/-- A small section has fewer clauses than a fat one can hold. -/
theorem fits_of_writeSection {clauses : List Clause} {out out' : Array UInt8}
    (h : writeSection clauses out = .ok () out') :
    fatSectionSize clauses.length ≤ fatSectionLimit := by
  unfold writeSection at h
  by_cases hsmall : smallSectionSize clauses.length ≤ smallSectionLimit ∧
      clauses.all Clause.fitsSmall = true
  · have hcount := hsmall.1
    simp only [smallSectionSize, smallSectionLimit, sectionHeaderSize, Clause.smallSize] at hcount
    rw [fatSection_fits_iff, clauseLimit]
    omega
  · by_cases hfat : fatSectionSize clauses.length ≤ fatSectionLimit
    · exact hfat
    · rw [if_neg hsmall, if_neg hfat] at h
      cases h

theorem fits_of_writeFat {body : RawBody} {out out' : Array UInt8}
    (h : body.writeFat out = .ok () out') :
    body.code.size < 2 ^ 32 ∧ fatSectionSize body.clauses.length ≤ fatSectionLimit := by
  unfold writeFat at h
  by_cases hcode : body.code.size < 0x100000000
  · rw [if_pos hcode] at h
    refine ⟨hcode, ?_⟩
    by_cases hnone : body.clauses = []
    · simp [hnone, fatSection_fits_iff]
    · -- The section comes last, behind the header and the code.
      obtain ⟨-, behindWord, -, h⟩ := bind_eq_ok.1 h
      obtain ⟨-, behindStack, -, h⟩ := bind_eq_ok.1 h
      obtain ⟨-, behindSize, -, h⟩ := bind_eq_ok.1 h
      obtain ⟨-, behindToken, -, h⟩ := bind_eq_ok.1 h
      obtain ⟨-, behindCode, -, h⟩ := bind_eq_ok.1 h
      rw [if_pos (by simpa using hnone)] at h
      obtain ⟨-, behindPadding, -, hsection⟩ := bind_eq_ok.1 h
      exact fits_of_writeSection hsection
  · rw [if_neg hcode] at h
    cases h

theorem fits_of_writeTiny {body : RawBody} {out out' : Array UInt8}
    (h : body.writeTiny out = .ok () out') : body.fitsTiny = true := by
  unfold writeTiny at h
  by_cases hfits : body.fitsTiny = true
  · exact hfits
  · rw [if_neg hfits] at h
    cases h

theorem storable_of_encode {body : RawBody} {bytes : Array UInt8} (h : body.encode = .ok bytes) :
    body.Storable := by
  unfold encode at h
  unfold Storable
  cases hfat : body.isFat with
  | true =>
    rw [hfat, if_pos rfl] at h
    exact fits_of_writeFat (bytes?_eq_ok.1 h)
  | false =>
    rw [hfat, if_neg (by decide)] at h
    exact fitsTiny_iff.1 (fits_of_writeTiny (bytes?_eq_ok.1 h))

/-! ### Reading back -/

/-- A storable body has bytes, and these are read back. -/
theorem readBack_of_storable {body : RawBody} (h : body.Storable) :
    ∃ bytes, bytes ≠ [] ∧ body.encode = .ok bytes.toArray ∧ ReadsAt 0 read bytes body.stored := by
  unfold Storable at h
  unfold encode
  cases hfat : body.isFat with
  | true =>
    rw [hfat, if_pos rfl] at h
    obtain ⟨bytes, hne, hemit, hread⟩ := fat_readBack hfat h.1 (fatSection_fits_iff.1 h.2)
    refine ⟨bytes, hne, hemit.bytes?, ?_⟩
    rwa [stored, if_pos hfat]
  | false =>
    rw [hfat, if_neg (by decide)] at h
    obtain ⟨bytes, hne, hemit, hread⟩ := tiny_readBack hfat (fitsTiny_iff.2 h)
    refine ⟨bytes, hne, hemit.bytes?, ?_⟩
    rwa [stored, if_neg (by simp [hfat])]

/-- **What is written is read back.** A body is written exactly if its header leaves room for it,
and then the body as its header gives it is read from the bytes, whatever follows them. -/
theorem encode_readBack (body : RawBody) :
    ((∃ bytes, body.encode = .ok bytes) ↔ body.Storable) ∧
    ∀ bytes, body.encode = .ok bytes →
      ∀ suffix, decode (bytes ++ suffix) = .ok body.stored := by
  constructor
  · constructor
    · rintro ⟨bytes, hbytes⟩
      exact storable_of_encode hbytes
    · intro hstorable
      obtain ⟨bytes, -, hencode, -⟩ := readBack_of_storable hstorable
      exact ⟨bytes.toArray, hencode⟩
  · intro bytes hbytes suffix
    obtain ⟨written, hne, hencode, hread⟩ := readBack_of_storable (storable_of_encode hbytes)
    obtain rfl : bytes = written.toArray := Except.ok.inj (hbytes.symm.trans hencode)
    exact decode_of_readsAt hne hread suffix

/-- A body whose second clause starts too far into the code for a small section. -/
def longTry : RawBody where
  isFat := true
  maxStack := 3
  initLocals := true
  localsToken := ⟨0x11000001⟩
  code := #[0x00, 0xDE, 0x00, 0xDC, 0x2A]
  clauses := [.finalizing 0 2 2 1, .catching 0x10000 4 2 1 ⟨0x01000001⟩]

theorem encode_readBack_longTry :
    ∃ bytes, longTry.encode = .ok bytes ∧ decode (bytes ++ #[0xFF, 0xFE]) = .ok longTry := by
  have hroom : longTry.code.size < 2 ^ 32 ∧
      fatSectionSize longTry.clauses.length ≤ fatSectionLimit := by decide
  obtain ⟨bytes, hbytes⟩ := (encode_readBack longTry).1.2 hroom
  exact ⟨bytes, hbytes, (encode_readBack longTry).2 bytes hbytes #[0xFF, 0xFE]⟩

/-- A body whose token names no row, but a table. -/
def rowlessLocals : RawBody where
  isFat := false
  maxStack := 8
  initLocals := false
  localsToken := ⟨0x11000000⟩
  code := #[0x2A]
  clauses := []

/-- A tiny header takes every token that names no row, and gives the null token back. -/
theorem encode_forgets_rowlessLocals :
    rowlessLocals.encode = .ok #[0x06, 0x2A] ∧
    decode #[0x06, 0x2A] ≠ .ok { rowlessLocals with maxStack := 8 } := by
  have hwrite : rowlessLocals.encode = .ok #[0x06, 0x2A] := rfl
  have hread : decode #[0x06, 0x2A] = .ok { rowlessLocals with localsToken := .null } := rfl
  refine ⟨hwrite, fun hsame => ?_⟩
  rw [hread] at hsame
  exact absurd (Except.ok.inj hsame) (by decide)

end RawBody

end CilMetadata

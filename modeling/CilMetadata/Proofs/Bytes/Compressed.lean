import CilMetadata.Bytes.Compressed
import CilMetadata.Proofs.Bytes.Stream
import Mathlib.Tactic.Positivity
import Mathlib.Tactic.Zify

/-!
# Compressed integers are read back

A payload is read back together with its width from the bytes that the width writes it as
(`readsAt_payload`). A number takes the least width that holds it, and a rotated signed number is
turned back in the same width (`unrotate_rotate`); so both kinds of compressed integer are read
back (`compressed_readBack`, `compressedSigned_readBack`), wherever they stand. The bytes are
`Bytes.compressedForm` and `Bytes.compressedSignedForm`; what is out of range is refused before
anything is written.
-/

namespace CilMetadata

/-- The largest number that compresses. -/
def compressedLimit : Nat := 0x1FFFFFFF

/-- The signed numbers that compress. -/
def IsCompressible (value : Int) : Prop := -0x10000000 ≤ value ∧ value < 0x10000000

/-! ### Payloads -/

namespace Width

theorem lt_of_ofUnsigned? {value : Nat} {width : Width} (h : ofUnsigned? value = some width) :
    value < 2 ^ width.bits := by
  unfold ofUnsigned? at h
  split_ifs at h <;> cases h <;> simp only [bits] <;> omega

theorem ofUnsigned?_isSome {value : Nat} (h : value ≤ compressedLimit) :
    ∃ width, ofUnsigned? value = some width := by
  unfold ofUnsigned?
  unfold compressedLimit at h
  split_ifs <;> exact ⟨_, rfl⟩

theorem ofUnsigned?_eq_none {value : Nat} (h : compressedLimit < value) :
    ofUnsigned? value = none := by
  unfold compressedLimit at h
  unfold ofUnsigned?
  rw [if_neg (by omega), if_neg (by omega), if_neg (by omega)]

/-- The byte that stands for the absence of a string starts no payload. -/
theorem exists_head {width : Width} {value : Nat} (h : value < 2 ^ width.bits) :
    ∃ head tail, width.write value = head :: tail ∧ head ≠ 0xFF := by
  cases width <;> simp only [Width.bits] at h <;> refine ⟨_, _, rfl, fun heq => ?_⟩ <;>
    have hnat := congrArg UInt8.toNat heq <;> rw [UInt8.toNat_ofNat'] at hnat <;>
    change _ = 255 at hnat <;> omega

theorem range_of_ofSigned? {value : Int} {width : Width} (h : ofSigned? value = some width) :
    -2 ^ (width.bits - 1) ≤ value ∧ value < 2 ^ (width.bits - 1) := by
  unfold ofSigned? at h
  split_ifs at h <;> cases h <;> simp only [bits] <;> omega

theorem ofSigned?_isSome {value : Int} (h : IsCompressible value) :
    ∃ width, ofSigned? value = some width := by
  unfold ofSigned?
  unfold IsCompressible at h
  split_ifs <;> exact ⟨_, rfl⟩

theorem ofSigned?_eq_none {value : Int} (h : ¬ IsCompressible value) :
    ofSigned? value = none := by
  unfold IsCompressible at h
  unfold ofSigned?
  rw [if_neg (by omega), if_neg (by omega), if_neg h]

theorem payloads_eq (width : Width) : width.payloads = 2 ^ width.bits := by
  cases width <;> rfl

theorem two_pow_bits (width : Width) : (2 : Int) ^ width.bits = 2 * 2 ^ (width.bits - 1) := by
  cases width <;> rfl

theorem rotate_lt (width : Width) (value : Int) : width.rotate value < 2 ^ width.bits := by
  have hpos : (0 : Int) < 2 ^ width.bits := by positivity
  have hlt := Int.emod_lt_of_pos (2 * value + if value < 0 then 1 else 0) hpos
  unfold rotate
  rw [payloads_eq]
  zify
  omega

/-- Rotation is undone in the same width. -/
theorem unrotate_rotate {width : Width} {value : Int}
    (h : -2 ^ (width.bits - 1) ≤ value ∧ value < 2 ^ (width.bits - 1)) :
    width.unrotate (width.rotate value) = value := by
  have hpow := two_pow_bits width
  generalize (2 : Int) ^ (width.bits - 1) = half at h hpow
  unfold unrotate rotate
  rw [payloads_eq, hpow]
  -- The sign is the lowest bit; a negative number is lifted by half of the range, and back.
  by_cases hneg : value < 0
  · have hmod : (2 * value + 1) % (2 * half) = 2 * (value + half) + 1 := by
      rw [← Int.add_emod_right, Int.emod_eq_of_lt] <;> omega
    rw [if_pos hneg, hmod]
    split_ifs <;> omega
  · have hmod : (2 * value + 0) % (2 * half) = 2 * value := by
      rw [Int.emod_eq_of_lt] <;> omega
    rw [if_neg hneg, hmod]
    split_ifs <;> omega

end Width

/-! ### Forms -/

namespace Bytes

/-- The bytes of a compressed number; none for a number that is too large. -/
def compressedForm (value : Nat) : List UInt8 :=
  match Width.ofUnsigned? value with
  | some width => width.write value
  | none => []

/-- The bytes of a compressed signed number; none for a number out of range. -/
def compressedSignedForm (value : Int) : List UInt8 :=
  match Width.ofSigned? value with
  | some width => width.write (width.rotate value)
  | none => []

end Bytes

namespace Decoder

theorem readsAt_payload (n : Nat) {width : Width} {value : Nat} (h : value < 2 ^ width.bits) :
    ReadsAt n payload (width.write value) (value, width) := by
  cases width with
  | one =>
    simp only [Width.bits] at h
    have hlead : (UInt8.ofNat value).toNat = value := by rw [UInt8.toNat_ofNat']; omega
    have hsmall : UInt8.ofNat value < 0x80 := by rw [UInt8.lt_iff_toNat_lt, hlead]; exact h
    refine (readsAt_byte n _).andThen ?_
    rw [if_pos hsmall, hlead]
    exact readsAt_pure _ _
  | two =>
    simp only [Width.bits] at h
    set lead := UInt8.ofNat ((0x8000 + value) / 256) with hdef
    have hlead : lead.toNat = 0x80 + value / 256 := by rw [hdef, UInt8.toNat_ofNat']; omega
    have hlow : (UInt8.ofNat (0x8000 + value)).toNat = value % 256 := by
      rw [UInt8.toNat_ofNat']; omega
    have hone : ¬ lead < 0x80 := by rw [UInt8.lt_iff_toNat_lt, hlead]; simp
    have htwo : lead < 0xC0 := by
      rw [UInt8.lt_iff_toNat_lt, hlead]
      change _ < 192
      omega
    have hvalue : lead.toNat % 0x40 * 0x100 + (UInt8.ofNat (0x8000 + value)).toNat = value := by
      rw [hlead, hlow]; omega
    have hread := (readsAt_byte (n + 1) (UInt8.ofNat (0x8000 + value))).map fun low =>
      (lead.toNat % 0x40 * 0x100 + low.toNat, Width.two)
    rw [hvalue] at hread
    refine ReadsAt.behindByte ?_
    rw [if_neg hone, if_pos htwo]
    exact hread
  | four =>
    simp only [Width.bits] at h
    set lead := UInt8.ofNat ((0xC0000000 + value) / 256 / 256 / 256) with hdef
    have hlead : lead.toNat = 0xC0 + value / 256 / 256 / 256 := by
      rw [hdef, UInt8.toNat_ofNat']; omega
    have hlow : Bytes.ofBE (Bytes.toBE 3 (0xC0000000 + value)) = value % 0x1000000 := by
      rw [Bytes.ofBE_toBE]; omega
    have hone : ¬ lead < 0x80 := by rw [UInt8.lt_iff_toNat_lt, hlead]; simp; omega
    have htwo : ¬ lead < 0xC0 := by rw [UInt8.lt_iff_toNat_lt, hlead]; simp
    have hfour : lead < 0xE0 := by
      rw [UInt8.lt_iff_toNat_lt, hlead]
      change _ < 224
      omega
    have hvalue : lead.toNat % 0x20 * 0x1000000 +
        Bytes.ofBE (Bytes.toBE 3 (0xC0000000 + value)) = value := by rw [hlow, hlead]; omega
    have hread := (readsAt_take (n + 1) (Bytes.toBE 3 (0xC0000000 + value))).map fun low =>
      (lead.toNat % 0x20 * 0x1000000 + Bytes.ofBE low.toList, Width.four)
    rw [hvalue] at hread
    refine ReadsAt.behindByte ?_
    rw [if_neg hone, if_neg htwo, if_pos hfour]
    exact hread

/-- A compressed number takes its form, wherever it stands. -/
theorem readsAt_compressed (n : Nat) {value : Nat} (h : value ≤ compressedLimit) :
    ReadsAt n compressed (Bytes.compressedForm value) value := by
  obtain ⟨width, hwidth⟩ := Width.ofUnsigned?_isSome h
  rw [Bytes.compressedForm, hwidth]
  exact ((readsAt_payload n (Width.lt_of_ofUnsigned? hwidth)).map Prod.fst).restoring

/-- A compressed signed number takes its form, wherever it stands. -/
theorem readsAt_compressedSigned (n : Nat) {value : Int} (h : IsCompressible value) :
    ReadsAt n compressedSigned (Bytes.compressedSignedForm value) value := by
  obtain ⟨width, hwidth⟩ := Width.ofSigned?_isSome h
  have hread := readsAt_payload n (Width.rotate_lt width value)
  have hback := Width.unrotate_rotate (Width.range_of_ofSigned? hwidth)
  rw [Bytes.compressedSignedForm, hwidth]
  exact (hback ▸ hread.map fun p => p.2.unrotate p.1).restoring

end Decoder

namespace Encoder

theorem emitsAt_compressed (n : Nat) {value : Nat} (h : value ≤ compressedLimit) :
    EmitsAt n (compressed value) (Bytes.compressedForm value) := by
  obtain ⟨width, hwidth⟩ := Width.ofUnsigned?_isSome h
  rw [compressed, Bytes.compressedForm, hwidth]
  exact emitsAt_emit n _

theorem emitsAt_compressedSigned (n : Nat) {value : Int} (h : IsCompressible value) :
    EmitsAt n (compressedSigned value) (Bytes.compressedSignedForm value) := by
  obtain ⟨width, hwidth⟩ := Width.ofSigned?_isSome h
  rw [compressedSigned, Bytes.compressedSignedForm, hwidth]
  exact emitsAt_emit n _

/-- A number that is too large is refused before anything is written. -/
theorem compressed_of_lt {value : Nat} (h : compressedLimit < value) (out : Array UInt8) :
    compressed value out = .error (.malformed (.uncompressible value)) out := by
  rw [compressed, Width.ofUnsigned?_eq_none h]
  rfl

/-- A signed number out of range is refused before anything is written. -/
theorem compressedSigned_of_not {value : Int} (h : ¬ IsCompressible value) (out : Array UInt8) :
    compressedSigned value out = .error (.malformed (.uncompressibleSigned value)) out := by
  rw [compressedSigned, Width.ofSigned?_eq_none h]
  rfl

end Encoder

namespace Decoder

/-- A compressed number that is not too large is read back wherever it stands. -/
theorem compressed_readBack {value : Nat} (h : value ≤ compressedLimit) :
    ∃ bytes, ∀ n, Encoder.EmitsAt n (Encoder.compressed value) bytes ∧
      ReadsAt n compressed bytes value :=
  ⟨_, fun n => ⟨Encoder.emitsAt_compressed n h, readsAt_compressed n h⟩⟩

/-- A compressed signed number within range is read back wherever it stands. -/
theorem compressedSigned_readBack {value : Int} (h : IsCompressible value) :
    ∃ bytes, ∀ n, Encoder.EmitsAt n (Encoder.compressedSigned value) bytes ∧
      ReadsAt n compressedSigned bytes value :=
  ⟨_, fun n => ⟨Encoder.emitsAt_compressedSigned n h, readsAt_compressedSigned n h⟩⟩

end Decoder

end CilMetadata

import CilMetadata.Proofs.Bytes.Compressed
import CilMetadata.Proofs.Bytes.Success

/-!
# The least width of a compressed integer

A reader takes compressed integers of any width that holds them; a writer chooses the least width.

* `IsCompressed bytes value` and `IsCompressedSigned bytes value`: the bytes are a number in one of
  the widths. This is what the readers take (`takesAt_compressed`, `takesAt_compressedSigned`);
* `size_le_of_ofUnsigned?` and `size_le_of_ofSigned?`: no width that holds a number is smaller than
  the one that is chosen. So whatever is read is written again in as many bytes or in fewer
  (`IsCompressed.emitsAt`, `IsCompressedSigned.emitsAt`).
-/

namespace CilMetadata

namespace Bytes

/-- Bytes are written again by the number they stand for, high byte first. -/
theorem toBE_ofBE (bytes : List UInt8) : toBE bytes.length (ofBE bytes) = bytes := by
  have hback := toLE_ofLE bytes.reverse
  rw [List.length_reverse] at hback
  rw [toBE, ofBE, hback, List.reverse_reverse]

theorem ofBE_cons (byte : UInt8) (rest : List UInt8) :
    ofBE (byte :: rest) = byte.toNat * 256 ^ rest.length + ofBE rest := by
  have happend (low : List UInt8) :
      ofLE (low ++ [byte]) = byte.toNat * 256 ^ low.length + ofLE low := by
    induction low with
    | nil => simp [ofLE]
    | cons first low ih =>
      rw [List.cons_append, ofLE, ih, ofLE, List.length_cons, pow_succ]
      ring
  simpa [ofBE] using happend rest.reverse

end Bytes

/-! ### Widths -/

namespace Width

@[simp] theorem length_write (width : Width) (payload : Nat) :
    (width.write payload).length = width.size := by
  cases width <;> simp [write, size]

/-- The width that is chosen for a number is the least one that holds it. -/
theorem size_le_of_ofUnsigned? {value : Nat} {width other : Width}
    (h : ofUnsigned? value = some width) (hother : value < 2 ^ other.bits) :
    width.size ≤ other.size := by
  unfold ofUnsigned? at h
  cases other <;> simp only [bits] at hother <;> split_ifs at h <;> cases h <;>
    simp only [size] <;> omega

/-- The width that is chosen for a signed number is the least one that holds it. -/
theorem size_le_of_ofSigned? {value : Int} {width other : Width}
    (h : ofSigned? value = some width)
    (hother : -2 ^ (other.bits - 1) ≤ value ∧ value < 2 ^ (other.bits - 1)) :
    width.size ≤ other.size := by
  unfold ofSigned? at h
  cases other <;> simp only [bits] at hother <;> split_ifs at h <;> cases h <;>
    simp only [size] <;> omega

/-- Half of the payloads stand for negative numbers, half of them for others. -/
theorem unrotate_range {width : Width} {payload : Nat} (h : payload < 2 ^ width.bits) :
    -2 ^ (width.bits - 1) ≤ width.unrotate payload ∧
      width.unrotate payload < 2 ^ (width.bits - 1) := by
  unfold unrotate
  rw [payloads_eq]
  cases width <;> simp only [bits] at h ⊢ <;> split_ifs <;> omega

end Width

/-! ### What is taken -/

/-- The bytes are the number in one of the widths that hold it. -/
def IsCompressed (bytes : List UInt8) (value : Nat) : Prop :=
  ∃ width : Width, value < 2 ^ width.bits ∧ bytes = width.write value

/-- The bytes are the signed number, rotated in one of the widths that hold it. -/
def IsCompressedSigned (bytes : List UInt8) (value : Int) : Prop :=
  ∃ (width : Width) (payload : Nat), payload < 2 ^ width.bits ∧
    bytes = width.write payload ∧ value = width.unrotate payload

namespace Decoder

variable {α : Type} {n : Nat}

theorem TakesAt.restoring {d : Decoder α} {post : List UInt8 → α → Prop} (h : TakesAt n d post) :
    TakesAt n d.restoring post := by
  intro c c' a hc hrun
  unfold Decoder.restoring at hrun
  cases hd : d c with
  | ok b mid =>
    rw [hd] at hrun
    cases hrun
    exact h c c' a hc hd
  | error fault mid =>
    rw [hd] at hrun
    cases hrun

/-- A payload takes the bytes that its width writes it as. -/
theorem takesAt_payload (n : Nat) :
    TakesAt n payload fun bytes p => p.1 < 2 ^ p.2.bits ∧ bytes = p.2.write p.1 := by
  refine (takesAt_byte n).bind ?_
  rintro _ lead rfl
  have hlead := lead.toNat_lt
  split_ifs with hone htwo hfour
  · have hsmall : lead.toNat < 128 := UInt8.lt_iff_toNat_lt.1 hone
    exact takesAt_pure ⟨hsmall, by simp [Width.write]⟩
  · have hlow : 128 ≤ lead.toNat := UInt8.le_iff_toNat_le.1 (UInt8.not_lt.1 hone)
    have hhigh : lead.toNat < 192 := UInt8.lt_iff_toNat_lt.1 htwo
    refine TakesAt.map ((takesAt_byte _).mono ?_)
    rintro _ low rfl
    have hbyte := low.toNat_lt
    have hvalue : 0x8000 + (lead.toNat % 0x40 * 0x100 + low.toNat) = Bytes.ofBE [lead, low] := by
      simp only [Bytes.ofBE_cons, List.length_cons, List.length_nil]
      change _ = lead.toNat * 256 ^ 1 + (low.toNat * 256 ^ 0 + 0)
      omega
    refine ⟨?_, ?_⟩
    · simp only [Width.bits]
      omega
    · rw [Width.write, hvalue]
      exact (Bytes.toBE_ofBE [lead, low]).symm
  · have hlow : 192 ≤ lead.toNat := UInt8.le_iff_toNat_le.1 (UInt8.not_lt.1 htwo)
    have hhigh : lead.toNat < 224 := UInt8.lt_iff_toNat_lt.1 hfour
    refine TakesAt.map ((takesAt_take _ 3).mono ?_)
    rintro bytes _ ⟨hlength, rfl⟩
    have hbytes : Bytes.ofBE bytes < 0x1000000 := by
      have hlt := Bytes.ofLE_lt bytes.reverse
      rwa [List.length_reverse, hlength] at hlt
    have hvalue : 0xC0000000 + (lead.toNat % 0x20 * 0x1000000 + Bytes.ofBE bytes) =
        Bytes.ofBE (lead :: bytes) := by
      rw [Bytes.ofBE_cons, hlength]
      omega
    refine ⟨?_, ?_⟩
    · simp only [Width.bits]
      omega
    · have hback := Bytes.toBE_ofBE (lead :: bytes)
      rw [List.length_cons, hlength] at hback
      rw [Width.write, hvalue, hback]
      rfl
  · exact takesAt_throw _ _ _

theorem takesAt_compressed (n : Nat) : TakesAt n compressed IsCompressed := by
  refine TakesAt.restoring (TakesAt.map ((takesAt_payload n).mono ?_))
  rintro bytes ⟨value, width⟩ ⟨hlt, hbytes⟩
  exact ⟨width, hlt, hbytes⟩

theorem takesAt_compressedSigned (n : Nat) : TakesAt n compressedSigned IsCompressedSigned := by
  refine TakesAt.restoring (TakesAt.map ((takesAt_payload n).mono ?_))
  rintro bytes ⟨payload, width⟩ ⟨hlt, hbytes⟩
  exact ⟨width, payload, hlt, hbytes, rfl⟩

end Decoder

/-! ### What is written again -/

theorem IsCompressed.le_limit {bytes : List UInt8} {value : Nat} (h : IsCompressed bytes value) :
    value ≤ 0x1FFFFFFF := by
  obtain ⟨width, hlt, -⟩ := h
  cases width <;> simp only [Width.bits] at hlt <;> omega

/-- Without a byte that announces four bytes, a number is small. -/
theorem IsCompressed.lt_of_narrow {bytes : List UInt8} {value : Nat} (h : IsCompressed bytes value)
    (hnarrow : ∀ byte ∈ bytes, byte < 0xC0) : value < 2 ^ 14 := by
  obtain ⟨width, hlt, rfl⟩ := h
  cases width with
  | one => exact hlt.trans (by decide)
  | two => exact hlt
  | four =>
    have hmem : UInt8.ofNat ((0xC0000000 + value) / 256 / 256 / 256) ∈ Width.write .four value := by
      simp [Width.write, Bytes.toBE, Bytes.toLE]
    have hlead := UInt8.lt_iff_toNat_lt.1 (hnarrow _ hmem)
    rw [UInt8.toNat_ofNat'] at hlead
    simp only [Width.bits] at hlt
    change _ < 0xC0 at hlead
    omega

theorem IsCompressed.length_form_le {bytes : List UInt8} {value : Nat}
    (h : IsCompressed bytes value) : (Bytes.compressedForm value).length ≤ bytes.length := by
  obtain ⟨least, hleast⟩ := Width.ofUnsigned?_isSome h.le_limit
  obtain ⟨width, hlt, rfl⟩ := h
  simp only [Bytes.compressedForm, hleast, Width.length_write]
  exact Width.size_le_of_ofUnsigned? hleast hlt

/-- A number is written again in as many bytes or in fewer. -/
theorem IsCompressed.emitsAt {bytes : List UInt8} {value : Nat} (h : IsCompressed bytes value) :
    ∃ out, (∀ n, Encoder.EmitsAt n (Encoder.compressed value) out) ∧
      out.length ≤ bytes.length :=
  ⟨_, fun n => Encoder.emitsAt_compressed n h.le_limit, h.length_form_le⟩

theorem IsCompressedSigned.range {bytes : List UInt8} {value : Int}
    (h : IsCompressedSigned bytes value) : -0x10000000 ≤ value ∧ value < 0x10000000 := by
  obtain ⟨width, payload, hlt, -, rfl⟩ := h
  have hrange := Width.unrotate_range hlt
  cases width <;> simp only [Width.bits] at hrange <;> omega

theorem IsCompressedSigned.length_form_le {bytes : List UInt8} {value : Int}
    (h : IsCompressedSigned bytes value) :
    (Bytes.compressedSignedForm value).length ≤ bytes.length := by
  obtain ⟨least, hleast⟩ := Width.ofSigned?_isSome h.range
  obtain ⟨width, payload, hlt, rfl, rfl⟩ := h
  simp only [Bytes.compressedSignedForm, hleast, Width.length_write]
  exact Width.size_le_of_ofSigned? hleast (Width.unrotate_range hlt)

/-- A signed number is written again in as many bytes or in fewer. -/
theorem IsCompressedSigned.emitsAt {bytes : List UInt8} {value : Int}
    (h : IsCompressedSigned bytes value) :
    ∃ out, (∀ n, Encoder.EmitsAt n (Encoder.compressedSigned value) out) ∧
      out.length ≤ bytes.length :=
  ⟨_, fun n => Encoder.emitsAt_compressedSigned n h.range, h.length_form_le⟩

end CilMetadata

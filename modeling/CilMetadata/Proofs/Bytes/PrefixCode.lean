import CilMetadata.Proofs.Bytes.Following
import CilMetadata.Proofs.Bytes.Minimal

/-!
# Compressed integers are a minimal prefix code

`IsMinimalCode write read range form` says what a writer and a reader of numbers have in common: a
number in the range is written in its form and read from it, whatever follows; no other number is
written; and whatever is read has a form that is not longer than the bytes it was read from.

* `IsMinimalCode.eq_of_prefix`: no form is the start of another one;
* `compressed_isMinimalCode` and `compressedSigned_isMinimalCode` are the two kinds of compressed
  integers, and `compressed_codes` puts them together with the sizes of the forms and with the byte
  that stands for the absence of a string.
-/

namespace CilMetadata

variable {α : Type}

/-- The reader gives back what the writer writes for the numbers in the range, and reads no number
from fewer bytes than the writer takes for it. -/
structure IsMinimalCode (write : α → Encoder Unit) (read : Decoder α) (range : α → Prop)
    (form : α → List UInt8) : Prop where
  writes : ∀ value, range value → ∀ out, write value out = .ok () (out ++ (form value).toArray)
  reads : ∀ value, range value → ∀ front suffix : Array UInt8,
    let bytes := front ++ (form value).toArray ++ suffix
    read { bytes, pos := front.size } =
      .ok value { bytes, pos := front.size + (form value).length }
  refuses : ∀ value, ¬ range value → ∀ out, ∃ fault, write value out = .error fault out
  least : ∀ (value : α) (c c' : Cursor), read c = .ok value c' →
    range value ∧ c.pos + (form value).length ≤ c'.pos
  head_ne : ∀ value, range value → ∃ head tail, form value = head :: tail ∧ head ≠ 0xFF

/-- No form is the start of another one. -/
theorem IsMinimalCode.eq_of_prefix {write : α → Encoder Unit} {read : Decoder α}
    {range : α → Prop} {form : α → List UInt8} (h : IsMinimalCode write read range form)
    {value other : α} (hvalue : range value) (hother : range other)
    (hstart : form value <+: form other) : value = other := by
  obtain ⟨suffix, hsuffix⟩ := hstart
  have hbytes : #[] ++ (form value).toArray ++ suffix.toArray =
      #[] ++ (form other).toArray ++ #[] := by simp [← hsuffix]
  have hread := h.reads value hvalue #[] suffix.toArray
  rw [hbytes] at hread
  have hboth := hread.symm.trans (h.reads other hother #[] #[])
  cases hboth
  rfl

namespace Cursor

theorem ahead_between (front : Array UInt8) (form : List UInt8) (suffix : Array UInt8) :
    Ahead { bytes := front ++ form.toArray ++ suffix, pos := front.size } form := by
  refine ⟨by simp, suffix.toList, ?_⟩
  simp [rest]

end Cursor

theorem compressed_isMinimalCode :
    IsMinimalCode Encoder.compressed Decoder.compressed (· ≤ compressedLimit)
      Bytes.compressedForm where
  writes value h out := Encoder.emitsAt_compressed out.size h out rfl
  reads value h front suffix :=
    Decoder.readsAt_compressed front.size h _ rfl (Cursor.ahead_between front _ suffix)
  refuses value h out := ⟨_, Encoder.compressed_of_lt (Nat.not_le.1 h) out⟩
  least value c c' hrun := by
    obtain ⟨bytes, -, rfl, hbytes⟩ := Decoder.takesAt_compressed c.pos c c' value rfl hrun
    exact ⟨hbytes.le_limit, Nat.add_le_add_left hbytes.length_form_le _⟩
  head_ne value h := by
    obtain ⟨width, hwidth⟩ := Width.ofUnsigned?_isSome h
    rw [Bytes.compressedForm, hwidth]
    exact Width.exists_head (Width.lt_of_ofUnsigned? hwidth)

theorem compressedSigned_isMinimalCode :
    IsMinimalCode Encoder.compressedSigned Decoder.compressedSigned IsCompressible
      Bytes.compressedSignedForm where
  writes value h out := Encoder.emitsAt_compressedSigned out.size h out rfl
  reads value h front suffix :=
    Decoder.readsAt_compressedSigned front.size h _ rfl (Cursor.ahead_between front _ suffix)
  refuses value h out := ⟨_, Encoder.compressedSigned_of_not h out⟩
  least value c c' hrun := by
    obtain ⟨bytes, -, rfl, hbytes⟩ := Decoder.takesAt_compressedSigned c.pos c c' value rfl hrun
    exact ⟨hbytes.range, Nat.add_le_add_left hbytes.length_form_le _⟩
  head_ne value h := by
    obtain ⟨width, hwidth⟩ := Width.ofSigned?_isSome h
    rw [Bytes.compressedSignedForm, hwidth]
    exact Width.exists_head (Width.rotate_lt width value)

/-- The form of a number has the announced size. -/
theorem Bytes.length_compressedForm {value : Nat} (h : value ≤ compressedLimit) :
    (compressedForm value).length = compressedSize value := by
  unfold compressedLimit at h
  unfold compressedForm compressedSize Width.ofUnsigned?
  split_ifs <;> simp only [Width.length_write, Width.size]

/-- A written length is not taken for the absence of a string. -/
theorem Decoder.serString_of_ahead {c c' : Cursor} {value : Nat} {text : Option String}
    (hvalue : value ≤ compressedLimit) (h : c.Ahead (Bytes.compressedForm value))
    (hrun : serString c = .ok text c') : text.isSome = true := by
  obtain ⟨head, tail, hform, hne⟩ := compressed_isMinimalCode.head_ne value hvalue
  unfold serString at hrun
  rw [bind_of_ok (peekByte_of_ahead (hform ▸ h)), if_neg hne] at hrun
  obtain ⟨length, mid, -, hrest⟩ := bind_eq_ok.1 hrun
  obtain ⟨bytes, mid', -, hlast⟩ := bind_eq_ok.1 hrest
  cases htext : String.fromUTF8? ⟨bytes⟩ with
  | none =>
    rw [htext] at hlast
    cases hlast
  | some decoded =>
    rw [htext] at hlast
    cases hlast
    rfl

/-- Compressed integers, signed or not, are minimal codes in which no form starts another one; an
unsigned one takes the announced number of bytes, and it is not taken for the absence of a string
where it counts one. -/
theorem compressed_codes :
    IsMinimalCode Encoder.compressed Decoder.compressed (· ≤ compressedLimit)
      Bytes.compressedForm ∧
    IsMinimalCode Encoder.compressedSigned Decoder.compressedSigned IsCompressible
      Bytes.compressedSignedForm ∧
    (∀ value other, value ≤ compressedLimit → other ≤ compressedLimit →
      Bytes.compressedForm value <+: Bytes.compressedForm other → value = other) ∧
    (∀ value other, IsCompressible value → IsCompressible other →
      Bytes.compressedSignedForm value <+: Bytes.compressedSignedForm other → value = other) ∧
    (∀ value, value ≤ compressedLimit →
      (Bytes.compressedForm value).length = Bytes.compressedSize value) ∧
    (∀ value, value ≤ compressedLimit → ∀ (front suffix : Array UInt8) (text : Option String) c',
      Decoder.serString { bytes := front ++ (Bytes.compressedForm value).toArray ++ suffix,
                          pos := front.size } = .ok text c' → text.isSome = true) :=
  ⟨compressed_isMinimalCode, compressedSigned_isMinimalCode,
    fun _ _ => compressed_isMinimalCode.eq_of_prefix,
    fun _ _ => compressedSigned_isMinimalCode.eq_of_prefix,
    fun _ => Bytes.length_compressedForm,
    fun _ hvalue front suffix _ _ =>
      Decoder.serString_of_ahead hvalue (Cursor.ahead_between front _ suffix)⟩

end CilMetadata

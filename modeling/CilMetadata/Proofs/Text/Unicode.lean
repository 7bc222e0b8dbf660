import CilMetadata.Text.Utf16
import Mathlib.Data.List.Basic
import Mathlib.Tactic.Common

/-!
# Texts are read back from bytes and units

* `ofUnits?_units`: the 16 bit units of a text give the text back, pairs of surrogates among them;
* `fromUTF8?_toByteArray` and `toByteArray_of_fromUTF8?` say the same of UTF-8 in both directions;
* `zero_notMem_toByteArray`: only the character zero is written with a zero byte.
-/

namespace CilMetadata

namespace Text

/-! ### Units -/

/-- No character lies among the surrogates. -/
theorem not_surrogate (c : Char) : c.toNat < 0xD800 ∨ 0xDFFF < c.toNat ∧ c.toNat < 0x110000 := by
  have hvalid : c.val.toNat.isValidChar := c.valid
  change c.val.toNat < 0xD800 ∨ 0xDFFF < c.val.toNat ∧ c.val.toNat < 0x110000
  exact hvalid

theorem isHighSurrogate_iff {unit : UInt16} :
    isHighSurrogate unit = true ↔ 0xD800 ≤ unit.toNat ∧ unit.toNat < 0xDC00 := by
  simp [isHighSurrogate, UInt16.le_iff_toNat_le, UInt16.lt_iff_toNat_lt]

theorem isLowSurrogate_iff {unit : UInt16} :
    isLowSurrogate unit = true ↔ 0xDC00 ≤ unit.toNat ∧ unit.toNat < 0xE000 := by
  simp [isLowSurrogate, UInt16.le_iff_toNat_le, UInt16.lt_iff_toNat_lt]

theorem ofUnits?_single {unit : UInt16} (hhigh : isHighSurrogate unit = false)
    (hlow : isLowSurrogate unit = false) (rest : List UInt16) :
    ofUnits? (unit :: rest) = (ofUnits? rest).map (Char.ofNat unit.toNat :: ·) := by
  cases rest with
  | nil => simp [ofUnits?, hhigh, hlow]
  | cons next rest => simp [ofUnits?, hhigh, hlow]

theorem ofUnits?_pair {high low : UInt16} (hhigh : isHighSurrogate high = true)
    (hlow : isLowSurrogate low = true) (rest : List UInt16) :
    ofUnits? (high :: low :: rest) = (ofUnits? rest).map (paired high low :: ·) := by
  simp [ofUnits?, hhigh, hlow]

/-- The units of a character are read as the character. -/
theorem ofUnits?_unitsOf (c : Char) (rest : List UInt16) :
    ofUnits? (unitsOf c ++ rest) = (ofUnits? rest).map (c :: ·) := by
  have hvalid := not_surrogate c
  unfold unitsOf
  split_ifs with hsmall
  · have hunit : (UInt16.ofNat c.toNat).toNat = c.toNat := UInt16.toNat_ofNat_of_lt' hsmall
    have hhigh : isHighSurrogate (UInt16.ofNat c.toNat) = false := by
      rw [Bool.eq_false_iff, ne_eq, isHighSurrogate_iff, hunit]
      omega
    have hlow : isLowSurrogate (UInt16.ofNat c.toNat) = false := by
      rw [Bool.eq_false_iff, ne_eq, isLowSurrogate_iff, hunit]
      omega
    rw [List.singleton_append, ofUnits?_single hhigh hlow, hunit, Char.ofNat_toNat]
  · have hfirst : (UInt16.ofNat (0xD800 + (c.toNat - 0x10000) / 0x400)).toNat =
        0xD800 + (c.toNat - 0x10000) / 0x400 := UInt16.toNat_ofNat_of_lt' (by
      change _ < 65536
      omega)
    have hsecond : (UInt16.ofNat (0xDC00 + (c.toNat - 0x10000) % 0x400)).toNat =
        0xDC00 + (c.toNat - 0x10000) % 0x400 := UInt16.toNat_ofNat_of_lt' (by
      change _ < 65536
      omega)
    have hhigh := isHighSurrogate_iff.2 (show _ ∧ _ by rw [hfirst]; omega)
    have hlow := isLowSurrogate_iff.2 (show _ ∧ _ by rw [hsecond]; omega)
    -- The two surrogates hold the quotient and the remainder of what is above the first plane.
    have hpaired : 0x10000 + (0xD800 + (c.toNat - 0x10000) / 0x400 - 0xD800) * 0x400 +
        (0xDC00 + (c.toNat - 0x10000) % 0x400 - 0xDC00) = c.toNat := by omega
    rw [List.cons_append, List.singleton_append, ofUnits?_pair hhigh hlow, paired, hfirst, hsecond,
      hpaired, Char.ofNat_toNat]

/-- The units of a text are read as the text. -/
theorem ofUnits?_units (text : List Char) : ofUnits? (units text) = some text := by
  induction text with
  | nil => rfl
  | cons c text ih =>
    have hunits : units (c :: text) = unitsOf c ++ units text := List.flatMap_cons
    rw [hunits, ofUnits?_unitsOf, ih]
    rfl

/-! ### UTF-8 -/

theorem fromUTF8?_toByteArray (text : String) : String.fromUTF8? text.toByteArray = some text := by
  rw [String.fromUTF8?, dif_pos text.isValidUTF8]
  rfl

theorem toByteArray_of_fromUTF8? {bytes : ByteArray} {text : String}
    (h : String.fromUTF8? bytes = some text) : text.toByteArray = bytes := by
  unfold String.fromUTF8? at h
  split_ifs at h with hvalid
  cases h
  rfl

/-- Every byte of a character but zero has a part that is not zero. -/
theorem zero_notMem_utf8EncodeChar {c : Char} (hc : c ≠ '\x00') :
    0 ∉ String.utf8EncodeChar c := by
  have hpos : c.val.toNat ≠ 0 := fun hzero => hc (Char.ext (UInt32.toNat_inj.1 hzero))
  have hbyte {n : Nat} (hn : n % 256 ≠ 0) : (0 : UInt8) ≠ UInt8.ofNat n := by
    intro h
    have hnat := congrArg UInt8.toNat h
    rw [UInt8.toNat_ofNat'] at hnat
    exact hn hnat.symm
  simp only [String.utf8EncodeChar]
  split_ifs <;> simp only [List.mem_cons, List.not_mem_nil, or_false, not_or, ← ne_eq]
  · exact hbyte (by omega)
  · exact ⟨hbyte (by omega), hbyte (by omega)⟩
  · exact ⟨hbyte (by omega), hbyte (by omega), hbyte (by omega)⟩
  · exact ⟨hbyte (by omega), hbyte (by omega), hbyte (by omega), hbyte (by omega)⟩

theorem toList_toByteArray (text : String) :
    text.toByteArray.data.toList = text.toList.flatMap String.utf8EncodeChar := by
  rw [← String.utf8Encode_toList, List.utf8Encode, List.toList_data_toByteArray]

/-- Only the character zero is written with a zero byte. -/
theorem zero_notMem_toByteArray {text : String} (h : '\x00' ∉ text.toList) :
    0 ∉ text.toByteArray.data.toList := by
  rw [toList_toByteArray, List.mem_flatMap]
  rintro ⟨c, hc, hzero⟩
  exact zero_notMem_utf8EncodeChar (fun heq => h (heq ▸ hc)) hzero

end Text

end CilMetadata

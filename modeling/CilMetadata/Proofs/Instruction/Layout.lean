import CilMetadata.Instruction.Encode
import Mathlib.Tactic.Ring

/-!
# Laid-out code

Laying code out changes offsets only, so that it changes neither sizes nor bytes and does nothing
the second time. Of code of less than `2 ^ 32` bytes the offsets increase, so that an offset belongs
to one instruction at most.
-/

namespace CilMetadata.Instruction

theorem size_pos (ins : Instruction) : 0 < ins.size := by
  unfold size Opcode.size
  split <;> omega

theorem totalSize_cons (ins : Instruction) (code : List Instruction) :
    totalSize (ins :: code) = ins.size + totalSize code := rfl

@[simp] theorem length_layOutFrom (n : Nat) (code : List Instruction) :
    (layOutFrom n code).length = code.length := by
  induction code generalizing n with
  | nil => rfl
  | cons ins rest ih => simp [layOutFrom, ih]

@[simp] theorem layOutFrom_eq_nil {n : Nat} {code : List Instruction} :
    layOutFrom n code = [] ↔ code = [] := by
  cases code <;> simp [layOutFrom]

theorem layOutFrom_layOutFrom (m n : Nat) (code : List Instruction) :
    layOutFrom n (layOutFrom m code) = layOutFrom n code := by
  induction code generalizing m n with
  | nil => rfl
  | cons ins rest ih =>
    simp only [layOutFrom, ih]
    rfl

theorem layOut_layOut (code : List Instruction) : layOut (layOut code) = layOut code :=
  layOutFrom_layOutFrom 0 0 code

/-- The bytes of an instruction do not depend on its offset field. -/
theorem each_encode_layOutFrom (n : Nat) (code : List Instruction) :
    Encoder.each encode (layOutFrom n code) = Encoder.each encode code := by
  induction code generalizing n with
  | nil => rfl
  | cons ins rest ih =>
    simp only [layOutFrom, Encoder.each, ih]
    rfl

theorem code?_layOut (code : List Instruction) : code? (layOut code) = code? code := by
  rw [code?, layOut, each_encode_layOutFrom, code?]

/-- Laid-out code ends where its size says. -/
theorem nextOffset_getLast?_layOutFrom {n : Nat} {code : List Instruction} (h : code ≠ []) :
    (layOutFrom n code).getLast?.map nextOffset = some (UInt32.ofNat (n + totalSize code)) := by
  induction code generalizing n with
  | nil => exact absurd rfl h
  | cons ins rest ih =>
    rw [layOutFrom, totalSize_cons]
    by_cases hrest : rest = []
    · subst hrest
      simp [layOutFrom, nextOffset, totalSize, UInt32.ofNat_add, size]
    · obtain ⟨next, tail, htail⟩ := List.exists_cons_of_ne_nil (l := layOutFrom (n + ins.size) rest)
        (fun hnil => hrest (layOutFrom_eq_nil.1 hnil))
      rw [htail, List.getLast?_cons_cons, ← htail, ih hrest, Nat.add_assoc]

theorem le_offset_of_mem {n : Nat} {code : List Instruction} (h : n + totalSize code < 0x100000000)
    {ins : Instruction} (hmem : ins ∈ layOutFrom n code) : n ≤ ins.offset.toNat := by
  induction code generalizing n with
  | nil => cases hmem
  | cons first rest ih =>
    rw [totalSize_cons] at h
    rcases List.mem_cons.1 hmem with rfl | hrest
    · exact Nat.le_of_eq (UInt32.toNat_ofNat_of_lt' (show n < 0x100000000 by omega)).symm
    · have hle := ih (by omega) hrest
      omega

/-- The offsets of laid-out code increase, as long as they do not wrap around. -/
theorem pairwise_offset_lt {n : Nat} {code : List Instruction}
    (h : n + totalSize code < 0x100000000) :
    (layOutFrom n code).Pairwise (·.offset < ·.offset) := by
  induction code generalizing n with
  | nil => exact List.Pairwise.nil
  | cons first rest ih =>
    rw [totalSize_cons] at h
    refine List.Pairwise.cons (fun other hother => ?_) (ih (by omega))
    have hle := le_offset_of_mem (by omega) hother
    have hpos := first.size_pos
    rw [UInt32.lt_iff_toNat_lt, UInt32.toNat_ofNat_of_lt' (show n < 0x100000000 by omega)]
    omega

end CilMetadata.Instruction

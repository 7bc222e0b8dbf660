import CilMetadata.Bytes.Compressed
import CilMetadata.Proofs.Bytes.Following

/-!
# Readers move forward

A reader never moves its cursor back and never changes the bytes, and it fails on the bytes alone:
they end too early, or they are malformed. `Decoder.Advances` says so of one reader; it goes through
sequences (`Advances.bind`), and so the readers of numbers have it.
-/

namespace CilMetadata

/-- The bytes are at fault: they end too early, or they are malformed. -/
def Fault.OfData : Fault → Prop
  | .outOfBounds | .malformed _ => True
  | _ => False

namespace Decoder

variable {α β : Type}

/-! ### Failures -/

theorem failsWith_position : FailsWith position Fault.OfData := by
  intro c c' fault hrun
  cases hrun

theorem failsWith_peekByte : FailsWith peekByte Fault.OfData := by
  intro c c' fault hrun
  unfold peekByte at hrun
  split at hrun
  · cases hrun
  · cases hrun
    trivial

theorem failsWith_byte : FailsWith byte Fault.OfData := by
  intro c c' fault hrun
  unfold byte at hrun
  split at hrun
  · cases hrun
  · cases hrun
    trivial

theorem failsWith_take (n : Nat) : FailsWith (take n) Fault.OfData := by
  intro c c' fault hrun
  unfold take at hrun
  split at hrun
  · cases hrun
  · cases hrun
    trivial

theorem failsWith_skip (n : Nat) : FailsWith (skip n) Fault.OfData := by
  intro c c' fault hrun
  unfold skip at hrun
  split at hrun
  · cases hrun
  · cases hrun
    trivial

theorem failsWith_number (order : Bytes.Order) (width : Nat) :
    FailsWith (number order width) Fault.OfData :=
  (failsWith_take width).map _

theorem failsWith_u16 : FailsWith u16 Fault.OfData := (failsWith_number .little 2).map _

theorem failsWith_u32 : FailsWith u32 Fault.OfData := (failsWith_number .little 4).map _

theorem failsWith_times {d : Decoder α} {p : Fault → Prop} (h : FailsWith d p) (count : Nat) :
    FailsWith (d.times count) p := by
  induction count with
  | zero => exact failsWith_pure [] p
  | succ count ih =>
    rw [times_succ]
    exact h.bind fun a => ih.map (a :: ·)

/-! ### Movement -/

/-- The reader moves forward when it succeeds, and the bytes are at fault when it fails. -/
structure Advances (d : Decoder α) : Prop where
  moves : ∀ c c' a, d c = .ok a c' → ∃ n, c' = c.forward n
  fails : FailsWith d Fault.OfData

theorem advances_pure (a : α) : Advances (pure a) := by
  refine ⟨fun c c' b hrun => ?_, failsWith_pure a _⟩
  cases hrun
  exact ⟨0, rfl⟩

theorem advances_throw {fault : Fault} (h : fault.OfData) : Advances (throw fault : Decoder α) := by
  refine ⟨fun c c' a hrun => ?_, failsWith_throw h⟩
  cases hrun

theorem Advances.bind {d : Decoder α} {f : α → Decoder β} (h : Advances d)
    (hrest : ∀ a, Advances (f a)) : Advances (d >>= f) := by
  refine ⟨fun c c' b hrun => ?_, h.fails.bind fun a => (hrest a).fails⟩
  obtain ⟨a, mid, hd, hf⟩ := bind_eq_ok.1 hrun
  obtain ⟨first, rfl⟩ := h.moves c mid a hd
  obtain ⟨second, rfl⟩ := (hrest a).moves _ c' b hf
  exact ⟨first + second, Cursor.forward_forward c first second⟩

/-- A reader whose value is changed afterwards. -/
theorem Advances.map {d : Decoder α} (h : Advances d) (f : α → β) :
    Advances (do return f (← d)) :=
  h.bind fun a => advances_pure (f a)

theorem advances_ite {p : Prop} [Decidable p] {d d' : Decoder α} (h : Advances d)
    (h' : Advances d') : Advances (if p then d else d') := by
  by_cases hp : p
  · rwa [if_pos hp]
  · rwa [if_neg hp]

theorem Advances.restoring {d : Decoder α} (h : Advances d) : Advances d.restoring := by
  constructor
  · intro c c' a hrun
    unfold Decoder.restoring at hrun
    cases hd : d c with
    | ok b mid =>
      rw [hd] at hrun
      cases hrun
      exact h.moves c c' a hd
    | error fault mid =>
      rw [hd] at hrun
      cases hrun
  · intro c c' fault hrun
    unfold Decoder.restoring at hrun
    cases hd : d c with
    | ok b mid =>
      rw [hd] at hrun
      cases hrun
    | error fault' mid =>
      rw [hd] at hrun
      cases hrun
      exact h.fails c mid fault hd

theorem advances_byte : Advances byte := by
  refine ⟨fun c c' b hrun => ?_, failsWith_byte⟩
  unfold byte at hrun
  split at hrun
  · cases hrun
    exact ⟨1, rfl⟩
  · cases hrun

theorem advances_take (n : Nat) : Advances (take n) := by
  refine ⟨fun c c' array hrun => ?_, failsWith_take n⟩
  unfold take at hrun
  split at hrun
  · cases hrun
    exact ⟨n, rfl⟩
  · cases hrun

/-! ### Numbers -/

theorem advances_payload : Advances payload := by
  refine advances_byte.bind fun lead => ?_
  refine advances_ite (advances_pure _) (advances_ite ?_ (advances_ite ?_ ?_))
  · exact advances_byte.map _
  · exact (advances_take 3).map _
  · exact advances_throw trivial

theorem advances_compressed : Advances compressed :=
  (advances_payload.map _).restoring

theorem advances_compressedSigned : Advances compressedSigned :=
  (advances_payload.map fun parts => parts.2.unrotate parts.1).restoring

end Decoder

end CilMetadata

import CilMetadata.Proofs.Bytes.Success
import CilMetadata.Proofs.Instruction.ReadBack

/-!
# When code can be written

An instruction can be written when its operand fits its opcode and every target lies in reach:
`Instruction.Encodable` says so of an instruction at its offset, with the distance of a target from
the end of the instruction as an unbounded integer. There is no other reason for a failure
(`emitsWhen_encode`, `emitsWhen_code`), so that laid-out code can be written exactly when all of its
instructions can (`code?_layOut_isOk`).
-/

namespace CilMetadata

open Decoder Encoder

/-- How far a branch reaches, by the kind of its operand. -/
def OperandKind.reach : OperandKind → Int
  | .shortBranch => 0x80
  | _ => 0x80000000

/-- A branch covers a distance; one more backwards than forwards. -/
def OperandKind.Reaches (kind : OperandKind) (far : Int) : Prop :=
  -kind.reach ≤ far ∧ far < kind.reach

instance (kind : OperandKind) (far : Int) : Decidable (kind.Reaches far) :=
  inferInstanceAs (Decidable (_ ∧ _))

/-- All targets of an operand are in reach from the place right behind it. -/
def Operand.InReach (kind : OperandKind) (next : Nat) : Operand → Prop
  | .target offset => kind.Reaches (Instruction.distance next offset.toNat)
  | .switch offsets =>
    ∀ offset ∈ offsets, kind.Reaches (Instruction.distance next offset.toNat)
  | _ => True

namespace Instruction

/-- The operand fits the opcode, and its targets are in reach. -/
def Encodable (ins : Instruction) : Prop :=
  ins.operand.fits ins.opcode.operand = true ∧
    ∀ target ∈ ins.targets,
      ins.opcode.operand.Reaches (distance (ins.offset.toNat + ins.size) target.toNat)

-- The targets are gone through one by one; a search through all offsets would not end.
instance : DecidablePred Encodable := fun ins =>
  @instDecidableAnd _ _ inferInstance (List.decidableBAll _ ins.targets)

theorem forall_targets_iff (ins : Instruction) (kind : OperandKind) (next : Nat) :
    (∀ target ∈ ins.targets, kind.Reaches (distance next target.toNat)) ↔
      ins.operand.InReach kind next := by
  cases hoperand : ins.operand <;> simp [targets, Operand.InReach, hoperand]

/-! ### Writers that look at their offset -/

theorem outputOffset_eq {out : Array UInt8} (h : out.size < 0x100000000) :
    outputOffset out = .ok (UInt32.ofNat out.size) out := by
  change (if out.size < 0x100000000 then pure (UInt32.ofNat out.size) else _ : Encoder UInt32)
    out = _
  rw [if_pos h]
  rfl

theorem EmitsAt.atOffset {n : Nat} {f : UInt32 → Encoder Unit} {bytes : List UInt8}
    (hn : n < 0x100000000) (h : EmitsAt n (f (UInt32.ofNat n)) bytes) :
    EmitsAt n (do f (← outputOffset)) bytes := by
  rintro out rfl
  change EStateM.bind outputOffset f out = _
  rw [EStateM.bind, outputOffset_eq hn]
  exact h out rfl

theorem EmitsWhen.atOffset {n size : Nat} {f : UInt32 → Encoder Unit} {p : Prop}
    (hn : n < 0x100000000) (h : EmitsWhen n size (f (UInt32.ofNat n)) p) :
    EmitsWhen n size (do f (← outputOffset)) p := by
  constructor
  · intro hp
    obtain ⟨bytes, hlen, hemit⟩ := h.emits hp
    exact ⟨bytes, hlen, EmitsAt.atOffset hn hemit⟩
  · rintro out out' rfl hrun
    obtain ⟨offset, mid, hget, hrest⟩ := bind_eq_ok.1 hrun
    rw [outputOffset_eq hn] at hget
    cases hget
    exact h.holds out out' rfl hrest

/-! ### Displacements -/

theorem emitsWhen_shortDisplacement {n : Nat} (hn : n < 0x100000000) (start target : UInt32) :
    EmitsWhen n 1 (shortDisplacement start target)
      (OperandKind.Reaches .shortBranch (distance (n + 1) target.toNat)) := by
  refine EmitsWhen.atOffset hn ?_
  rw [toNat_offset hn]
  exact (emitsWhen_ite fun _ => emitsWhen_number n 1 _).congr (by rw [and_true]; rfl)

theorem emitsWhen_longDisplacement (n : Nat) (start : UInt32) (next : Nat) (target : UInt32) :
    EmitsWhen n 4 (longDisplacement start next target)
      (OperandKind.Reaches .branch (distance next target.toNat)) :=
  (emitsWhen_ite fun _ => emitsWhen_number n 4 _).congr (by rw [and_true]; rfl)

theorem emitsWhen_jumpTable {n : Nat} {start : UInt32} {targets : List UInt32}
    (hn : n + 4 + 4 * targets.length < 0x100000000) :
    EmitsWhen n (4 + 4 * targets.length) (encodeOperand start .switch (.switch targets))
      (∀ target ∈ targets, OperandKind.Reaches .switch
        (distance (n + 4 + 4 * targets.length) target.toNat)) := by
  have hbase : (UInt32.ofNat (n + 4)).toNat = n + 4 := toNat_offset (by omega)
  rw [encodeOperand, if_pos (by omega)]
  have htable : EmitsWhen (n + 4) (4 * targets.length)
      (do let next := (← outputOffset).toNat + 4 * targets.length
          Encoder.each (longDisplacement start next) targets)
      (∀ target ∈ targets, OperandKind.Reaches .branch
        (distance (n + 4 + 4 * targets.length) target.toNat)) := by
    refine EmitsWhen.atOffset (by omega) ?_
    rw [hbase]
    exact emitsWhen_each (fun target _ n => emitsWhen_longDisplacement n start _ target) _
  exact ((emitsWhen_number n 4 _).bind htable).congr (by rw [true_and]; rfl)

/-! ### Instructions -/

theorem emitsWhen_operand {n : Nat} {operand : Operand} {kind : OperandKind}
    (h : operand.Fits kind) (hn : n + operand.sizeAs kind < 0x100000000) (start : UInt32) :
    EmitsWhen n (operand.sizeAs kind) (encodeOperand start kind operand)
      (operand.InReach kind (n + operand.sizeAs kind)) := by
  cases h with
  | none => exact emitsWhen_of_emitsAt (emitsAt_pure n)
  | int8 value => exact emitsWhen_of_emitsAt (emitsAt_byte n value.toUInt8)
  | uint8 value => exact emitsWhen_of_emitsAt (emitsAt_byte n value)
  | int32 value => exact emitsWhen_number n 4 value.toUInt32.toNat
  | int64 value => exact emitsWhen_number n 8 value.toUInt64.toNat
  | float32 bits => exact emitsWhen_number n 4 bits.toNat
  | float64 bits => exact emitsWhen_number n 8 bits.toNat
  | shortVariable index => exact emitsWhen_of_emitsAt (emitsAt_byte n index.toUInt8)
  | «variable» index => exact emitsWhen_number n 2 index.toNat
  | shortTarget offset =>
    have hlt : n < 0x100000000 := Nat.lt_of_le_of_lt (Nat.le_add_right n _) hn
    exact emitsWhen_shortDisplacement hlt start offset
  | target offset =>
    have hlt : n < 0x100000000 := Nat.lt_of_le_of_lt (Nat.le_add_right n _) hn
    have hbase : (UInt32.ofNat n).toNat = n := toNat_offset hlt
    refine EmitsWhen.atOffset hlt ?_
    rw [hbase]
    exact emitsWhen_longDisplacement n start (n + 4) offset
  | switch offsets =>
    rw [Operand.sizeAs, ← Nat.add_assoc] at hn
    rw [Operand.sizeAs, ← Nat.add_assoc]
    exact emitsWhen_jumpTable hn
  | token token => exact emitsWhen_number n 4 token.value.toNat

/-- An instruction can be written at its offset when it is encodable there. -/
theorem emitsWhen_encode {n : Nat} {ins : Instruction} (hn : n + ins.size < 0x100000000) :
    EmitsWhen n ins.size ins.encode (Encodable { ins with offset := UInt32.ofNat n }) := by
  have hlt : n < 0x100000000 := Nat.lt_of_le_of_lt (Nat.le_add_right n _) hn
  have hiff : Encodable { ins with offset := UInt32.ofNat n } ↔
      ins.operand.fits ins.opcode.operand = true ∧
        ins.operand.InReach ins.opcode.operand (n + ins.size) := by
    have hoffset : ({ ins with offset := UInt32.ofNat n } : Instruction).offset.toNat = n :=
      toNat_offset hlt
    rw [Encodable, hoffset, forall_targets_iff]
    rfl
  refine EmitsWhen.congr (emitsWhen_ite fun hfits => ?_) hiff.symm
  rw [size_eq] at hn ⊢
  refine EmitsWhen.atOffset hlt ?_
  have hopcode := emitsWhen_of_emitsAt (emitsAt_emit n (opcodeBytes ins.opcode))
  rw [length_opcodeBytes] at hopcode
  have hoperand := @emitsWhen_operand (n + ins.opcode.size) _ _ (Operand.Fits.of_fits hfits)
    (by omega) (UInt32.ofNat n)
  rw [Nat.add_assoc] at hoperand
  exact (hopcode.bind hoperand).congr (by rw [true_and])

/-- Instructions can be written one after the other when each of them can at its place. -/
theorem emitsWhen_code {code : List Instruction} {n : Nat}
    (hn : n + totalSize code < 0x100000000) :
    EmitsWhen n (totalSize code) (Encoder.each encode code)
      (∀ ins ∈ layOutFrom n code, ins.Encodable) := by
  induction code generalizing n with
  | nil => exact (emitsWhen_of_emitsAt (emitsAt_pure n)).congr (by simp [layOutFrom])
  | cons ins rest ih =>
    rw [totalSize_cons] at hn ⊢
    have hfirst := @emitsWhen_encode n ins (by omega)
    have hrest := @ih (n + ins.size) (by omega)
    exact (hfirst.bind hrest).congr (by simp [layOutFrom])

/-- Laid-out code of opcodes from the table can be written exactly when all of its instructions are
encodable at their offsets. It takes the bytes that its layout says, from which the instructions
are read back with their offsets, but for the effects of calls. -/
theorem code?_layOut_isOk (code : List Instruction) (hop : ∀ ins ∈ code, ins.opcode ∈ Opcode.table)
    (hsize : totalSize code < 0x100000000) :
    ((∃ bytes, code? (layOut code) = .ok bytes) ↔ ∀ ins ∈ layOut code, ins.Encodable) ∧
      ∀ bytes, code? (layOut code) = .ok bytes →
        bytes.size = totalSize code ∧ stream bytes = .ok ((layOut code).map bare) := by
  rw [code?_layOut]
  constructor
  · have hwhen := @emitsWhen_code code 0 (by omega)
    exact hwhen.bytes?_isOk
  · intro bytes hbytes
    exact stream_of_code? hop hsize hbytes

/-- A jump table that leads to its own start and end, and a branch as far forward as it reaches. -/
def dispatch : List Instruction := [
  { opcode := ⟨0x45, "switch", .switch, .switch, .fixed 1, .fixed 0⟩, operand := .switch [0, 13] },
  { opcode := ⟨0x2B, "br.s", .shortBranch, .branch, .fixed 0, .fixed 0⟩, operand := .target 142 }]

theorem code?_layOut_isOk_dispatch :
    (∃ bytes, code? (layOut dispatch) = .ok bytes) ∧
      stream #[0x45, 2, 0, 0, 0, 0xF3, 0xFF, 0xFF, 0xFF, 0, 0, 0, 0, 0x2B, 0x7F] =
        .ok ((layOut dispatch).map bare) := by
  have hop : ∀ ins ∈ dispatch, ins.opcode ∈ Opcode.table := by decide +kernel
  obtain ⟨hiff, hread⟩ := code?_layOut_isOk dispatch hop (by decide)
  exact ⟨hiff.2 (by decide), (hread _ rfl).2⟩

/-- One byte further on the branch is out of reach. -/
example : ¬Encodable { opcode := ⟨0x2B, "br.s", .shortBranch, .branch, .fixed 0, .fixed 0⟩
                       operand := .target 143, offset := 13 } := by decide

end Instruction

end CilMetadata

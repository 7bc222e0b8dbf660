import CilMetadata.Proofs.Bytes.Stream
import CilMetadata.Proofs.Instruction.Layout
import Mathlib.Tactic.SplitIfs

/-!
# Code is read back

An instruction is written from the offset where the output stands, and read from the same offset.
The displacement of a branch counts from the end of its operand on both sides, so that reading
resolves it to the target again (`resolve_distance`).

* `Operand.Fits` lists the operands an opcode takes;
* `recoversAt_encode` is the statement for one instruction, `stream_of_code?` for a list of them:
  what is read is the list laid out from offset 0, with the effects of calls cleared.
-/

namespace CilMetadata

/-! ### Opcodes -/

namespace Opcode

theorem values_increase : table.Pairwise (·.value < ·.value) := by
  have htrans : IsTrans Opcode (·.value < ·.value) := ⟨fun _ _ _ => UInt16.lt_trans⟩
  exact List.isChain_iff_pairwise.1 (by decide +kernel)

/-- A value of one byte is not the lead byte; the other values start with it. -/
theorem value_eq {op : Opcode} (h : op ∈ table) :
    op.value ≤ 0xFF ∧ op.value ≠ 0xFE ∨
      0xFF < op.value ∧ 0xFE00 ||| op.value.toUInt8.toUInt16 = op.value := by
  have hall : ∀ op ∈ table, op.value ≤ 0xFF ∧ op.value ≠ 0xFE ∨
      0xFF < op.value ∧ 0xFE00 ||| op.value.toUInt8.toUInt16 = op.value := by decide +kernel
  exact hall op h

theorem ofValue?_value {op : Opcode} (h : op ∈ table) : ofValue? op.value = some op := by
  obtain ⟨before, after, hsplit⟩ := List.append_of_mem h
  refine List.find?_eq_some_iff_append.2 ⟨by simp, before, after, hsplit, ?_⟩
  intro other hother
  have hincrease := values_increase
  rw [hsplit, List.pairwise_append] at hincrease
  have hlt := hincrease.2.2 other hother op List.mem_cons_self
  simpa using UInt16.ne_of_lt hlt

end Opcode

/-! ### Operands -/

namespace Operand

/-- An operand that can be written where an operand of some kind is due. -/
inductive Fits : Operand → OperandKind → Prop
  | none : Fits .none .none
  | int8 (value : Int8) : Fits (.int8 value) .shortInt
  | uint8 (value : UInt8) : Fits (.uint8 value) .byte
  | int32 (value : Int32) : Fits (.int32 value) .int
  | int64 (value : Int64) : Fits (.int64 value) .long
  | float32 (bits : UInt32) : Fits (.float32 bits) .shortFloat
  | float64 (bits : UInt64) : Fits (.float64 bits) .float
  | shortVariable (index : UInt16) (h : index ≤ 0xFF) : Fits (.variable index) .shortVar
  | variable (index : UInt16) : Fits (.variable index) .var
  | shortTarget (offset : UInt32) : Fits (.target offset) .shortBranch
  | target (offset : UInt32) : Fits (.target offset) .branch
  | switch (offsets : List UInt32) : Fits (.switch offsets) .switch
  | token (token : Token) : Fits (.token token) .token

theorem Fits.of_fits {operand : Operand} {kind : OperandKind} (h : operand.fits kind = true) :
    operand.Fits kind := by
  unfold fits at h
  split at h
  case h_12 index => exact .shortVariable index (by simpa using h)
  case h_14 => cases h
  all_goals constructor

/-- How many bytes an operand takes where one of the given kind is due. -/
def sizeAs (kind : OperandKind) : Operand → Nat
  | .switch offsets => 4 + 4 * offsets.length
  | _ => kind.size

end Operand

namespace Instruction

open Decoder Encoder

theorem length_opcodeBytes (op : Opcode) : (opcodeBytes op).length = op.size := by
  unfold opcodeBytes Opcode.size
  split_ifs <;> rfl

theorem readsAt_opcodeValue (n : Nat) {op : Opcode} (h : op ∈ Opcode.table) :
    ReadsAt n opcodeValue (opcodeBytes op) op.value := by
  unfold opcodeBytes Opcode.isTwoByte
  rcases Opcode.value_eq h with ⟨hsmall, hlead⟩ | ⟨hlarge, hback⟩
  · have hle := UInt16.le_iff_toNat_le.1 hsmall
    have hback : op.value.toUInt8.toUInt16 = op.value := by
      apply UInt16.toNat_inj.1
      simp at hle ⊢
      omega
    have hfirst : op.value.toUInt8 ≠ leadByte := by
      intro heq
      rw [heq] at hback
      exact hlead (hback.symm.trans rfl)
    rw [decide_eq_false (UInt16.not_lt.2 hsmall)]
    refine (readsAt_byte n _).andThen ?_
    rw [if_neg hfirst, hback]
    exact readsAt_pure _ _
  · rw [decide_eq_true hlarge]
    refine ReadsAt.behindByte ?_
    rw [if_pos rfl]
    have hread := (readsAt_byte (n + 1) op.value.toUInt8).map fun low => 0xFE00 ||| low.toUInt16
    rwa [hback] at hread

theorem size_eq (ins : Instruction) :
    ins.size = ins.opcode.size + ins.operand.sizeAs ins.opcode.operand := by
  cases h : ins.operand <;> simp [size, Operand.sizeAs, h]

/-! ### Displacements -/

theorem toNat_offset {n : Nat} (h : n < 0x100000000) : (UInt32.ofNat n).toNat = n :=
  UInt32.toNat_ofNat_of_lt' h

/-- The distance to a target leads back to the target. -/
theorem resolve_distance (start base target : UInt32) :
    resolve start base (distance base.toNat target.toNat) = .ok target := by
  have htarget : (base.toNat : Int) + distance base.toNat target.toNat = target.toNat := by
    unfold distance
    omega
  have hlt := target.toNat_lt
  simp only [resolve, htarget]
  rw [if_pos (by omega), Int.toNat_natCast, UInt32.ofNat_toNat]

theorem readsAt_codeOffset {n : Nat} (h : n < 0x100000000) :
    ReadsAt n codeOffset [] (UInt32.ofNat n) := by
  rintro c rfl -
  change (if c.pos < 0x100000000 then pure (UInt32.ofNat c.pos) else _ : Decoder UInt32) c = _
  rw [if_pos h]
  rfl

/-- What is written with the offset of the output at hand. -/
theorem RecoversAt.atOffset {α : Type} {n size : Nat} {f : UInt32 → Encoder Unit} {d : Decoder α}
    {a : α} (hn : n < 0x100000000) (h : RecoversAt n size (f (UInt32.ofNat n)) d a) :
    RecoversAt n size (do f (← outputOffset)) d a := by
  rintro out out' rfl hrun
  have hoffset : outputOffset out = .ok (UInt32.ofNat out.size) out := by
    change (if out.size < 0x100000000 then pure (UInt32.ofNat out.size) else _ : Encoder UInt32)
      out = _
    rw [if_pos hn]
    rfl
  obtain ⟨offset, mid, hget, hrest⟩ := bind_eq_ok.1 hrun
  rw [hoffset] at hget
  cases hget
  exact h out out' rfl hrest

theorem readsAt_resolveHere {n : Nat} (h : n < 0x100000000) (start target : UInt32) :
    ReadsAt n (resolveHere start (distance n target.toNat)) [] target := by
  have hbase : (UInt32.ofNat n).toNat = n := toNat_offset h
  refine (readsAt_codeOffset h).andThen ?_
  have hback := resolve_distance start (UInt32.ofNat n) target
  rw [hbase] at hback
  rw [hback]
  exact readsAt_pure _ _

theorem toInt_byte {far : Int} (h : -0x80 ≤ far ∧ far < 0x80) :
    (UInt8.ofNat (far % 0x100).toNat).toInt8.toInt = far := by
  rw [UInt8.toInt8_ofNat', Int8.toInt_ofNat', Int8.size, Int.bmod_def]
  split_ifs <;> omega

theorem toInt_word {far : Int} (h : -0x80000000 ≤ far ∧ far < 0x80000000) :
    (UInt32.ofNat (far % 0x100000000).toNat).toInt32.toInt = far := by
  rw [UInt32.toInt32_ofNat', Int32.toInt_ofNat', Int32.size, Int.bmod_def]
  split_ifs <;> omega

theorem recoversAt_shortDisplacement {n : Nat} (hn : n + 1 < 0x100000000) (start target : UInt32) :
    RecoversAt n 1 (shortDisplacement start target)
      (do resolveHere start (← Decoder.byte).toInt8.toInt) target := by
  have hbase : (UInt32.ofNat n).toNat = n := toNat_offset (by omega)
  refine RecoversAt.atOffset (by omega) ?_
  rw [hbase]
  intro out out' hout hrun
  by_cases hfar : -0x80 ≤ distance (n + 1) target.toNat ∧ distance (n + 1) target.toNat < 0x80
  · rw [if_pos hfar] at hrun
    refine recoversAt_of_emitsAt (emitsAt_number n 1 _) ?_ out out' hout hrun
    refine (readsAt_byte n _).andThen ?_
    rw [toInt_byte hfar]
    exact readsAt_resolveHere hn start target
  · rw [if_neg hfar] at hrun
    cases hrun

theorem recoversAt_longDisplacement (n : Nat) (start : UInt32) (next : Nat) (target : UInt32) :
    RecoversAt n 4 (longDisplacement start next target) displacement
      (distance next target.toNat) := by
  intro out out' hout hrun
  unfold longDisplacement at hrun
  by_cases hfar : -0x80000000 ≤ distance next target.toNat ∧
      distance next target.toNat < 0x80000000
  · rw [if_pos hfar] at hrun
    refine recoversAt_of_emitsAt (emitsAt_number n 4 _) ?_ out out' hout hrun
    have hword := readsAt_u32 n (UInt32.ofNat (distance next target.toNat % 0x100000000).toNat)
    have hsmall : (distance next target.toNat % 0x100000000).toNat < 0x100000000 := by omega
    rw [toNat_offset hsmall] at hword
    have hread := hword.map fun word => word.toInt32.toInt
    rwa [toInt_word hfar] at hread
  · rw [if_neg hfar] at hrun
    cases hrun

theorem recoversAt_branch {n : Nat} (hn : n + 4 < 0x100000000) (start target : UInt32) :
    RecoversAt n 4 (do longDisplacement start ((← outputOffset).toNat + 4) target)
      (do resolveHere start (← displacement)) target := by
  have hbase : (UInt32.ofNat n).toNat = n := toNat_offset (by omega)
  refine RecoversAt.atOffset (by omega) ?_
  rw [hbase]
  exact (recoversAt_longDisplacement n start (n + 4) target).andThen
    (readsAt_resolveHere hn start target)

/-! ### Jump tables -/

theorem mapM_resolve (start base : UInt32) (targets : List UInt32) :
    (targets.map fun target => distance base.toNat target.toNat).mapM (resolve start base) =
      .ok targets := by
  induction targets with
  | nil => rfl
  | cons target rest ih =>
    rw [List.map_cons, List.mapM_cons, resolve_distance, ih]
    rfl

/-- The displacements of a jump table and the offsets they lead to. -/
theorem recoversAt_jumpTable {n : Nat} {start : UInt32} {targets : List UInt32}
    (hn : n + 4 + 4 * targets.length < 0x100000000) :
    RecoversAt n (4 + 4 * targets.length)
      (do Encoder.number 4 targets.length
          let next := (← outputOffset).toNat + 4 * targets.length
          Encoder.each (longDisplacement start next) targets)
      (jumpTable start) targets := by
  have hbase : (UInt32.ofNat (n + 4)).toNat = n + 4 := toNat_offset (by omega)
  have hlength : (UInt32.ofNat targets.length).toNat = targets.length :=
    toNat_offset (by omega)
  have hcount := readsAt_u32 n (UInt32.ofNat targets.length)
  rw [hlength] at hcount
  refine (recoversAt_of_emitsAt (emitsAt_number n 4 _) hcount).bind ?_
  rw [Bytes.length_toLE, hlength]
  refine RecoversAt.atOffset (by omega) ?_
  rw [hbase]
  -- What is written are displacements; they become targets only behind the whole table.
  intro out out' hout hrun
  obtain ⟨bytes, hlen, hbytes, hread⟩ :=
    recoversAt_each (fun target _ n => recoversAt_longDisplacement n start _ target) (n + 4) out
      out' hout hrun
  refine ⟨bytes, hlen, hbytes, ReadsAt.get fun c hc hahead => ?_⟩
  -- The table is ahead of the cursor, so that its size is not refused.
  have hfits := hahead.fits
  have hroom : ¬ c.remaining < 4 * targets.length := by
    unfold Cursor.remaining
    omega
  rw [if_neg hroom]
  have hbound : n + 4 + bytes.length < 0x100000000 := by omega
  refine hread.andThen ((readsAt_codeOffset hbound).andThen ?_)
  have hresolve := mapM_resolve start (UInt32.ofNat (n + 4 + bytes.length)) targets
  rw [toNat_offset hbound, hlen] at hresolve
  rw [hlen, hresolve]
  exact readsAt_pure _ _

/-! ### Instructions -/

theorem recoversAt_operand {n : Nat} {operand : Operand} {kind : OperandKind}
    (h : operand.Fits kind) (hn : n + operand.sizeAs kind < 0x100000000) (start : UInt32) :
    RecoversAt n (operand.sizeAs kind) (encodeOperand start kind operand)
      (decodeOperand start kind) operand := by
  cases h with
  | none => exact recoversAt_of_emitsAt (emitsAt_pure n) (readsAt_pure n _)
  | int8 value =>
    have hread := (readsAt_byte n value.toUInt8).map fun byte => Operand.int8 byte.toInt8
    rw [Int8.toInt8_toUInt8] at hread
    exact recoversAt_of_emitsAt (emitsAt_byte n _) hread
  | uint8 value =>
    exact recoversAt_of_emitsAt (emitsAt_byte n _) ((readsAt_byte n value).map Operand.uint8)
  | int32 value =>
    have hread := (readsAt_u32 n value.toUInt32).map fun word => Operand.int32 word.toInt32
    rw [Int32.toInt32_toUInt32] at hread
    exact recoversAt_of_emitsAt (emitsAt_number n 4 _) hread
  | int64 value =>
    have hread := (readsAt_u64 n value.toUInt64).map fun word => Operand.int64 word.toInt64
    rw [Int64.toInt64_toUInt64] at hread
    exact recoversAt_of_emitsAt (emitsAt_number n 8 _) hread
  | float32 bits =>
    exact recoversAt_of_emitsAt (emitsAt_number n 4 _) ((readsAt_u32 n bits).map Operand.float32)
  | float64 bits =>
    exact recoversAt_of_emitsAt (emitsAt_number n 8 _) ((readsAt_u64 n bits).map Operand.float64)
  | shortVariable index hindex =>
    have hle := UInt16.le_iff_toNat_le.1 hindex
    have hback : index.toUInt8.toUInt16 = index := by
      apply UInt16.toNat_inj.1
      simp at hle ⊢
      omega
    have hread := (readsAt_byte n index.toUInt8).map fun byte => Operand.variable byte.toUInt16
    rw [hback] at hread
    exact recoversAt_of_emitsAt (emitsAt_byte n _) hread
  | «variable» index =>
    exact recoversAt_of_emitsAt (emitsAt_number n 2 _) ((readsAt_u16 n index).map Operand.variable)
  | shortTarget offset =>
    have hback := (recoversAt_shortDisplacement hn start offset).map Operand.target
    rw [bind_assoc] at hback
    exact hback
  | target offset =>
    have hback := (recoversAt_branch hn start offset).map Operand.target
    rw [bind_assoc] at hback
    exact hback
  | switch offsets =>
    have hcount : offsets.length < 0x100000000 := by
      simp only [Operand.sizeAs] at hn
      omega
    rw [encodeOperand, if_pos hcount]
    exact (recoversAt_jumpTable (by simpa [Operand.sizeAs, Nat.add_assoc] using hn)).map
      Operand.switch
  | token token =>
    exact recoversAt_of_emitsAt (emitsAt_number n 4 _)
      ((readsAt_u32 n token.value).map fun value => Operand.token ⟨value⟩)

/-- An instruction without the effect of its call, which the code does not hold. -/
def bare (ins : Instruction) : Instruction := { ins with callEffect := .none }

/-- An instruction that is written at `n` is read back with the offset `n`. -/
theorem recoversAt_encode {n : Nat} {ins : Instruction} (hop : ins.opcode ∈ Opcode.table)
    (hn : n + ins.size < 0x100000000) :
    RecoversAt n ins.size ins.encode decode (bare { ins with offset := UInt32.ofNat n }) := by
  rw [size_eq] at hn ⊢
  by_cases hfits : ins.operand.fits ins.opcode.operand
  · rw [encode, if_pos hfits]
    refine RecoversAt.atOffset (by omega) ?_
    refine RecoversAt.behind ?_ (readsAt_codeOffset (by omega))
    have hopcode := recoversAt_of_emitsAt (emitsAt_emit n (opcodeBytes ins.opcode))
      (readsAt_opcodeValue n hop)
    have hoperand := recoversAt_operand (n := n + ins.opcode.size) (Operand.Fits.of_fits hfits)
      (by omega) (UInt32.ofNat n)
    rw [length_opcodeBytes] at hopcode
    have hrest := hoperand.map fun operand =>
      ({ opcode := ins.opcode, offset := UInt32.ofNat n, operand } : Instruction)
    refine hopcode.bind ?_
    rw [Opcode.ofValue?_value hop]
    exact hrest
  · intro out out' _ hrun
    rw [encode, if_neg hfits] at hrun
    cases hrun

theorem decodeAll_succ {c : Cursor} (h : c.hasMore = true) (steps : Nat) :
    decodeAll (steps + 1) c = (do return (← decode) :: (← decodeAll steps)) c := by
  rw [decodeAll]
  change (if c.hasMore then _ else _ : Decoder (List Instruction)) c = _
  rw [if_pos h]

theorem decodeAll_of_end {c : Cursor} (h : c.hasMore = false) (steps : Nat) :
    decodeAll steps c = .ok [] c := by
  cases steps with
  | zero => rfl
  | succ steps =>
    rw [decodeAll]
    change (if c.hasMore then _ else _ : Decoder (List Instruction)) c = _
    rw [if_neg (by simp [h])]
    rfl

/-- Instructions that are written from `n` on are read back, laid out from `n`, where nothing
follows them. -/
theorem decodeAll_of_each {code : List Instruction} {n : Nat} {out out' : Array UInt8}
    (hop : ∀ ins ∈ code, ins.opcode ∈ Opcode.table) (hn : n + totalSize code < 0x100000000)
    (hout : out.size = n) (hrun : Encoder.each encode code out = .ok () out') :
    ∃ bytes, bytes.length = totalSize code ∧ out' = out ++ bytes.toArray ∧
      ∀ (c : Cursor) (steps : Nat), c.pos = n → c.pos ≤ c.bytes.size → c.rest = bytes →
        bytes.length ≤ steps →
        decodeAll steps c = .ok ((layOutFrom n code).map bare) (c.forward bytes.length) := by
  induction code generalizing n out with
  | nil =>
    cases hrun
    refine ⟨[], rfl, by simp, fun c steps _ _ hrest _ => ?_⟩
    have hend : c.hasMore = false := by
      have hlen := c.length_rest
      rw [hrest, List.length_nil, Cursor.remaining] at hlen
      simp only [Cursor.hasMore, decide_eq_false_iff_not]
      omega
    exact decodeAll_of_end hend steps
  | cons ins rest ih =>
    rw [totalSize_cons] at hn ⊢
    obtain ⟨_, mid, hfirst, hsecond⟩ := bind_eq_ok.1 hrun
    obtain ⟨first, hfirstLen, rfl, hread⟩ :=
      recoversAt_encode (hop ins List.mem_cons_self) (by omega) out mid hout hfirst
    obtain ⟨second, hsecondLen, rfl, hreadRest⟩ :=
      ih (n := n + ins.size) (fun a ha => hop a (List.mem_cons_of_mem _ ha)) (by omega)
        (by simp [hout, hfirstLen]) hsecond
    refine ⟨first ++ second, by simp [hfirstLen, hsecondLen], by simp, ?_⟩
    -- The first instruction takes at least one of the steps, the others are left with the rest.
    intro c steps hpos hinside hrest hsteps
    have hlen := c.length_rest
    rw [hrest, List.length_append, Cursor.remaining] at hlen
    rw [List.length_append] at hsteps ⊢
    have hsize := ins.size_pos
    have hmore : c.hasMore = true := by
      simp only [Cursor.hasMore, decide_eq_true_iff]
      omega
    have hahead : c.Ahead first := ⟨hinside, second, hrest.symm⟩
    obtain ⟨steps, rfl⟩ : ∃ fewer, steps = fewer + 1 := ⟨steps - 1, by omega⟩
    have hnext := hreadRest (c.forward first.length) steps (by simp [hpos, hfirstLen])
      (by simp only [Cursor.pos_forward, Cursor.bytes_forward]; omega)
      (by rw [Cursor.rest_forward, hrest, List.drop_left]) (by omega)
    rw [decodeAll_succ hmore]
    refine bind_eq_ok.2 ⟨_, _, hread c hpos hahead, bind_eq_ok.2 ⟨_, _, hnext, ?_⟩⟩
    rw [Cursor.forward_forward]
    rfl

/-- Code that has been encoded takes as many bytes as its instructions, and is decoded to the same
instructions, laid out. -/
theorem stream_of_code? {code : List Instruction} {bytes : Array UInt8}
    (hop : ∀ ins ∈ code, ins.opcode ∈ Opcode.table) (hsize : totalSize code < 0x100000000)
    (h : code? code = .ok bytes) :
    bytes.size = totalSize code ∧ stream bytes = .ok ((layOut code).map bare) := by
  rw [code?, Encoder.bytes?] at h
  cases hrun : Encoder.each encode code #[] with
  | error fault out =>
    rw [hrun] at h
    cases h
  | ok _ out =>
    rw [hrun] at h
    cases h
    obtain ⟨written, hlen, rfl, hread⟩ := decodeAll_of_each (n := 0) hop (by omega) rfl hrun
    have hstart := hread { bytes := written.toArray } written.length rfl (Nat.zero_le _)
      (by simp [Cursor.rest]) (Nat.le_refl _)
    refine ⟨by simpa using hlen, ?_⟩
    rw [stream, Decoder.value?]
    simp [hstart, layOut]

end Instruction

end CilMetadata

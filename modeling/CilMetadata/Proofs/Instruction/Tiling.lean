import CilMetadata.Proofs.Instruction.Reach

/-!
# Read code is written back

Whatever bytes an instruction is read from, they are the bytes that it is written as: the opcode
has one value, an operand one form, and the displacement of a branch is the distance of the target
that it was resolved to (`distance_of_resolve`).

* `Operand.ReadFrom` and `Instruction.ReadFrom` say so of the parts of code, `Tiles` of all of it;
* `takesAt_decode` is the statement for one instruction, `takesAt_decodeAll` for a list of them;
* `code?_of_stream` says that code which can be read is tiled by its instructions.
-/

namespace CilMetadata

open Decoder Encoder

/-- The operand fits the kind, and is written as the bytes that it was read from. -/
structure Operand.ReadFrom (n : Nat) (start : UInt32) (kind : OperandKind) (bytes : List UInt8)
    (operand : Operand) : Prop where
  fits : operand.fits kind = true
  size : bytes.length = operand.sizeAs kind
  emits : EmitsAt n (Instruction.encodeOperand start kind operand) bytes

namespace Instruction

/-! ### Opcodes -/

theorem twoByteValue (low : UInt8) :
    0xFF < 0xFE00 ||| low.toUInt16 ∧ (0xFE00 ||| low.toUInt16).toUInt8 = low := by
  have hall : ∀ n < 256, 0xFF < 0xFE00 ||| (UInt8.ofNat n).toUInt16 ∧
      (0xFE00 ||| (UInt8.ofNat n).toUInt16).toUInt8 = UInt8.ofNat n := by decide +kernel
  have hlow := hall low.toNat low.toNat_lt
  rwa [UInt8.ofNat_toNat] at hlow

/-- An opcode is found by the value in its own bytes only. -/
theorem takesAt_opcodeValue (n : Nat) :
    TakesAt n opcodeValue fun bytes value =>
      ∀ op, Opcode.ofValue? value = some op → bytes = opcodeBytes op := by
  have hvalue {value : UInt16} {op : Opcode} (h : Opcode.ofValue? value = some op) :
      op.value = value := by simpa using List.find?_some h
  refine (takesAt_byte n).bind ?_
  rintro _ first rfl
  split_ifs with hlead
  · refine (takesAt_byte _).mapForm fun low op hop => ?_
    obtain ⟨hlarge, hlow⟩ := twoByteValue low
    rw [opcodeBytes, Opcode.isTwoByte, hvalue hop, decide_eq_true hlarge, if_pos rfl, hlow, hlead]
    rfl
  · refine takesAt_pure fun op hop => ?_
    have hsmall : ¬0xFF < first.toUInt16 := by
      rw [UInt16.lt_iff_toNat_lt, UInt8.toNat_toUInt16]
      have hlt := first.toNat_lt
      simp
      omega
    rw [opcodeBytes, Opcode.isTwoByte, hvalue hop, decide_eq_false hsmall, if_neg (by decide)]
    simp

/-! ### Displacements -/

/-- The distance to the offset that a displacement leads to is the displacement. -/
theorem distance_of_resolve {start base target : UInt32} {far : Int}
    (h : resolve start base far = .ok target) : distance base.toNat target.toNat = far := by
  unfold resolve at h
  dsimp only at h
  split_ifs at h with hrange
  cases h
  rw [distance, toNat_offset (by omega)]
  omega

theorem takesAt_codeOffset (n : Nat) :
    TakesAt n codeOffset fun bytes offset =>
      bytes = [] ∧ n < 0x100000000 ∧ offset = UInt32.ofNat n := by
  rintro c c' offset rfl hrun
  change (if c.pos < 0x100000000 then pure (UInt32.ofNat c.pos) else _ : Decoder UInt32) c = _
    at hrun
  split_ifs at hrun with hlt
  · cases hrun
    exact ⟨[], List.nil_prefix, rfl, rfl, hlt, rfl⟩
  · cases hrun

theorem takesAt_resolveHere (n : Nat) (start : UInt32) (far : Int) :
    TakesAt n (resolveHere start far) fun bytes target =>
      bytes = [] ∧ n < 0x100000000 ∧ distance n target.toNat = far := by
  refine (takesAt_codeOffset n).bind ?_
  rintro _ base ⟨rfl, hn, rfl⟩
  cases hresolve : resolve start (UInt32.ofNat n) far with
  | error fault => exact takesAt_throw _ _ _
  | ok target =>
    have hfar := distance_of_resolve hresolve
    rw [toNat_offset hn] at hfar
    exact takesAt_pure ⟨rfl, hn, hfar⟩

theorem toNat_signedByte (byte : UInt8) :
    (byte.toInt8.toInt % 0x100).toNat = byte.toNat ∧
      OperandKind.Reaches .shortBranch byte.toInt8.toInt := by
  have hlt := byte.toNat_lt
  have hint : (UInt8.ofNat byte.toNat).toInt8.toInt = (byte.toNat : Int).bmod 0x100 := by
    rw [UInt8.toInt8_ofNat', Int8.toInt_ofNat', Int8.size]
  rw [UInt8.ofNat_toNat] at hint
  show _ ∧ -0x80 ≤ byte.toInt8.toInt ∧ byte.toInt8.toInt < 0x80
  rw [hint, Int.bmod_def]
  split_ifs <;> omega

theorem toNat_signedWord (word : UInt32) :
    (word.toInt32.toInt % 0x100000000).toNat = word.toNat ∧
      OperandKind.Reaches .branch word.toInt32.toInt := by
  have hlt := word.toNat_lt
  have hint : (UInt32.ofNat word.toNat).toInt32.toInt = (word.toNat : Int).bmod 0x100000000 := by
    rw [UInt32.toInt32_ofNat', Int32.toInt_ofNat', Int32.size]
  rw [UInt32.ofNat_toNat] at hint
  show _ ∧ -0x80000000 ≤ word.toInt32.toInt ∧ word.toInt32.toInt < 0x80000000
  rw [hint, Int.bmod_def]
  split_ifs <;> omega

/-- The four bytes of a displacement. -/
def wordForm (far : Int) : List UInt8 := Bytes.toLE 4 (far % 0x100000000).toNat

theorem length_wordForm (far : Int) : (wordForm far).length = 4 := Bytes.length_toLE 4 _

theorem length_flatMap_wordForm (fars : List Int) :
    (fars.flatMap wordForm).length = 4 * fars.length := by
  induction fars with
  | nil => rfl
  | cons far rest ih =>
    rw [List.flatMap_cons, List.length_append, ih, length_wordForm, List.length_cons]
    omega

theorem takesAt_displacement (n : Nat) :
    TakesAt n displacement fun bytes far =>
      bytes = wordForm far ∧ OperandKind.Reaches .branch far := by
  refine (takesAt_u32 n).mapForm fun word => ?_
  obtain ⟨hword, hreach⟩ := toNat_signedWord word
  rw [wordForm, hword]
  exact ⟨rfl, hreach⟩

theorem emitsAt_shortDisplacement {n : Nat} (hn : n < 0x100000000) (start : UInt32)
    {target : UInt32} {byte : UInt8} (h : distance (n + 1) target.toNat = byte.toInt8.toInt) :
    EmitsAt n (shortDisplacement start target) [byte] := by
  obtain ⟨hbyte, hreach⟩ := toNat_signedByte byte
  refine EmitsAt.atOffset hn ?_
  rw [toNat_offset hn]
  dsimp only
  rw [h]
  split_ifs with hfar
  · have hemit := emitsAt_number n 1 byte.toNat
    rw [hbyte]
    simpa [Bytes.toLE] using hemit
  · exact absurd hreach hfar

theorem emitsAt_longDisplacement (n : Nat) (start : UInt32) {next : Nat} {target : UInt32}
    (h : OperandKind.Reaches .branch (distance next target.toNat)) :
    EmitsAt n (longDisplacement start next target) (wordForm (distance next target.toNat)) := by
  unfold longDisplacement
  dsimp only
  split_ifs with hfar
  · exact emitsAt_number n 4 _
  · exact absurd h hfar

/-! ### Jump tables -/

theorem distance_of_mapM {start base : UInt32} {fars : List Int} {targets : List UInt32}
    (h : fars.mapM (resolve start base) = .ok targets) :
    fars = targets.map fun target => distance base.toNat target.toNat := by
  induction fars generalizing targets with
  | nil =>
    cases h
    rfl
  | cons far rest ih =>
    rw [List.mapM_cons] at h
    cases hfirst : resolve start base far with
    | error fault =>
      rw [hfirst] at h
      cases h
    | ok target =>
      cases hrest : rest.mapM (resolve start base) with
      | error fault =>
        rw [hfirst, hrest] at h
        cases h
      | ok others =>
        rw [hfirst, hrest] at h
        cases h
        rw [List.map_cons, distance_of_resolve hfirst, ← ih hrest]

/-- The displacements of a jump table count from the end of the table. -/
theorem emitsAt_jumpTable {n : Nat} (start : UInt32) {targets : List UInt32}
    (hn : n + 4 + 4 * targets.length < 0x100000000)
    (h : ∀ target ∈ targets, OperandKind.Reaches .branch
      (distance (n + 4 + 4 * targets.length) target.toNat)) :
    EmitsAt n (encodeOperand start .switch (.switch targets))
      (Bytes.toLE 4 targets.length ++ (targets.map fun target =>
        distance (n + 4 + 4 * targets.length) target.toNat).flatMap wordForm) := by
  have hbase : (UInt32.ofNat (n + 4)).toNat = n + 4 := toNat_offset (by omega)
  rw [encodeOperand, if_pos (by omega), List.flatMap_map]
  refine (emitsAt_number n 4 _).bind ?_
  rw [Bytes.length_toLE]
  refine EmitsAt.atOffset (by omega) ?_
  rw [hbase]
  exact emitsAt_each (fun target hmem n => emitsAt_longDisplacement n start (h target hmem)) _

theorem takesAt_jumpTable (n : Nat) (start : UInt32) :
    TakesAt n (jumpTable start) fun bytes targets =>
      bytes.length = 4 + 4 * targets.length ∧
        EmitsAt n (encodeOperand start .switch (.switch targets)) bytes := by
  refine (takesAt_u32 n).bind ?_
  rintro _ count rfl
  refine TakesAt.get fun c => ?_
  split_ifs
  · exact takesAt_throw _ _ _
  refine (takesAt_times takesAt_displacement _ count.toNat).bind ?_
  rintro _ fars ⟨hcount, rfl, hreach⟩
  refine (takesAt_codeOffset _).bind ?_
  rintro _ base ⟨rfl, hn, rfl⟩
  cases hresolve : fars.mapM (resolve start _) with
  | error fault => exact takesAt_throw _ _ _
  | ok targets =>
    rw [Bytes.length_toLE, length_flatMap_wordForm] at hn hresolve
    have hfars := distance_of_mapM hresolve
    have hlength := congrArg List.length hfars
    rw [List.length_map] at hlength
    rw [toNat_offset hn, hlength] at hfars
    rw [hlength] at hn hcount
    have htable := emitsAt_jumpTable start hn fun target hmem =>
      hreach _ (hfars ▸ List.mem_map_of_mem hmem)
    rw [← hfars, hcount] at htable
    refine takesAt_pure ?_
    rw [List.append_nil, List.append_nil]
    refine ⟨?_, htable⟩
    rw [List.length_append, Bytes.length_toLE, length_flatMap_wordForm, hlength]

/-! ### Instructions -/

theorem takesAt_operand (n : Nat) (start : UInt32) (kind : OperandKind) :
    TakesAt n (decodeOperand start kind) (Operand.ReadFrom n start kind) := by
  cases kind with
  | none => exact takesAt_pure ⟨rfl, rfl, emitsAt_pure n⟩
  | shortInt =>
    refine (takesAt_byte n).mapForm fun byte => ?_
    have hemit := emitsAt_byte n byte.toInt8.toUInt8
    rw [UInt8.toUInt8_toInt8] at hemit
    exact ⟨rfl, rfl, hemit⟩
  | byte => exact (takesAt_byte n).mapForm fun byte => ⟨rfl, rfl, emitsAt_byte n byte⟩
  | int =>
    refine (takesAt_u32 n).mapForm fun word => ?_
    have hemit := emitsAt_number n 4 word.toInt32.toUInt32.toNat
    rw [UInt32.toUInt32_toInt32] at hemit
    exact ⟨rfl, Bytes.length_toLE 4 _, hemit⟩
  | long =>
    refine (takesAt_u64 n).mapForm fun word => ?_
    have hemit := emitsAt_number n 8 word.toInt64.toUInt64.toNat
    rw [UInt64.toUInt64_toInt64] at hemit
    exact ⟨rfl, Bytes.length_toLE 8 _, hemit⟩
  | shortFloat =>
    exact (takesAt_u32 n).mapForm fun _ => ⟨rfl, Bytes.length_toLE 4 _, emitsAt_number n 4 _⟩
  | float =>
    exact (takesAt_u64 n).mapForm fun _ => ⟨rfl, Bytes.length_toLE 8 _, emitsAt_number n 8 _⟩
  | shortVar =>
    refine (takesAt_byte n).mapForm fun byte => ?_
    have hfits : byte.toUInt16 ≤ 0xFF := by
      rw [UInt16.le_iff_toNat_le, UInt8.toNat_toUInt16]
      exact Nat.le_of_lt_succ byte.toNat_lt
    refine ⟨decide_eq_true hfits, rfl, ?_⟩
    rw [encodeOperand, if_pos rfl, UInt8.toUInt8_toUInt16]
    exact emitsAt_byte n byte
  | var =>
    exact (takesAt_u16 n).mapForm fun _ => ⟨rfl, Bytes.length_toLE 2 _, emitsAt_number n 2 _⟩
  | token =>
    exact (takesAt_u32 n).mapForm fun _ => ⟨rfl, Bytes.length_toLE 4 _, emitsAt_number n 4 _⟩
  | shortBranch =>
    refine (takesAt_byte n).bind ?_
    rintro _ byte rfl
    refine TakesAt.map ((takesAt_resolveHere _ start _).mono ?_)
    rintro _ target ⟨rfl, hn, hfar⟩
    exact ⟨rfl, rfl, emitsAt_shortDisplacement (Nat.lt_of_succ_lt hn) start hfar⟩
  | branch =>
    refine (takesAt_displacement n).bind ?_
    rintro _ far ⟨rfl, hreach⟩
    refine TakesAt.map ((takesAt_resolveHere _ start _).mono ?_)
    rintro _ target ⟨rfl, hn, hfar⟩
    rw [length_wordForm] at hn hfar
    subst hfar
    have hlt : n < 0x100000000 := Nat.lt_of_le_of_lt (Nat.le_add_right n _) hn
    have hbase : (UInt32.ofNat n).toNat = n := toNat_offset hlt
    rw [List.append_nil]
    refine ⟨rfl, length_wordForm _, EmitsAt.atOffset hlt ?_⟩
    rw [hbase]
    exact emitsAt_longDisplacement n start hreach
  | switch =>
    refine TakesAt.map ((takesAt_jumpTable n start).mono ?_)
    rintro bytes targets ⟨hlen, hemit⟩
    exact ⟨rfl, hlen, hemit⟩

/-- The instruction stands where it was read, its operand fits, and it is written as the bytes that
it was read from. -/
structure ReadFrom (n : Nat) (bytes : List UInt8) (ins : Instruction) : Prop where
  offset : ins.offset.toNat = n
  fits : ins.operand.fits ins.opcode.operand = true
  size : bytes.length = ins.size
  emits : EmitsAt n ins.encode bytes

theorem takesAt_decode (n : Nat) : TakesAt n decode (ReadFrom n) := by
  refine (takesAt_codeOffset n).bind ?_
  rintro _ offset ⟨rfl, hn, rfl⟩
  refine (takesAt_opcodeValue _).bind ?_
  intro head value hhead
  cases hop : Opcode.ofValue? value with
  | none => exact takesAt_throw _ _ _
  | some op =>
    obtain rfl := hhead op hop
    refine TakesAt.map ((takesAt_operand _ _ op.operand).mono ?_)
    intro tail operand htail
    constructor
    · exact toNat_offset hn
    · exact htail.fits
    · rw [size_eq, List.nil_append, List.length_append, length_opcodeBytes, htail.size]
    · rw [encode, if_pos htail.fits]
      exact EmitsAt.atOffset hn ((emitsAt_emit n _).bind htail.emits)

/-- The instructions stand one behind the other from `n` on, their operands fit, and together they
are written as the bytes that they were read from. -/
structure Tiles (n : Nat) (bytes : List UInt8) (code : List Instruction) : Prop where
  offsets : ∀ i (hi : i < code.length), code[i].offset.toNat = n + totalSize (code.take i)
  layout : layOutFrom n code = code
  fits : ∀ ins ∈ code, ins.operand.fits ins.opcode.operand = true
  size : bytes.length = totalSize code
  emits : EmitsAt n (Encoder.each encode code) bytes

theorem Tiles.nil (n : Nat) : Tiles n [] [] where
  offsets i hi := absurd hi (Nat.not_lt_zero i)
  layout := rfl
  fits _ hmem := absurd hmem List.not_mem_nil
  size := rfl
  emits := emitsAt_pure n

theorem Tiles.cons {n : Nat} {head tail : List UInt8} {ins : Instruction}
    {rest : List Instruction} (h : ReadFrom n head ins) (h' : Tiles (n + head.length) tail rest) :
    Tiles n (head ++ tail) (ins :: rest) := by
  constructor
  · intro i hi
    cases i with
    | zero => simpa [totalSize] using h.offset
    | succ i =>
      have hoffset := h'.offsets i (Nat.lt_of_succ_lt_succ hi)
      rw [List.getElem_cons_succ, hoffset, List.take_succ_cons, totalSize_cons, h.size,
        Nat.add_assoc]
  · have hlayout := h'.layout
    rw [h.size] at hlayout
    rw [layOutFrom, hlayout, ← h.offset, UInt32.ofNat_toNat]
  · exact List.forall_mem_cons.2 ⟨h.fits, h'.fits⟩
  · rw [List.length_append, h.size, h'.size, totalSize_cons]
  · exact h.emits.bind h'.emits

theorem takesAt_decodeAll (steps n : Nat) : TakesAt n (decodeAll steps) (Tiles n) := by
  induction steps generalizing n with
  | zero => exact takesAt_pure (Tiles.nil n)
  | succ steps ih =>
    refine TakesAt.get fun c => ?_
    split_ifs
    · refine (takesAt_decode n).bind fun head ins hins => ?_
      refine TakesAt.map ((ih _).mono fun tail rest hrest => ?_)
      exact Tiles.cons hins hrest
    · exact takesAt_pure (Tiles.nil n)

/-- With a step for every byte ahead, nothing is left behind the instructions. -/
theorem atEnd_of_decodeAll {steps : Nat} {c c' : Cursor} {code : List Instruction}
    (hsteps : c.remaining ≤ steps) (h : decodeAll steps c = .ok code c') : c'.hasMore = false := by
  induction steps generalizing c code with
  | zero =>
    cases h
    rw [Cursor.remaining] at hsteps
    rw [Cursor.hasMore, decide_eq_false_iff_not]
    omega
  | succ steps ih =>
    cases hmore : c.hasMore with
    | true =>
      rw [decodeAll_succ hmore] at h
      obtain ⟨ins, mid, hfirst, hrest⟩ := bind_eq_ok.1 h
      obtain ⟨rest, stop, hall, hstop⟩ := bind_eq_ok.1 hrest
      cases hstop
      obtain ⟨bytes, -, rfl, hins⟩ := takesAt_decode c.pos c mid ins rfl hfirst
      -- The instruction takes a byte at least, and one step.
      have hpos := ins.size_pos
      refine ih ?_ hall
      rw [Cursor.remaining] at hsteps ⊢
      rw [Cursor.pos_forward, Cursor.bytes_forward, hins.size]
      omega
    | false =>
      rw [decodeAll_of_end hmore] at h
      cases h
      exact hmore

/-- Code that can be read is tiled by its instructions: each of them stands at the sum of the sizes
before it, the sizes add up to the size of the code, and a layout changes nothing. All operands
fit, and the instructions are written as the bytes of the code. -/
theorem code?_of_stream {bytes : Array UInt8} {code : List Instruction}
    (h : stream bytes = .ok code) :
    (∀ i (hi : i < code.length), code[i].offset.toNat = totalSize (code.take i)) ∧
      totalSize code = bytes.size ∧ layOut code = code ∧
      (∀ ins ∈ code, ins.operand.fits ins.opcode.operand = true) ∧ code? code = .ok bytes := by
  obtain ⟨c, hrun⟩ := value?_eq_ok.1 h
  obtain ⟨taken, hahead, rfl, htiles⟩ := takesAt_decodeAll bytes.size 0 _ c code rfl hrun
  have hend := @atEnd_of_decodeAll bytes.size { bytes } _ code (Nat.sub_le _ _) hrun
  have hrest : taken <+: bytes.toList := hahead
  obtain rfl : taken = bytes.toList := by
    refine hrest.eq_of_length_le ?_
    rw [Cursor.hasMore, decide_eq_false_iff_not] at hend
    simpa using hend
  refine ⟨fun i hi => ?_, ?_, htiles.layout, htiles.fits, htiles.emits.bytes?⟩
  · rw [htiles.offsets i hi, Nat.zero_add]
  · rw [← htiles.size, Array.length_toList]

/-- A jump table, a branch back to it and a comparison. -/
def backAndForth : List Instruction := [
  { opcode := ⟨0x45, "switch", .switch, .switch, .fixed 1, .fixed 0⟩, operand := .switch [0] },
  { opcode := ⟨0x2B, "br.s", .shortBranch, .branch, .fixed 0, .fixed 0⟩, operand := .target 0
    offset := 9 },
  { opcode := ⟨0xFE01, "ceq", .none, .next, .fixed 2, .fixed 1⟩, operand := .none, offset := 11 }]

theorem code?_of_stream_backAndForth :
    totalSize backAndForth = 13 ∧ layOut backAndForth = backAndForth ∧
      code? backAndForth =
        .ok #[0x45, 1, 0, 0, 0, 0xF7, 0xFF, 0xFF, 0xFF, 0x2B, 0xF5, 0xFE, 0x01] := by
  have hstream : stream #[0x45, 1, 0, 0, 0, 0xF7, 0xFF, 0xFF, 0xFF, 0x2B, 0xF5, 0xFE, 0x01] =
      .ok backAndForth := rfl
  obtain ⟨-, hsize, hlayout, -, hcode⟩ := code?_of_stream hstream
  exact ⟨hsize, hlayout, hcode⟩

end Instruction

end CilMetadata

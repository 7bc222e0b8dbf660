import CilMetadata.Body.Build
import CilMetadata.Proofs.Body.ReadBack
import CilMetadata.Proofs.Instruction.Layout
import CilMetadata.Proofs.Instruction.ReadBack

/-!
# Building, writing, reading

The steps of building a body change its instructions and its stack depth only: the instructions are
laid out, the depth may be computed (`build_eq_ok`). The header is chosen by the offsets of the
laid-out code, which agree with the number of bytes written (`codeSize_laidOut`), so that a tiny
header is never chosen for a body it has no room for (`decode_stored`).
-/

namespace CilMetadata.MethodBody

open Instruction (totalSize bare)

/-! ### Building -/

/-- A body with its code laid out and with some stack depth. -/
def laidOut (body : MethodBody) (depth : UInt16) : MethodBody :=
  { body with instructions := Instruction.layOut body.instructions, maxStack := depth }

theorem laidOut_laidOut (body : MethodBody) (first second : UInt16) :
    (body.laidOut first).laidOut second = body.laidOut second := by
  simp [laidOut, Instruction.layOut_layOut]

theorem layOut_eq (body : MethodBody) :
    layOut body = .ok (totalSize body.instructions) (body.laidOut body.maxStack) := rfl

theorem checkLabels_eq_ok {body body' : MethodBody} (h : checkLabels body = .ok () body') :
    body' = body.laidOut body.maxStack := by
  obtain ⟨size, mid, hlayOut, hrest⟩ := bind_eq_ok.1 h
  rw [layOut_eq] at hlayOut
  cases hlayOut
  obtain ⟨_, _, hget, hmatch⟩ := bind_eq_ok.1 hrest
  cases hget
  cases hlabels : (body.laidOut body.maxStack).badLabels (totalSize body.instructions) with
  | nil =>
    rw [hlabels] at hmatch
    cases hmatch
    rfl
  | cons label labels =>
    rw [hlabels] at hmatch
    cases hmatch

theorem computeDepth_eq_ok {body body' : MethodBody} {depth : UInt16}
    (h : computeDepth body = .ok depth body') : body' = body.laidOut body.maxStack := by
  obtain ⟨size, mid, hlayOut, hrest⟩ := bind_eq_ok.1 h
  rw [layOut_eq] at hlayOut
  cases hlayOut
  obtain ⟨_, _, hget, hmatch⟩ := bind_eq_ok.1 hrest
  cases hget
  cases hdepth : StackDepth.maxStack (body.laidOut body.maxStack).instructions.toArray
      (body.laidOut body.maxStack).clauses with
  | error fault =>
    rw [hdepth] at hmatch
    cases hmatch
  | ok largest =>
    rw [hdepth] at hmatch
    by_cases hwidth : largest ≤ 0xFFFF
    · simp only [if_pos hwidth] at hmatch
      cases hmatch
      rfl
    · simp only [if_neg hwidth] at hmatch
      cases hmatch

theorem takeRaw_eq_ok {body body' : MethodBody} {raw : RawBody}
    (h : (do match (← get).toRaw with
          | .ok raw => return raw
          | .error fault => throw fault : BodyStep RawBody) body = .ok raw body') :
    body' = body ∧ body.toRaw = .ok raw := by
  obtain ⟨_, _, hget, hmatch⟩ := bind_eq_ok.1 h
  cases hget
  cases hraw : body.toRaw with
  | error fault =>
    rw [hraw] at hmatch
    cases hmatch
  | ok stored =>
    rw [hraw] at hmatch
    cases hmatch
    exact ⟨rfl, rfl⟩

/-- What is left to be done when the labels have been checked. -/
theorem finish_eq_ok {body body' : MethodBody} {raw : RawBody}
    (h : (do
      if (← get).computesDepth then
        let depth ← computeDepth
        modify fun body => { body with maxStack := depth }
      match (← get).toRaw with
      | .ok raw => return raw
      | .error fault => throw fault : BodyStep RawBody) (body.laidOut body.maxStack) =
        .ok raw body') :
    ∃ depth, body' = body.laidOut depth ∧ body'.toRaw = .ok raw := by
  obtain ⟨_, _, hget, hrest⟩ := bind_eq_ok.1 h
  cases hget
  by_cases hcomputes : (body.laidOut body.maxStack).computesDepth = true
  · rw [if_pos hcomputes] at hrest
    obtain ⟨depth, mid, hdepth, hrest⟩ := bind_eq_ok.1 hrest
    obtain ⟨_, _, hmodify, hlast⟩ := bind_eq_ok.1 hrest
    rw [computeDepth_eq_ok hdepth, laidOut_laidOut] at hmodify
    cases hmodify
    obtain ⟨rfl, hraw⟩ := takeRaw_eq_ok hlast
    exact ⟨depth, rfl, hraw⟩
  · rw [if_neg hcomputes] at hrest
    obtain ⟨rfl, hraw⟩ := takeRaw_eq_ok hrest
    exact ⟨body.maxStack, rfl, hraw⟩

/-- Building lays the code out and keeps a depth, and the result is the stored form of that. -/
theorem build_eq_ok {body body' : MethodBody} {raw : RawBody} (h : build body = .ok raw body') :
    ∃ depth, body' = body.laidOut depth ∧ body'.toRaw = .ok raw := by
  obtain ⟨_, first, hlayOut, hrest⟩ := bind_eq_ok.1 h
  rw [layOut_eq] at hlayOut
  cases hlayOut
  obtain ⟨_, _, hget, hrest⟩ := bind_eq_ok.1 hrest
  cases hget
  by_cases hchecks : (body.laidOut body.maxStack).checksLabels = true
  · rw [if_pos hchecks] at hrest
    obtain ⟨_, mid, hlabels, hrest⟩ := bind_eq_ok.1 hrest
    rw [checkLabels_eq_ok hlabels, laidOut_laidOut] at hrest
    exact finish_eq_ok hrest
  · rw [if_neg hchecks] at hrest
    exact finish_eq_ok hrest

/-! ### The header -/

/-- Of code that is not too large, the offsets agree with the number of bytes. -/
theorem codeSize_laidOut {body : MethodBody} (h : totalSize body.instructions < 0x100000000)
    (depth : UInt16) : (body.laidOut depth).codeSize = totalSize body.instructions := by
  unfold codeSize laidOut Instruction.layOut
  by_cases hnone : body.instructions = []
  · simp [hnone, Instruction.layOutFrom, totalSize]
  · have hlast := Instruction.nextOffset_getLast?_layOutFrom (n := 0) hnone
    obtain ⟨last, hget, hnext⟩ := Option.map_eq_some_iff.1 hlast
    rw [hget]
    simp only [hnext, Nat.zero_add]
    exact UInt32.toNat_ofNat_of_lt' h

theorem isFat_eq_false_iff (body : MethodBody) :
    body.isFat = false ↔ body.clauses = [] ∧ body.locals = [] ∧
      body.maxStack ≤ RawBody.tinyMaxStack ∧ body.codeSize ≤ RawBody.tinyCodeLimit := by
  simp [isFat, and_assoc]

/-- The stored form of a body whose code is given. -/
def stored (body : MethodBody) (code : Array UInt8) : RawBody where
  isFat := body.isFat
  maxStack := body.maxStack
  initLocals := body.initLocals && body.isFat
  localsToken := if body.isFat then body.localsToken else .null
  code := code
  clauses := body.clauses

theorem toRaw_eq_ok {body : MethodBody} {raw : RawBody} (h : body.toRaw = .ok raw) :
    ∃ code, Instruction.code? body.instructions = .ok code ∧ raw = body.stored code := by
  unfold toRaw at h
  cases hcode : Instruction.code? body.instructions with
  | error fault =>
    rw [hcode] at h
    cases h
  | ok code =>
    rw [hcode] at h
    cases h
    exact ⟨code, rfl, rfl⟩

/-! ### The whole way -/

/-- The stored form of a body has bytes, and these are read back; of a tiny header only the stack
depth is lost. -/
theorem decode_stored {body : MethodBody} {code : Array UInt8} (hsize : code.size < 0x100000000)
    (hagree : body.codeSize = code.size) (hclauses : body.clauses.length ≤ RawBody.clauseLimit) :
    ∃ bytes, (body.stored code).encode = .ok bytes ∧ ∀ suffix, RawBody.decode (bytes ++ suffix) =
      .ok { body.stored code with
        maxStack := if body.isFat then body.maxStack else RawBody.tinyMaxStack } := by
  by_cases hfat : body.isFat = true
  · have hrawFat : (body.stored code).isFat = true := hfat
    obtain ⟨bytes, hnonempty, hemit, hread⟩ := RawBody.fat_readBack hrawFat hsize hclauses
    refine ⟨bytes.toArray, ?_, fun suffix => ?_⟩
    · rw [RawBody.encode, if_pos hrawFat, hemit.bytes?]
    · rw [RawBody.decode_of_readsAt hnonempty hread, if_pos hfat]
      rfl
  · have htiny : body.isFat = false := by simpa using hfat
    have hrawTiny : (body.stored code).isFat = false := htiny
    obtain ⟨hnoClauses, -, -, hshort⟩ := (isFat_eq_false_iff body).1 htiny
    have hroom : (body.stored code).fitsTiny = true := by
      rw [hagree] at hshort
      simp [RawBody.fitsTiny, stored, hshort, hnoClauses, htiny, Token.isNull, Token.null,
        Token.row]
    obtain ⟨bytes, hnonempty, hemit, hread⟩ := RawBody.tiny_readBack hrawTiny hroom
    refine ⟨bytes.toArray, ?_, fun suffix => ?_⟩
    · rw [RawBody.encode, hrawTiny, if_neg (by decide), hemit.bytes?]
    · rw [RawBody.decode_of_readsAt hnonempty hread, if_neg hfat]
      simp [stored, htiny]

/-- **A body that has been built can be written and is read back.** Its code is laid out, the calls
lose their effects, and the header decides about the rest; it is tiny exactly where nothing but
code has to be stored. -/
theorem read_of_build {body body' : MethodBody} {raw : RawBody}
    (hop : ∀ ins ∈ body.instructions, ins.opcode ∈ Opcode.table)
    (hsize : totalSize body.instructions < 0x100000000)
    (hclauses : body.clauses.length ≤ 699050)
    (hbuild : build body = .ok raw body') :
    body' = body.laidOut body'.maxStack ∧
    (raw.isFat = false ↔ body.clauses = [] ∧ body.locals = [] ∧ body'.maxStack ≤ 8 ∧
      raw.code.size < 64) ∧
    ∃ bytes, raw.encode = .ok bytes ∧
      ∀ (settings : Settings) (suffix : Array UInt8),
        read settings (bytes ++ suffix) = .ok {
          instructions := body'.instructions.map bare
          clauses := body.clauses
          maxStack := if raw.isFat then body'.maxStack else 8
          initLocals := body.initLocals && raw.isFat
          localsToken := if raw.isFat then body.localsToken else .null
          computesDepth := false
          checksLabels := settings.checksLabels } := by
  obtain ⟨depth, rfl, hraw⟩ := build_eq_ok hbuild
  obtain ⟨code, hcode, rfl⟩ := toRaw_eq_ok hraw
  have hsame : Instruction.code? body.instructions = .ok code := by
    rw [← Instruction.code?_layOut]
    exact hcode
  obtain ⟨hlength, hstream⟩ := Instruction.stream_of_code? hop hsize hsame
  have hagree : (body.laidOut depth).codeSize = code.size := by
    rw [codeSize_laidOut hsize, hlength]
  refine ⟨rfl, ?_, ?_⟩
  · have htiny := isFat_eq_false_iff (body.laidOut depth)
    rw [hagree] at htiny
    exact htiny.trans
      (and_congr_right' (and_congr_right' (and_congr_right' Nat.lt_succ_iff.symm)))
  · obtain ⟨bytes, hbytes, hdecode⟩ := decode_stored (by omega) hagree hclauses
    refine ⟨bytes, hbytes, fun settings suffix => ?_⟩
    rw [read, hdecode suffix]
    change ofRaw settings _ = _
    rw [ofRaw, stored, hstream]
    rfl

/-- A call in a protected range, and a handler that drops the exception. -/
def guardedCall : MethodBody where
  instructions := [
    { opcode := ⟨0x28, "call", .token, .call, .bySignature, .bySignature⟩
      operand := .token ⟨0x06000001⟩, callEffect := some ⟨0, 0⟩ },
    { opcode := ⟨0xDE, "leave.s", .shortBranch, .leave, .fixed 0, .fixed 0⟩
      operand := .target 10 },
    { opcode := ⟨0x26, "pop", .none, .next, .fixed 1, .fixed 0⟩
      operand := .none },
    { opcode := ⟨0xDE, "leave.s", .shortBranch, .leave, .fixed 0, .fixed 0⟩
      operand := .target 10 },
    { opcode := ⟨0x2A, "ret", .none, .ret, .fixed 0, .fixed 0⟩
      operand := .none }]
  clauses := [Clause.catching 0 7 7 3 ⟨0x01000002⟩]
  maxStack := 1
  initLocals := true
  computesDepth := false

theorem read_of_build_guardedCall :
    ∃ bytes, ((guardedCall.laidOut 1).stored
        #[0x28, 0x01, 0x00, 0x00, 0x06, 0xDE, 0x03, 0x26, 0xDE, 0x00, 0x2A]).encode = .ok bytes ∧
      ∀ (settings : Settings) (suffix : Array UInt8),
        read settings (bytes ++ suffix) = .ok {
          instructions := (guardedCall.laidOut 1).instructions.map bare
          clauses := guardedCall.clauses
          maxStack := 1
          initLocals := true
          computesDepth := false
          checksLabels := settings.checksLabels } := by
  have hop : ∀ ins ∈ guardedCall.instructions, ins.opcode ∈ Opcode.table := by decide +kernel
  have hbuild : build guardedCall = .ok ((guardedCall.laidOut 1).stored
      #[0x28, 0x01, 0x00, 0x00, 0x06, 0xDE, 0x03, 0x26, 0xDE, 0x00, 0x2A])
      (guardedCall.laidOut 1) := rfl
  exact (read_of_build hop (by decide) (by decide) hbuild).2.2

end CilMetadata.MethodBody

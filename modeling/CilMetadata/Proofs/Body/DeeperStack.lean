import CilMetadata.Proofs.Body.Pipeline
import CilMetadata.Proofs.Body.StackDepth
import CilMetadata.Proofs.Bytes.Following

/-!
# Stacks that are not less deep

When instructions leave more on the stack than before, the depth of the stack does not become less:
what was reached is still reached, and with at least the depth that it was reached with.

* `LeavesMore` relates code to code that leaves more, and `maxStack_le` compares the two depths;
* `explore_enter` is one visit of the walk, for code that is given;
* `MethodBody.depth?` is the depth that is computed for a body.
-/

namespace CilMetadata

namespace StackDepth

/-- Code that differs in effects only, and leaves at least as much. -/
structure LeavesMore (code code' : Array Instruction) : Prop where
  size : code'.size = code.size
  ins : ∀ {index : Nat} {ins : Instruction}, code[index]? = some ins → ∃ ins' : Instruction,
    code'[index]? = some ins' ∧ ins'.opcode = ins.opcode ∧ ins'.operand = ins.operand ∧
      ins'.offset = ins.offset ∧ (effect ins').pops = (effect ins).pops ∧
      (effect ins).pushes ≤ (effect ins').pushes

variable {code code' : Array Instruction} {clauses : List Clause}

theorem LeavesMore.offset (h : LeavesMore code code') {index : Nat} (hlt : index < code.size)
    (hlt' : index < code'.size) : code'[index].offset = code[index].offset := by
  obtain ⟨ins', hins', -, -, hoffset, -⟩ := h.ins (Array.getElem?_eq_getElem hlt)
  rw [Array.getElem?_eq_getElem hlt', Option.some.injEq] at hins'
  rw [hins', hoffset]

theorem LeavesMore.startsAt (h : LeavesMore code code') {offset : UInt32} {index : Nat}
    (hstart : StartsAt code offset index) : StartsAt code' offset index := by
  obtain ⟨hlt, hoffset, hfirst⟩ := hstart
  have hlt' : index < code'.size := h.size ▸ hlt
  refine ⟨hlt', (h.offset hlt hlt').trans hoffset, fun earlier hearlier heq => ?_⟩
  rw [h.offset (hearlier.trans hlt)] at heq
  exact hfirst earlier hearlier heq

/-- An edge leads to the same place in both, and from a deeper stack to a deeper stack. -/
theorem LeavesMore.edge (h : LeavesMore code code') {index after after' : Nat}
    {ins ins' : Instruction} {visit : Visit} (hopcode : ins'.opcode = ins.opcode)
    (hoperand : ins'.operand = ins.operand) (hafter : after ≤ after')
    (hedge : Edge code index ins after visit) :
    ∃ depth, visit.2 ≤ depth ∧ Edge code' index ins' after' (visit.1, depth) := by
  cases hedge with
  | jump hflow htarget hstart =>
    refine ⟨landing ins'.opcode.flow after', ?_, .jump (hopcode ▸ hflow) ?_ (h.startsAt hstart)⟩
    · rw [hopcode]
      unfold landing
      split_ifs
      · exact le_rfl
      · exact hafter
    · rw [Instruction.targets, hoperand]
      exact htarget
  | next hflow hinside =>
    exact ⟨after', hafter, .next (hopcode ▸ hflow) (h.size ▸ hinside)⟩

/-- What is reached is reached where calls leave more too, with a stack that is not less deep. -/
theorem LeavesMore.reaches (h : LeavesMore code code') {visit : Visit}
    (hreaches : Reaches code clauses visit) :
    ∃ depth, visit.2 ≤ depth ∧ Reaches code' clauses (visit.1, depth) := by
  induction hreaches with
  | entry hentry =>
    refine ⟨_, le_rfl, .entry ?_⟩
    cases hentry with
    | first => exact .first
    | handler hmem hstart => exact .handler hmem (h.startsAt hstart)
    | filter hmem hfilter hstart => exact .filter hmem hfilter (h.startsAt hstart)
  | @step index depth ins visit _ hins henough hedge ih =>
    obtain ⟨depth', hdepth, hreaches'⟩ := ih
    obtain ⟨ins', hins', hopcode, hoperand, -, hpops, hpushes⟩ := h.ins hins
    have hafter : depthAfter ins depth ≤ depthAfter ins' depth' := by
      unfold depthAfter
      dsimp only at hdepth
      omega
    obtain ⟨deeper, hle, hedge'⟩ := h.edge hopcode hoperand hafter hedge
    refine ⟨deeper, hle, .step hreaches' hins' ?_ hedge'⟩
    dsimp only at hdepth
    omega

/-- Where calls leave more, the stack is not less deep. -/
theorem maxStack_le (h : LeavesMore code code') {depth depth' : Nat}
    (hdepth : maxStack code clauses = .ok depth) (hdepth' : maxStack code' clauses = .ok depth') :
    depth ≤ depth' := by
  rcases Nat.eq_zero_or_pos code.size with hempty | hcode
  · have hnone : code.isEmpty = true := by simpa [Array.isEmpty] using hempty
    rw [maxStack, hnone, if_pos rfl] at hdepth
    cases hdepth
    exact Nat.zero_le depth'
  · have hcode' : 0 < code'.size := h.size ▸ hcode
    obtain ⟨-, -, ⟨index, before, ins, hreaches, hins, hwhere⟩, -⟩ :=
      (maxStack_spec hcode).1 depth hdepth
    obtain ⟨-, -, -, hupper⟩ := (maxStack_spec hcode').1 depth' hdepth'
    obtain ⟨before', hbefore, hreaches'⟩ := h.reaches hreaches
    obtain ⟨ins', hins', -, -, -, hpops, hpushes⟩ := h.ins hins
    dsimp only at hbefore
    rcases hwhere with rfl | rfl
    · exact hbefore.trans (hupper ⟨index, before', ins', hreaches', hins', .inl rfl⟩)
    · refine le_trans ?_ (hupper ⟨index, before', ins', hreaches', hins', .inr rfl⟩)
      unfold depthAfter
      omega

/-- A visit of an instruction that has not been reached. -/
theorem explore_enter {code : Array Instruction} {depths : Array (Option Nat)} {index depth : Nat}
    {rest next : List Visit} {highest : Nat} {ins : Instruction} (h : index < depths.size)
    (hunset : depths[index] = none) (hins : code[index]? = some ins)
    (henough : (effect ins).pops ≤ depth)
    (hnext : successors code index ins (depthAfter ins depth) = .ok next) :
    explore code depths ((index, depth) :: rest) highest =
      explore code (depths.set index (some depth) h) (next.reverse ++ rest)
        (max highest (max depth (depthAfter ins depth))) := by
  rw [explore, dif_pos h]
  split
  · next heq =>
    rw [hins] at heq
    cases heq
  · next _ heq _ =>
    rw [hunset] at heq
    cases heq
  · next ins' _ heq =>
    rw [hins] at heq
    cases heq
    dsimp only
    rw [if_neg (Nat.not_lt.2 henough)]
    unfold depthAfter at hnext
    rw [hnext]
    rfl

end StackDepth

namespace MethodBody

/-- The depth of the stack that is computed for a body. -/
def depth? (body : MethodBody) : Except Fault UInt16 :=
  match computeDepth body with
  | .ok depth _ => .ok depth
  | .error fault _ => .error fault

/-- The depth is computed of the code as it is laid out, and it has to fit. -/
theorem depth?_eq (body : MethodBody) :
    body.depth? =
      (StackDepth.maxStack (Instruction.layOut body.instructions).toArray body.clauses >>=
        fun depth =>
          if depth ≤ 0xFFFF then .ok (UInt16.ofNat depth)
          else .error (.malformed (.maxStackWidth depth))) := by
  have hget : (get : BodyStep MethodBody) (body.laidOut body.maxStack) =
      .ok (body.laidOut body.maxStack) (body.laidOut body.maxStack) := rfl
  rw [depth?, computeDepth, bind_of_ok (layOut_eq body), bind_of_ok hget]
  dsimp only [laidOut]
  cases StackDepth.maxStack (Instruction.layOut body.instructions).toArray body.clauses with
  | error fault => rfl
  | ok depth =>
    change _ = if depth ≤ 0xFFFF then _ else _
    by_cases hfits : depth ≤ 0xFFFF
    · simp only [if_pos hfits]
      rfl
    · simp only [if_neg hfits]
      rfl

theorem maxStack_of_depth? {body : MethodBody} {depth : UInt16} (h : body.depth? = .ok depth) :
    StackDepth.maxStack (Instruction.layOut body.instructions).toArray body.clauses =
      .ok depth.toNat := by
  rw [depth?_eq] at h
  obtain ⟨highest, hmax, hdepth⟩ := Fault.bind_eq_ok.1 h
  rw [hmax]
  split_ifs at hdepth with hfits
  · cases hdepth
    rw [UInt16.toNat_ofNat', Nat.mod_eq_of_lt (by omega)]

end MethodBody

end CilMetadata

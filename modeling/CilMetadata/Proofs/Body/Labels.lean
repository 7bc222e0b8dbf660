import CilMetadata.Proofs.Body.Pipeline
import CilMetadata.Proofs.Body.StackDepth
import CilMetadata.Proofs.Bytes.Following
import CilMetadata.Proofs.Graph.Bisection

/-!
# Labels are checked exactly

The check of labels reports the labels that violate its rules, each of them once and in the order of
their places, and nothing else.

* `Lists before found items` says so of any list of findings; it goes through concatenations
  (`lists_flatMap`), so that the list follows the loops over instructions, operands, clauses and
  boundaries;
* `Violation` says what is wrong with the label at a place, `LabelsInside` what it is that no label
  is wrong;
* `badLabels_lists`: the labels that the check reports are a list of the violations;
* `searchAt?_eq`: in code whose offsets increase, an offset may be looked up by halving;
* `computeDepth_ofDepth`: where the labels are right, the stack depth fails for depths only.

`checkLabels_exact` puts them together for laid-out code.
-/

namespace CilMetadata

/-! ### Lists of findings -/

section Lists

variable {π ι β : Type} {before : π → π → Prop}

/-- The items are what is found, each at its own place, in the order of the places. -/
def Lists (before : π → π → Prop) (found : π → ι → Prop) (items : List ι) : Prop :=
  ∃ entries : List (π × ι), entries.map Prod.snd = items ∧
    entries.Pairwise (fun entry entry' => before entry.1 entry'.1) ∧
    ∀ place item, (place, item) ∈ entries ↔ found place item

theorem Lists.congr {found found' : π → ι → Prop} {items : List ι} (h : Lists before found items)
    (hiff : ∀ place item, found place item ↔ found' place item) : Lists before found' items := by
  obtain ⟨entries, hitems, hordered, hfound⟩ := h
  exact ⟨entries, hitems, hordered, fun place item => (hfound place item).trans (hiff place item)⟩

/-- Nothing is listed exactly where nothing is found. -/
theorem Lists.eq_nil_iff {found : π → ι → Prop} {items : List ι} (h : Lists before found items) :
    items = [] ↔ ∀ place item, ¬ found place item := by
  obtain ⟨entries, rfl, -, hfound⟩ := h
  rw [List.map_eq_nil_iff, List.eq_nil_iff_forall_not_mem, Prod.forall]
  exact forall₂_congr fun place item => not_congr (hfound place item)

theorem lists_nil : Lists before (fun (_ : π) (_ : ι) => False) [] :=
  ⟨[], rfl, .nil, by simp⟩

/-- What may be found at a single place. -/
theorem lists_toList (place : π) (item? : Option ι) :
    Lists before (fun p item => p = place ∧ item? = some item) item?.toList := by
  refine ⟨item?.toList.map (place, ·), by simp, ?_, ?_⟩
  · cases item? <;> simp
  · cases item? <;> simp [eq_comm]

theorem Lists.append {found found' : π → ι → Prop} {items items' : List ι}
    (h : Lists before found items) (h' : Lists before found' items')
    (ordered : ∀ p q item item', found p item → found' q item' → before p q) :
    Lists before (fun place item => found place item ∨ found' place item) (items ++ items') := by
  obtain ⟨entries, rfl, hpairs, hfound⟩ := h
  obtain ⟨entries', rfl, hpairs', hfound'⟩ := h'
  refine ⟨entries ++ entries', List.map_append, List.pairwise_append.2 ⟨hpairs, hpairs', ?_⟩,
    fun place item => by rw [List.mem_append, hfound, hfound']⟩
  rintro ⟨p, item⟩ hp ⟨q, item'⟩ hq
  exact ordered p q item item' ((hfound p item).1 hp) ((hfound' q item').1 hq)

/-- What is found in one part after the other. -/
theorem lists_flatMap {found : β → π → ι → Prop} {f : β → List ι} {parts : List β}
    (each : ∀ part ∈ parts, Lists before (found part) (f part))
    (ordered : parts.Pairwise fun part part' =>
      ∀ p q item item', found part p item → found part' q item' → before p q) :
    Lists before (fun place item => ∃ part ∈ parts, found part place item) (parts.flatMap f) := by
  induction parts with
  | nil => exact lists_nil.congr (by simp)
  | cons part rest ih =>
    obtain ⟨hpart, hrest⟩ := List.pairwise_cons.1 ordered
    have hlists := ih (fun other hother => each other (List.mem_cons_of_mem _ hother)) hrest
    rw [List.flatMap_cons]
    refine ((each part List.mem_cons_self).append hlists ?_).congr (by simp)
    rintro p q item item' hfound ⟨other, hother, hfound'⟩
    exact hpart other hother p q item item' hfound hfound'

/-- What is found at one place after the other. -/
theorem lists_filterMap (place : β → π) {g : β → Option ι} {parts : List β}
    (ordered : parts.Pairwise fun part part' => before (place part) (place part')) :
    Lists before (fun p item => ∃ part ∈ parts, p = place part ∧ g part = some item)
      (parts.filterMap g) := by
  rw [List.filterMap_eq_flatMap_toList]
  refine lists_flatMap (fun part _ => lists_toList (place part) (g part)) (ordered.imp ?_)
  rintro part part' hbefore p q item item' ⟨rfl, -⟩ ⟨rfl, -⟩
  exact hbefore

/-- The places of a list are in order. -/
theorem pairwise_zipIdx (xs : List β) (start : Nat) :
    (xs.zipIdx start).Pairwise fun entry entry' => entry.2 < entry'.2 := by
  have hplaces : ((xs.zipIdx start).map Prod.snd).Pairwise (· < ·) := by
    rw [List.zipIdx_map_snd]
    exact List.pairwise_lt_range'
  exact List.pairwise_map.1 hplaces

end Lists

/-! ### The rules -/

/-- A place of a label. -/
inductive LabelPlace
  /-- A target of an instruction, by the place of the instruction and that of the target. -/
  | operand (index target : Nat)
  /-- A boundary of a clause, by the place of the clause. -/
  | boundary (index : Nat) (boundary : Boundary)

/-- The place of a boundary among those of its clause. -/
def Boundary.rank : Boundary → Nat
  | .tryStart => 0
  | .tryEnd => 1
  | .handlerStart => 2
  | .handlerEnd => 3
  | .filter => 4

/-- Whether a boundary may be the end of the code. -/
def Boundary.mayEnd : Boundary → Bool
  | .tryEnd | .handlerEnd => true
  | .tryStart | .handlerStart | .filter => false

/-- The offset of a boundary; only a filter clause has a filter. -/
def Clause.offset? (clause : Clause) : Boundary → Option UInt32
  | .tryStart => some clause.tryOffset
  | .tryEnd => some clause.tryEnd
  | .handlerStart => some clause.handlerOffset
  | .handlerEnd => some clause.handlerEnd
  | .filter => clause.filterStart?

namespace LabelPlace

/-- The order of the places: the instructions with their targets, then the clauses with their
boundaries. -/
inductive Before : LabelPlace → LabelPlace → Prop
  | instruction {i i' j j' : Nat} (h : i < i') : Before (.operand i j) (.operand i' j')
  | target {i j j' : Nat} (h : j < j') : Before (.operand i j) (.operand i j')
  | clauses {i j k : Nat} {b : Boundary} : Before (.operand i j) (.boundary k b)
  | clause {k k' : Nat} {b b' : Boundary} (h : k < k') : Before (.boundary k b) (.boundary k' b')
  | boundary {k : Nat} {b b' : Boundary} (h : b.rank < b'.rank) :
    Before (.boundary k b) (.boundary k b')

end LabelPlace

/-- An instruction starts at the offset. -/
def IsStart (code : List Instruction) (offset : UInt32) : Prop :=
  ∃ ins ∈ code, ins.offset = offset

/-- The labels that are wrong in code of the given size, with their places. -/
inductive Violation (code : List Instruction) (clauses : List Clause) (size : Nat) :
    LabelPlace → BadLabel → Prop
  | operand {i j : Nat} {ins : Instruction} {target : UInt32} (hins : code[i]? = some ins)
      (htarget : ins.targets[j]? = some target) (outside : ¬ IsStart code target) :
    Violation code clauses size (.operand i j) (.branch ins.offset target)
  | boundary {k : Nat} {b : Boundary} {clause : Clause} {offset : UInt32}
      (hclause : clauses[k]? = some clause) (hoffset : clause.offset? b = some offset)
      (outside : ¬ IsStart code offset) (hend : b.mayEnd = true → offset.toNat ≠ size) :
    Violation code clauses size (.boundary k b) (.clause k b offset)

/-- No label is wrong: targets and starts are offsets of instructions, and ends are offsets of
instructions or the size of the code. -/
structure LabelsInside (code : List Instruction) (clauses : List Clause) (size : Nat) : Prop where
  targets : ∀ ins ∈ code, ∀ target ∈ ins.targets, IsStart code target
  tryStart : ∀ clause ∈ clauses, IsStart code clause.tryOffset
  tryEnd : ∀ clause ∈ clauses, IsStart code clause.tryEnd ∨ clause.tryEnd.toNat = size
  handlerStart : ∀ clause ∈ clauses, IsStart code clause.handlerOffset
  handlerEnd : ∀ clause ∈ clauses, IsStart code clause.handlerEnd ∨ clause.handlerEnd.toNat = size
  filter : ∀ clause ∈ clauses, ∀ start, clause.filterStart? = some start → IsStart code start

theorem labelsInside_iff {code : List Instruction} {clauses : List Clause} {size : Nat} :
    LabelsInside code clauses size ↔ ∀ place label, ¬ Violation code clauses size place label := by
  constructor
  · rintro inside place label (⟨hins, htarget, outside⟩ | @⟨k, b, clause, offset, hclause, hoffset,
      outside, hend⟩)
    · exact outside (inside.targets _ (List.mem_of_getElem? hins) _ (List.mem_of_getElem? htarget))
    · have hmem := List.mem_of_getElem? hclause
      cases b with
      | filter => exact outside (inside.filter clause hmem offset hoffset)
      | tryStart =>
        cases hoffset
        exact outside (inside.tryStart clause hmem)
      | handlerStart =>
        cases hoffset
        exact outside (inside.handlerStart clause hmem)
      | tryEnd =>
        cases hoffset
        exact (inside.tryEnd clause hmem).elim outside (hend rfl)
      | handlerEnd =>
        cases hoffset
        exact (inside.handlerEnd clause hmem).elim outside (hend rfl)
  · intro none
    have hclause (clause : Clause) (hmem : clause ∈ clauses) (b : Boundary) (offset : UInt32)
        (hoffset : clause.offset? b = some offset) :
        IsStart code offset ∨ b.mayEnd = true ∧ offset.toNat = size := by
      obtain ⟨k, hk⟩ := List.mem_iff_getElem?.1 hmem
      by_contra! hout
      exact none _ _ (.boundary hk hoffset hout.1 hout.2)
    constructor
    · intro ins hins target htarget
      obtain ⟨i, hi⟩ := List.mem_iff_getElem?.1 hins
      obtain ⟨j, hj⟩ := List.mem_iff_getElem?.1 htarget
      by_contra outside
      exact none _ _ (.operand hi hj outside)
    · intro clause hmem
      simpa [Boundary.mayEnd] using hclause clause hmem .tryStart _ rfl
    · intro clause hmem
      simpa [Boundary.mayEnd] using hclause clause hmem .tryEnd _ rfl
    · intro clause hmem
      simpa [Boundary.mayEnd] using hclause clause hmem .handlerStart _ rfl
    · intro clause hmem
      simpa [Boundary.mayEnd] using hclause clause hmem .handlerEnd _ rfl
    · intro clause hmem start hstart
      simpa [Boundary.mayEnd] using hclause clause hmem .filter start hstart

/-! ### What is reported -/

namespace MethodBody

theorem startsAt_eq_true_iff {code : List Instruction} {offset : UInt32} :
    startsAt code offset = true ↔ IsStart code offset := by
  simp [startsAt, IsStart]

theorem startsAt_eq_false_iff {code : List Instruction} {offset : UInt32} :
    startsAt code offset = false ↔ ¬ IsStart code offset := by
  rw [← startsAt_eq_true_iff, Bool.not_eq_true]

/-- The targets of one instruction that start no instruction. -/
theorem badTargets_lists (code : List Instruction) (i : Nat) (ins : Instruction) :
    Lists LabelPlace.Before
      (fun place label => ∃ j target, ins.targets[j]? = some target ∧ ¬ IsStart code target ∧
        place = .operand i j ∧ label = .branch ins.offset target)
      ((ins.targets.filter (!startsAt code ·)).map (BadLabel.branch ins.offset)) := by
  have hparts : (ins.targets.filter (!startsAt code ·)).map (BadLabel.branch ins.offset) =
      ins.targets.zipIdx.filterMap fun entry =>
        if startsAt code entry.1 then none else some (.branch ins.offset entry.1) := by
    nth_rewrite 1 [← List.zipIdx_map_fst 0 ins.targets]
    rw [← List.filterMap_eq_map, List.filterMap_filter, List.filterMap_map]
    congr 1
    funext entry
    cases h : startsAt code entry.1 <;> simp [h]
  rw [hparts]
  refine (lists_filterMap (fun entry => LabelPlace.operand i entry.2)
    ((pairwise_zipIdx ins.targets 0).imp .target)).congr fun place label => ?_
  constructor
  · rintro ⟨⟨target, j⟩, hentry, rfl, hlabel⟩
    cases hstarts : startsAt code target with
    | true => simp [hstarts] at hlabel
    | false =>
      simp only [hstarts, Bool.false_eq_true, if_false, Option.some.injEq] at hlabel
      exact ⟨j, target, List.mem_zipIdx_iff_getElem?.1 hentry, startsAt_eq_false_iff.1 hstarts, rfl,
        hlabel.symm⟩
  · rintro ⟨j, target, htarget, hout, rfl, rfl⟩
    have hstarts := startsAt_eq_false_iff.2 hout
    exact ⟨(target, j), List.mem_zipIdx_iff_getElem?.2 htarget, rfl, by simp [hstarts]⟩

/-- The branches that are reported are those that lead to no instruction. -/
theorem badBranches_lists (code : List Instruction) :
    Lists LabelPlace.Before
      (fun place label => ∃ i ins j target, code[i]? = some ins ∧ ins.targets[j]? = some target ∧
        ¬ IsStart code target ∧ place = .operand i j ∧ label = .branch ins.offset target)
      (badBranches code) := by
  have hparts : badBranches code = code.zipIdx.flatMap fun entry =>
      (entry.1.targets.filter (!startsAt code ·)).map (BadLabel.branch entry.1.offset) := by
    rw [badBranches]
    nth_rewrite 2 [← List.zipIdx_map_fst 0 code]
    rw [List.flatMap_map]
  rw [hparts]
  refine (lists_flatMap (fun entry _ => badTargets_lists code entry.2 entry.1)
    ((pairwise_zipIdx code 0).imp ?_)).congr fun place label => ?_
  · rintro ⟨ins, i⟩ ⟨ins', i'⟩ hlt p q label label' ⟨j, _, -, -, rfl, -⟩ ⟨j', _, -, -, rfl, -⟩
    exact .instruction hlt
  · constructor
    · rintro ⟨⟨ins, i⟩, hentry, j, target, hrest⟩
      exact ⟨i, ins, j, target, List.mem_zipIdx_iff_getElem?.1 hentry, hrest⟩
    · rintro ⟨i, ins, j, target, hins, hrest⟩
      exact ⟨(ins, i), List.mem_zipIdx_iff_getElem?.2 hins, j, target, hrest⟩

/-- The boundaries of a clause are those that have an offset, in their order. -/
theorem boundaries_pairwise (clause : Clause) :
    (boundaries clause).Pairwise fun entry entry' => entry.1.rank < entry'.1.rank := by
  unfold boundaries
  cases clause.filterStart? <;> simp [Boundary.rank]

theorem mem_boundaries_iff {clause : Clause} {b : Boundary} {offset : UInt32} {mayEnd : Bool} :
    (b, offset, mayEnd) ∈ boundaries clause ↔
      clause.offset? b = some offset ∧ mayEnd = b.mayEnd := by
  unfold boundaries
  cases hfilter : clause.filterStart? <;>
    cases b <;> simp [Clause.offset?, Boundary.mayEnd, hfilter, eq_comm]

/-- A boundary is reported unless it is a start, or an end that may be there. -/
theorem boundary_reported_iff {code : List Instruction} {size k : Nat} {b : Boundary}
    {offset : UInt32} {label : BadLabel} :
    (if startsAt code offset || (b.mayEnd && offset.toNat == size) then none
      else some (BadLabel.clause k b offset)) = some label ↔
      ¬ IsStart code offset ∧ (b.mayEnd = true → offset.toNat ≠ size) ∧
        label = .clause k b offset := by
  rw [← startsAt_eq_false_iff]
  cases startsAt code offset <;> cases b.mayEnd <;> simp [@eq_comm _ label]

/-- The boundaries of one clause that are wrong. -/
theorem badBoundariesOf_lists (code : List Instruction) (size k : Nat) (clause : Clause) :
    Lists LabelPlace.Before
      (fun place label => ∃ b offset, clause.offset? b = some offset ∧ ¬ IsStart code offset ∧
        (b.mayEnd = true → offset.toNat ≠ size) ∧ place = .boundary k b ∧
        label = .clause k b offset)
      (badBoundariesOf code size k clause) := by
  refine (lists_filterMap (fun entry => LabelPlace.boundary k entry.1)
    ((boundaries_pairwise clause).imp .boundary)).congr fun place label => ?_
  constructor
  · rintro ⟨⟨b, offset, mayEnd⟩, hentry, rfl, hlabel⟩
    obtain ⟨hoffset, rfl⟩ := mem_boundaries_iff.1 hentry
    obtain ⟨hout, hend, rfl⟩ := boundary_reported_iff.1 hlabel
    exact ⟨b, offset, hoffset, hout, hend, rfl, rfl⟩
  · rintro ⟨b, offset, hoffset, hout, hend, rfl, rfl⟩
    exact ⟨(b, offset, b.mayEnd), mem_boundaries_iff.2 ⟨hoffset, rfl⟩, rfl,
      boundary_reported_iff.2 ⟨hout, hend, rfl⟩⟩

/-- The boundaries of one clause after the other. -/
theorem badBoundaries_eq (code : List Instruction) (size start : Nat) (clauses : List Clause) :
    badBoundaries code size start clauses =
      (clauses.zipIdx start).flatMap fun entry => badBoundariesOf code size entry.2 entry.1 := by
  induction clauses generalizing start with
  | nil => rfl
  | cons clause rest ih => rw [badBoundaries, ih, List.zipIdx_cons, List.flatMap_cons]

/-- The boundaries that are reported are those that are wrong. -/
theorem badBoundaries_lists (code : List Instruction) (size : Nat) (clauses : List Clause) :
    Lists LabelPlace.Before
      (fun place label => ∃ k clause b offset, clauses[k]? = some clause ∧
        clause.offset? b = some offset ∧ ¬ IsStart code offset ∧
        (b.mayEnd = true → offset.toNat ≠ size) ∧ place = .boundary k b ∧
        label = .clause k b offset)
      (badBoundaries code size 0 clauses) := by
  rw [badBoundaries_eq]
  refine (lists_flatMap (fun entry _ => badBoundariesOf_lists code size entry.2 entry.1)
    ((pairwise_zipIdx clauses 0).imp ?_)).congr fun place label => ?_
  · rintro ⟨clause, k⟩ ⟨clause', k'⟩ hlt p q label label' ⟨b, _, -, -, -, rfl, -⟩
      ⟨b', _, -, -, -, rfl, -⟩
    exact .clause hlt
  · constructor
    · rintro ⟨⟨clause, k⟩, hentry, b, offset, hrest⟩
      exact ⟨k, clause, b, offset, List.mem_zipIdx_iff_getElem?.1 hentry, hrest⟩
    · rintro ⟨k, clause, b, offset, hclause, hrest⟩
      exact ⟨(clause, k), List.mem_zipIdx_iff_getElem?.2 hclause, b, offset, hrest⟩

/-- **What is reported are the violations**, each of them once and in the order of their places. -/
theorem badLabels_lists (body : MethodBody) (size : Nat) :
    Lists LabelPlace.Before (Violation body.instructions body.clauses size)
      (body.badLabels size) := by
  refine ((badBranches_lists body.instructions).append
    (badBoundaries_lists body.instructions size body.clauses) ?_).congr fun place label => ?_
  · rintro p q label label' ⟨i, _, j, _, -, -, -, rfl, -⟩ ⟨k, _, b, _, -, -, -, -, rfl, -⟩
    exact .clauses
  · constructor
    · rintro (⟨i, ins, j, target, hins, htarget, hout, rfl, rfl⟩ |
        ⟨k, clause, b, offset, hclause, hoffset, hout, hend, rfl, rfl⟩)
      · exact .operand hins htarget hout
      · exact .boundary hclause hoffset hout hend
    · rintro (⟨hins, htarget, hout⟩ | ⟨hclause, hoffset, hout, hend⟩)
      · exact .inl ⟨_, _, _, _, hins, htarget, hout, rfl, rfl⟩
      · exact .inr ⟨_, _, _, _, hclause, hoffset, hout, hend, rfl, rfl⟩

/-- Nothing is reported exactly where no label is wrong. -/
theorem badLabels_eq_nil_iff {body : MethodBody} {size : Nat} :
    body.badLabels size = [] ↔ LabelsInside body.instructions body.clauses size :=
  (badLabels_lists body size).eq_nil_iff.trans labelsInside_iff.symm

/-! ### Looking up an offset -/

/-- The place of the instruction that starts at an offset, by halving. -/
def searchAt? (code : Array Instruction) (offset : UInt32) : Option Nat :=
  let place := bisect (fun ins => decide (ins.offset ≤ offset)) code 0 code.size
  if (code[place]?).any (·.offset == offset) then some place else none

/-- Where offsets increase, halving finds the instruction that going through the code finds. -/
theorem searchAt?_eq {code : Array Instruction}
    (increase : code.toList.Pairwise (·.offset < ·.offset)) (offset : UInt32) :
    searchAt? code offset = indexAt? code offset := by
  have hless (i j : Nat) (hij : i < j) (hj : j < code.size) : code[i].offset < code[j].offset :=
    List.pairwise_iff_getElem.1 increase i j (hij.trans hj) hj hij
  have hholds (i : Nat) : (code[i]?).any (fun ins => decide (ins.offset ≤ offset)) = true ↔
      ∃ h : i < code.size, code[i].offset ≤ offset := by
    simp [any_getElem?_iff]
  have hspec := @bisect_spec _ (fun ins => decide (ins.offset ≤ offset)) code 0 code.size
    (fun i j hij hj => by
      obtain ⟨hsize, hle⟩ := (hholds j).1 hj
      refine (hholds i).2 ⟨hij.trans_lt hsize, ?_⟩
      rcases Nat.lt_or_eq_of_le hij with hlt | rfl
      · exact UInt32.le_trans (UInt32.le_of_lt (hless i j hlt hsize)) hle
      · exact hle)
    (fun i hi => by simp [Array.getElem?_eq_none (by simpa using hi : code.size ≤ i)])
  unfold searchAt?
  generalize bisect _ code 0 code.size = place at hspec
  obtain ⟨hplace, hlast⟩ := hspec
  dsimp only
  cases hindex : indexAt? code offset with
  | none =>
    have hnone := StackDepth.indexAt?_eq_none_iff.1 hindex
    refine if_neg fun hany => hnone ?_
    obtain ⟨hlt, hoffset⟩ := any_getElem?_iff.1 hany
    exact ⟨code[place], Array.getElem_mem hlt, by simpa using hoffset⟩
  | some index =>
    obtain ⟨hlt, hoffset, -⟩ := StackDepth.indexAt?_eq_some_iff.1 hindex
    have hle : index ≤ place := hlast index ((hholds index).2 ⟨hlt, UInt32.le_of_eq hoffset⟩)
    -- Behind the instruction that is looked for, offsets are larger.
    have hsame : place = index := by
      rcases Nat.lt_or_eq_of_le hle with hbehind | heq
      · rcases hplace with rfl | hat
        · exact absurd hbehind (Nat.not_lt_zero index)
        · obtain ⟨hsize, hsmall⟩ := (hholds place).1 hat
          have hlarge := hless index place hbehind hsize
          rw [hoffset] at hlarge
          exact absurd hsmall (UInt32.not_le.2 hlarge)
      · exact heq.symm
    subst hsame
    exact if_pos (any_getElem?_iff.2 ⟨hlt, by simpa using hoffset⟩)

/-! ### The stack depth of code with right labels -/

end MethodBody

/-- A stack depth cannot be given, although every label is found: two paths disagree, a path does
not bring enough, or the depth is too large for its field. -/
inductive Fault.OfDepth : Fault → Prop
  | imbalance (offset : UInt32) (expected actual : Nat) :
    OfDepth (.stackImbalance offset expected actual)
  | underflow (offset : UInt32) : OfDepth (.stackUnderflow offset)
  | width (depth : Nat) : OfDepth (.malformed (.maxStackWidth depth))

namespace StackDepth

variable {code : Array Instruction} {clauses : List Clause}

/-- Where all jumps lead to instructions, a walk fails for depths only. -/
theorem explore_ofDepth (inside : ∀ ins ∈ code, JumpsInside code ins)
    {depths : Array (Option Nat)} {pending : List Visit} {highest : Nat} {fault : Fault}
    (h : explore code depths pending highest = .error fault) : fault.OfDepth := by
  fun_induction explore code depths pending highest with
  | case1 => cases h
  | case2 depths highest index depth rest hlt hnone ih => exact ih h
  | case3 depths highest index rest hlt recorded ins hdepths hins ih => exact ih h
  | case4 depths highest index depth rest hlt recorded ins hdepths hins hne =>
    cases h
    exact .imbalance ins.offset recorded depth
  | case5 depths highest index depth rest hlt ins hunset hins change hshort =>
    cases h
    exact .underflow ins.offset
  | case6 depths highest index depth rest hlt ins hunset hins change henough after other hnext =>
    exact absurd (inside ins (Array.mem_of_getElem? hins)) (successors_eq_error hnext)
  | case7 depths highest index depth rest hlt ins hunset hins change henough after next hnext
      _ ih => exact ih h
  | case8 depths highest index depth rest hout ih => exact ih h

theorem maxStack_ofDepth (inside : ∀ ins ∈ code, JumpsInside code ins)
    (hclauses : ∀ clause ∈ clauses, ClauseInside code clause) {fault : Fault}
    (h : maxStack code clauses = .error fault) : fault.OfDepth := by
  unfold maxStack at h
  by_cases hempty : code.isEmpty = true
  · rw [if_pos hempty] at h
    cases h
  · rw [if_neg hempty] at h
    rcases Fault.bind_eq_error.1 h with hentries | ⟨pending, -, hexplore⟩
    · exact absurd hclauses (entries_eq_error hentries)
    · exact explore_ofDepth inside hexplore

end StackDepth

namespace MethodBody

open Instruction (totalSize)

/-- The check lays the code out and reports what is wrong then. -/
theorem checkLabels_eq (body : MethodBody) :
    checkLabels body =
      if (body.laidOut body.maxStack).badLabels (totalSize body.instructions) = [] then
        .ok () (body.laidOut body.maxStack)
      else .error
        (.invalidLabels ((body.laidOut body.maxStack).badLabels (totalSize body.instructions)))
        (body.laidOut body.maxStack) := by
  have hget : (get : BodyStep MethodBody) (body.laidOut body.maxStack) =
      .ok (body.laidOut body.maxStack) (body.laidOut body.maxStack) := rfl
  unfold checkLabels
  rw [bind_of_ok (layOut_eq body), bind_of_ok hget]
  cases (body.laidOut body.maxStack).badLabels (totalSize body.instructions) <;> rfl

/-- Where all labels are right, the stack depth of the laid-out body fails for depths only. -/
theorem computeDepth_ofDepth {body body' : MethodBody} {size : Nat} {fault : Fault}
    (inside : LabelsInside (body.laidOut body.maxStack).instructions body.clauses size)
    (h : computeDepth body = .error fault body') : fault.OfDepth := by
  have hjumps : ∀ ins ∈ (body.laidOut body.maxStack).instructions.toArray,
      StackDepth.JumpsInside (body.laidOut body.maxStack).instructions.toArray ins := by
    intro ins hins _ target htarget
    obtain ⟨other, hother, hoffset⟩ := inside.targets ins (by simpa using hins) target htarget
    exact ⟨other, by simpa using hother, hoffset⟩
  have hclauses : ∀ clause ∈ body.clauses,
      StackDepth.ClauseInside (body.laidOut body.maxStack).instructions.toArray clause := by
    intro clause hclause
    obtain ⟨handler, hhandler, hoffset⟩ := inside.handlerStart clause hclause
    refine ⟨⟨handler, by simpa using hhandler, hoffset⟩, fun hfilter => ?_⟩
    obtain ⟨filter, hmem, hstart⟩ :=
      inside.filter clause hclause clause.classOrFilter (by simp [Clause.filterStart?, hfilter])
    exact ⟨filter, by simpa using hmem, hstart⟩
  unfold computeDepth at h
  rw [bind_of_ok (layOut_eq body)] at h
  obtain ⟨_, _, hget, hrest⟩ := (bind_eq_error.1 h).resolve_left (by rintro ⟨⟩)
  cases hget
  cases hdepth : StackDepth.maxStack (body.laidOut body.maxStack).instructions.toArray
      (body.laidOut body.maxStack).clauses with
  | error other =>
    rw [hdepth] at hrest
    cases hrest
    exact StackDepth.maxStack_ofDepth hjumps hclauses hdepth
  | ok depth =>
    rw [hdepth] at hrest
    by_cases hwidth : depth ≤ 0xFFFF
    · simp only [if_pos hwidth] at hrest
      cases hrest
    · simp only [if_neg hwidth] at hrest
      cases hrest
      exact .width depth

/-- **Labels are checked exactly.** Of a body with less than `2 ^ 32` bytes of code, the check lays
the code out, in which halving finds the instruction at every offset. It accepts the body if and
only if no label is wrong; otherwise it reports the violations, each of them once and in the order
of their places, and nothing else. The stack depth of a body that is accepted is not refused for its
labels. -/
theorem checkLabels_exact {body : MethodBody} (hsize : totalSize body.instructions < 0x100000000) :
    let laid := body.laidOut body.maxStack
    let size := totalSize body.instructions
    (∀ offset,
      searchAt? laid.instructions.toArray offset = indexAt? laid.instructions.toArray offset ∧
      (searchAt? laid.instructions.toArray offset).isSome = startsAt laid.instructions offset) ∧
    (checkLabels body = .ok () laid ↔ LabelsInside laid.instructions body.clauses size) ∧
    (∀ fault body', checkLabels body = .error fault body' → body' = laid ∧
      ∃ labels, fault = .invalidLabels labels ∧ labels ≠ [] ∧
        Lists LabelPlace.Before (Violation laid.instructions body.clauses size) labels) ∧
    ∀ body', checkLabels body = .ok () body' → ∀ fault body'',
      computeDepth body' = .error fault body'' → fault.OfDepth := by
  intro laid size
  have hsearch (offset : UInt32) : searchAt? laid.instructions.toArray offset =
      indexAt? laid.instructions.toArray offset := by
    refine searchAt?_eq ?_ offset
    exact Instruction.pairwise_offset_lt (by simpa using hsize)
  have hinside : laid.badLabels size = [] ↔ LabelsInside laid.instructions body.clauses size :=
    badLabels_eq_nil_iff
  have hrun : checkLabels body = if laid.badLabels size = [] then .ok () laid
      else .error (.invalidLabels (laid.badLabels size)) laid := checkLabels_eq body
  refine ⟨fun offset => ⟨hsearch offset, ?_⟩, ?_⟩
  · rw [hsearch, indexAt?, startsAt]
    simp
  rw [hrun, ← hinside]
  by_cases hnil : laid.badLabels size = []
  · rw [if_pos hnil]
    refine ⟨iff_of_true rfl hnil, ?_, ?_⟩
    · rintro fault body' ⟨⟩
    · rintro body' ⟨⟩ fault body'' hdepth
      refine @computeDepth_ofDepth laid body'' size fault ?_ hdepth
      rw [show laid.laidOut laid.maxStack = laid from laidOut_laidOut body _ _]
      exact hinside.1 hnil
  · rw [if_neg hnil]
    refine ⟨iff_of_false (by simp) hnil, ?_, ?_⟩
    · rintro fault body' ⟨⟩
      exact ⟨rfl, _, rfl, hnil, badLabels_lists laid size⟩
    · rintro body' ⟨⟩

/-- A branch into the middle of an instruction, and a clause whose ranges both end behind the code
of their instructions. -/
def strayLabels : MethodBody where
  instructions := [
    { opcode := ⟨0x20, "ldc.i4", .int, .next, .fixed 0, .fixed 1⟩, operand := .int32 1 },
    { opcode := ⟨0x2D, "brtrue.s", .shortBranch, .condBranch, .fixed 1, .fixed 0⟩
      operand := .target 3 },
    { opcode := ⟨0x2B, "br.s", .shortBranch, .branch, .fixed 0, .fixed 0⟩, operand := .target 9 },
    { opcode := ⟨0x2A, "ret", .none, .ret, .fixed 0, .fixed 0⟩, operand := .none }]
  clauses := [Clause.finalizing 0 2 9 2]

theorem checkLabels_exact_strayLabels :
    Lists LabelPlace.Before
      (Violation (strayLabels.laidOut 8).instructions strayLabels.clauses 10)
      [.branch 5 3, .clause 0 .tryEnd 2, .clause 0 .handlerEnd 11] := by
  obtain ⟨-, -, herror, -⟩ := @checkLabels_exact strayLabels (by decide)
  have hrun : checkLabels strayLabels =
      .error (.invalidLabels [.branch 5 3, .clause 0 .tryEnd 2, .clause 0 .handlerEnd 11])
        (strayLabels.laidOut 8) := rfl
  obtain ⟨-, labels, hlabels, -, hlists⟩ := herror _ _ hrun
  cases hlabels
  exact hlists

end MethodBody

end CilMetadata

import CilMetadata.Body.StackDepth
import CilMetadata.Proofs.Fault
import CilMetadata.Proofs.Instruction.Layout
import Mathlib.Order.Bounds.Basic

/-!
# The stack depth is that of the control flow graph

`Reaches code clauses` is the least set of places and depths that holds the entries of the code and
is closed under the edges of the control flow graph. The walk of `explore` is measured against it:

* `Recorded` and `Walk` are the invariant of the walk: what is recorded or pending is reached, and
  what is recorded has its edges recorded or pending;
* `explore_spec`: the walk succeeds only if what is reached is `Consistent`, and then it has reached
  everything; it fails only if it is not;
* `maxStack_eq_ok_iff` is the statement for laid-out code, in which no walk occurs.
-/

namespace CilMetadata.StackDepth

/-! ### The control flow graph -/

/-- The first instruction that starts at an offset. In code of less than `2 ^ 32` bytes it is the
only one (`startsAt_layOut_iff`). -/
def StartsAt (code : Array Instruction) (offset : UInt32) (index : Nat) : Prop :=
  ∃ h : index < code.size, code[index].offset = offset ∧
    ∀ (earlier : Nat) (hlt : earlier < index), code[earlier].offset ≠ offset

/-- The depth behind an instruction. -/
def depthAfter (ins : Instruction) (depth : Nat) : Nat :=
  depth - (effect ins).pops + (effect ins).pushes

/-- The places where paths start. -/
inductive Entry (code : Array Instruction) (clauses : List Clause) : Visit → Prop
  | first : Entry code clauses (0, 0)
  | handler {clause : Clause} {index : Nat} (hmem : clause ∈ clauses)
      (hstart : StartsAt code clause.handlerOffset index) :
      Entry code clauses (index, clause.takesException.toNat)
  | filter {clause : Clause} {index : Nat} (hmem : clause ∈ clauses) (hfilter : clause.isFilter)
      (hstart : StartsAt code clause.classOrFilter index) : Entry code clauses (index, 1)

/-- Whether control may go to the targets of an instruction. -/
def jumps : Flow → Bool
  | .branch | .condBranch | .switch | .leave => true
  | _ => false

/-- The depth at the targets of an instruction: leaving a protected range empties the stack. -/
def landing (flow : Flow) (after : Nat) : Nat := if flow = .leave then 0 else after

/-- The edges that leave an instruction, with the depth at their ends; `after` is the depth behind
the instruction. -/
inductive Edge (code : Array Instruction) (index : Nat) (ins : Instruction) (after : Nat) :
    Visit → Prop
  | jump {target : UInt32} {place : Nat} (hflow : jumps ins.opcode.flow = true)
      (htarget : target ∈ ins.targets) (hstart : StartsAt code target place) :
      Edge code index ins after (place, landing ins.opcode.flow after)
  | next (hflow : ins.opcode.flow.canFallThrough = true) (hinside : index + 1 < code.size) :
      Edge code index ins after (index + 1, after)

/-- The places that are reached, with the depths they are reached with: the least set that holds the
entries and is closed under edges. Only an instruction that finds its operands has edges. -/
inductive Reaches (code : Array Instruction) (clauses : List Clause) : Visit → Prop
  | entry {visit : Visit} (h : Entry code clauses visit) : Reaches code clauses visit
  | step {index depth : Nat} {ins : Instruction} {visit : Visit}
      (h : Reaches code clauses (index, depth)) (hins : code[index]? = some ins)
      (henough : (effect ins).pops ≤ depth)
      (hedge : Edge code index ins (depthAfter ins depth) visit) : Reaches code clauses visit

/-- Every target that an instruction may jump to starts an instruction. -/
def JumpsInside (code : Array Instruction) (ins : Instruction) : Prop :=
  jumps ins.opcode.flow = true → ∀ target ∈ ins.targets, ∃ other ∈ code, other.offset = target

/-- Code in which a stack depth can be given to everything that is reached. -/
structure Consistent (code : Array Instruction) (clauses : List Clause) : Prop where
  enough : ∀ index depth ins, Reaches code clauses (index, depth) → code[index]? = some ins →
    (effect ins).pops ≤ depth
  inside : ∀ index depth ins, Reaches code clauses (index, depth) → code[index]? = some ins →
    JumpsInside code ins
  unique : ∀ index first second, Reaches code clauses (index, first) →
    Reaches code clauses (index, second) → first = second

/-- The handler and the filter of a clause start at instructions. -/
def ClauseInside (code : Array Instruction) (clause : Clause) : Prop :=
  (∃ ins ∈ code, ins.offset = clause.handlerOffset) ∧
    (clause.isFilter → ∃ ins ∈ code, ins.offset = clause.classOrFilter)

/-- The depths before and behind the instructions that are reached. -/
def depthsOf (code : Array Instruction) (clauses : List Clause) : Set Nat :=
  {depth | ∃ index before ins, Reaches code clauses (index, before) ∧ code[index]? = some ins ∧
    (depth = before ∨ depth = depthAfter ins before)}

section Graph

variable {code : Array Instruction} {clauses : List Clause}

theorem StartsAt.exists {offset : UInt32} {index : Nat} (h : StartsAt code offset index) :
    ∃ ins ∈ code, ins.offset = offset := by
  obtain ⟨hlt, hoffset, -⟩ := h
  exact ⟨code[index], Array.getElem_mem hlt, hoffset⟩

theorem indexAt?_eq_some_iff {offset : UInt32} {index : Nat} :
    MethodBody.indexAt? code offset = some index ↔ StartsAt code offset index := by
  simp [MethodBody.indexAt?, Array.findIdx?_eq_some_iff_getElem, StartsAt]

theorem indexAt?_eq_none_iff {offset : UInt32} :
    MethodBody.indexAt? code offset = none ↔ ¬ ∃ ins ∈ code, ins.offset = offset := by
  simp [MethodBody.indexAt?, Array.findIdx?_eq_none_iff]

/-- Only instructions are reached, unless there are none. -/
theorem Reaches.lt_size {visit : Visit} (h : Reaches code clauses visit) (hcode : 0 < code.size) :
    visit.1 < code.size := by
  cases h with
  | entry hentry =>
    cases hentry with
    | first => exact hcode
    | handler _ hstart => exact hstart.1
    | filter _ _ hstart => exact hstart.1
  | step _ _ _ hedge =>
    cases hedge with
    | jump _ _ hstart => exact hstart.1
    | next _ hinside => exact hinside

/-- In code whose offsets do not wrap around, at most one instruction starts at an offset. -/
theorem startsAt_layOut_iff {code : List Instruction} (h : Instruction.totalSize code < 0x100000000)
    {offset : UInt32} {index : Nat} :
    StartsAt (Instruction.layOut code).toArray offset index ↔
      ∃ hlt : index < (Instruction.layOut code).length,
        (Instruction.layOut code)[index].offset = offset := by
  have hincrease : (Instruction.layOut code).Pairwise (·.offset < ·.offset) :=
    Instruction.pairwise_offset_lt (by omega)
  constructor
  · rintro ⟨hlt, hoffset, -⟩
    exact ⟨by simpa using hlt, by simpa using hoffset⟩
  · rintro ⟨hlt, rfl⟩
    refine ⟨by simpa using hlt, by simp, fun earlier hearlier heq => ?_⟩
    have hless := List.pairwise_iff_getElem.1 hincrease earlier index (hearlier.trans hlt) hlt
      hearlier
    exact UInt32.ne_of_lt hless (by simpa using heq)

/-! ### One step of the walk -/

theorem branchVisits_eq_ok {ins : Instruction} {depth : Nat} {visits : List Visit}
    (h : branchVisits code ins depth = .ok visits) :
    (∀ target ∈ ins.targets, ∃ other ∈ code, other.offset = target) ∧
      ∀ visit, visit ∈ visits ↔
        ∃ target ∈ ins.targets, StartsAt code target visit.1 ∧ visit.2 = depth := by
  obtain ⟨hall, hmem⟩ := Fault.mapM_eq_ok h
  refine ⟨fun target htarget => ?_, fun visit => ?_⟩
  · obtain ⟨visit, hvisit⟩ := hall target htarget
    cases hindex : MethodBody.indexAt? code target with
    | none =>
      rw [hindex] at hvisit
      cases hvisit
    | some index => exact (indexAt?_eq_some_iff.1 hindex).exists
  · rw [hmem]
    refine exists_congr fun target => and_congr_right fun _ => ?_
    rw [← indexAt?_eq_some_iff]
    cases MethodBody.indexAt? code target with
    | none => simp
    | some index => simp [Prod.ext_iff, eq_comm]

theorem branchVisits_eq_error {ins : Instruction} {depth : Nat} {fault : Fault}
    (h : branchVisits code ins depth = .error fault) :
    ∃ target ∈ ins.targets, ¬ ∃ other ∈ code, other.offset = target := by
  obtain ⟨target, htarget, hfault⟩ := Fault.mapM_eq_error h
  refine ⟨target, htarget, ?_⟩
  cases hindex : MethodBody.indexAt? code target with
  | none => exact indexAt?_eq_none_iff.1 hindex
  | some index =>
    rw [hindex] at hfault
    cases hfault

theorem mem_fallThrough {index depth : Nat} {visit : Visit} :
    visit ∈ fallThrough code index depth ↔ index + 1 < code.size ∧ visit = (index + 1, depth) := by
  unfold fallThrough
  split <;> simp_all

/-- An instruction leads to its targets and to the instruction behind it, as its flow says. -/
theorem successors_eq (code : Array Instruction) (index : Nat) (ins : Instruction) (after : Nat) :
    successors code index ins after = do
      let targets ← (if jumps ins.opcode.flow then
        branchVisits code ins (landing ins.opcode.flow after) else .ok [] : Except Fault _)
      return targets ++
        if ins.opcode.flow.canFallThrough then fallThrough code index after else [] := by
  unfold successors
  cases ins.opcode.flow <;> simp [jumps, landing, Flow.canFallThrough]

theorem successors_eq_ok {index after : Nat} {ins : Instruction} {next : List Visit}
    (h : successors code index ins after = .ok next) :
    JumpsInside code ins ∧ ∀ visit, visit ∈ next ↔ Edge code index ins after visit := by
  rw [successors_eq] at h
  obtain ⟨targets, htargets, hnext⟩ := Fault.bind_eq_ok.1 h
  cases hnext
  -- The targets of the jumps, and below the place behind the instruction.
  have hjump : JumpsInside code ins ∧ ∀ visit, visit ∈ targets ↔ jumps ins.opcode.flow = true ∧
      ∃ target ∈ ins.targets, StartsAt code target visit.1 ∧
        visit.2 = landing ins.opcode.flow after := by
    by_cases hjumps : jumps ins.opcode.flow = true
    · rw [if_pos hjumps] at htargets
      obtain ⟨hall, hmem⟩ := branchVisits_eq_ok htargets
      exact ⟨fun _ => hall, fun visit => by rw [hmem]; simp [hjumps]⟩
    · rw [if_neg hjumps] at htargets
      cases htargets
      exact ⟨fun hyes => absurd hyes hjumps, fun visit => by simp [hjumps]⟩
  obtain ⟨hinside, hmem⟩ := hjump
  refine ⟨hinside, fun visit => ?_⟩
  rw [List.mem_append, hmem]
  constructor
  · rintro (⟨hjumps, target, htarget, hstart, hdepth⟩ | hnext)
    · have hvisit : visit = (visit.1, landing ins.opcode.flow after) := Prod.ext rfl hdepth
      rw [hvisit]
      exact .jump hjumps htarget hstart
    · by_cases hfalls : ins.opcode.flow.canFallThrough = true
      · rw [if_pos hfalls, mem_fallThrough] at hnext
        obtain ⟨hsize, rfl⟩ := hnext
        exact .next hfalls hsize
      · rw [if_neg hfalls] at hnext
        cases hnext
  · intro hedge
    cases hedge with
    | jump hflow htarget hstart => exact .inl ⟨hflow, _, htarget, hstart, rfl⟩
    | next hflow hsize =>
      rw [if_pos hflow]
      exact .inr (mem_fallThrough.2 ⟨hsize, rfl⟩)

theorem successors_eq_error {index after : Nat} {ins : Instruction} {fault : Fault}
    (h : successors code index ins after = .error fault) : ¬ JumpsInside code ins := by
  rw [successors_eq] at h
  intro hinside
  rcases Fault.bind_eq_error.1 h with htargets | ⟨targets, -, hnext⟩
  · by_cases hjumps : jumps ins.opcode.flow = true
    · rw [if_pos hjumps] at htargets
      obtain ⟨target, htarget, hnone⟩ := branchVisits_eq_error htargets
      exact hnone (hinside hjumps target htarget)
    · rw [if_neg hjumps] at htargets
      cases htargets
  · cases hnext

theorem entry_eq_ok {offset : UInt32} {depth : Nat} {visit : Visit} :
    entry code offset depth = .ok visit ↔ StartsAt code offset visit.1 ∧ visit.2 = depth := by
  unfold entry
  rw [← indexAt?_eq_some_iff]
  cases MethodBody.indexAt? code offset with
  | none => simp
  | some index => simp [Prod.ext_iff, eq_comm]

theorem entry_eq_error {offset : UInt32} {depth : Nat} {fault : Fault}
    (h : entry code offset depth = .error fault) : ¬ ∃ ins ∈ code, ins.offset = offset := by
  unfold entry at h
  cases hindex : MethodBody.indexAt? code offset with
  | none => exact indexAt?_eq_none_iff.1 hindex
  | some index =>
    rw [hindex] at h
    cases h

theorem clauseEntries_eq (code : Array Instruction) (clause : Clause) :
    clauseEntries code clause = do
      let handler ← entry code clause.handlerOffset clause.takesException.toNat
      if clause.isFilter then return [handler, ← entry code clause.classOrFilter 1]
      else return [handler] := by
  unfold clauseEntries Clause.filterStart?
  cases clause.isFilter <;> rfl

theorem clauseEntries_eq_ok {clause : Clause} {visits : List Visit}
    (h : clauseEntries code clause = .ok visits) :
    ClauseInside code clause ∧ ∀ visit, visit ∈ visits ↔
      (StartsAt code clause.handlerOffset visit.1 ∧ visit.2 = clause.takesException.toNat) ∨
        (clause.isFilter = true ∧ StartsAt code clause.classOrFilter visit.1 ∧ visit.2 = 1) := by
  rw [clauseEntries_eq] at h
  obtain ⟨handler, hhandler, hrest⟩ := Fault.bind_eq_ok.1 h
  have hstart := (entry_eq_ok.1 hhandler).1.exists
  by_cases hisFilter : clause.isFilter = true
  · rw [if_pos hisFilter] at hrest
    obtain ⟨filter, hfilter, hvisits⟩ := Fault.bind_eq_ok.1 hrest
    cases hvisits
    refine ⟨⟨hstart, fun _ => (entry_eq_ok.1 hfilter).1.exists⟩, fun visit => ?_⟩
    rw [← entry_eq_ok, ← entry_eq_ok, hhandler, hfilter]
    simp [hisFilter, eq_comm]
  · rw [if_neg hisFilter] at hrest
    cases hrest
    refine ⟨⟨hstart, fun hyes => absurd hyes hisFilter⟩, fun visit => ?_⟩
    rw [← entry_eq_ok, hhandler]
    simp [hisFilter, eq_comm]

theorem clauseEntries_eq_error {clause : Clause} {fault : Fault}
    (h : clauseEntries code clause = .error fault) : ¬ ClauseInside code clause := by
  rintro ⟨hhandlerInside, hfilterInside⟩
  rw [clauseEntries_eq] at h
  rcases Fault.bind_eq_error.1 h with hhandler | ⟨handler, -, hrest⟩
  · exact entry_eq_error hhandler hhandlerInside
  · by_cases hisFilter : clause.isFilter = true
    · rw [if_pos hisFilter] at hrest
      rcases Fault.bind_eq_error.1 hrest with hfilter | ⟨filter, -, hvisits⟩
      · exact entry_eq_error hfilter (hfilterInside hisFilter)
      · cases hvisits
    · rw [if_neg hisFilter] at hrest
      cases hrest

theorem entries_eq_ok {pending : List Visit} (h : entries code clauses = .ok pending) :
    (∀ clause ∈ clauses, ClauseInside code clause) ∧
      ∀ visit, visit ∈ pending ↔ Entry code clauses visit := by
  obtain ⟨lists, hlists, hpending⟩ := Fault.bind_eq_ok.1 h
  cases hpending
  obtain ⟨hall, hmem⟩ := Fault.mapM_eq_ok hlists
  refine ⟨fun clause hclause => ?_, fun visit => ?_⟩
  · obtain ⟨visits, hvisits⟩ := hall clause hclause
    exact (clauseEntries_eq_ok hvisits).1
  · rw [List.mem_cons, List.mem_flatten]
    constructor
    · rintro (rfl | ⟨visits, hvisits, hvisit⟩)
      · exact .first
      · obtain ⟨clause, hclause, hok⟩ := (hmem visits).1 hvisits
        obtain ⟨index, depth⟩ := visit
        rcases ((clauseEntries_eq_ok hok).2 _).1 hvisit with
          ⟨hstart, rfl⟩ | ⟨hfilter, hstart, rfl⟩
        · exact .handler hclause hstart
        · exact .filter hclause hfilter hstart
    · intro hentry
      cases hentry with
      | first => exact .inl rfl
      | handler hclause hstart =>
        obtain ⟨visits, hvisits⟩ := hall _ hclause
        exact .inr ⟨visits, (hmem visits).2 ⟨_, hclause, hvisits⟩,
          ((clauseEntries_eq_ok hvisits).2 _).2 (.inl ⟨hstart, rfl⟩)⟩
      | filter hclause hfilter hstart =>
        obtain ⟨visits, hvisits⟩ := hall _ hclause
        exact .inr ⟨visits, (hmem visits).2 ⟨_, hclause, hvisits⟩,
          ((clauseEntries_eq_ok hvisits).2 _).2 (.inr ⟨hfilter, hstart, rfl⟩)⟩

theorem entries_eq_error {fault : Fault} (h : entries code clauses = .error fault) :
    ¬ ∀ clause ∈ clauses, ClauseInside code clause := by
  intro hinside
  rcases Fault.bind_eq_error.1 h with hlists | ⟨lists, -, hpending⟩
  · obtain ⟨clause, hclause, hfault⟩ := Fault.mapM_eq_error hlists
    exact clauseEntries_eq_error hfault (hinside clause hclause)
  · cases hpending

/-! ### The walk -/

/-- The depth that an instruction has been reached with, if it has been. -/
def Recorded (depths : Array (Option Nat)) (visit : Visit) : Prop :=
  depths[visit.1]? = some (some visit.2)

theorem recorded_set {depths : Array (Option Nat)} {index depth : Nat} (h : index < depths.size)
    (hunset : depths[index] = none) {visit : Visit} :
    Recorded (depths.set index (some depth) h) visit ↔
      visit = (index, depth) ∨ Recorded depths visit := by
  obtain ⟨place, value⟩ := visit
  unfold Recorded
  by_cases hplace : place = index
  · subst hplace
    simp [Array.getElem?_eq_getElem h, hunset, eq_comm]
  · simp [hplace, Ne.symm hplace]

/-- The invariant of the walk: what is recorded or pending is reached, the entries and the ends of
the edges of what is recorded are recorded or pending, and `highest` is the largest depth before or
behind what is recorded. -/
structure Walk (code : Array Instruction) (clauses : List Clause) (depths : Array (Option Nat))
    (pending : List Visit) (highest : Nat) : Prop where
  size : depths.size = code.size
  reached : ∀ visit, visit ∈ pending ∨ Recorded depths visit → Reaches code clauses visit
  entries : ∀ visit, Entry code clauses visit → visit ∈ pending ∨ Recorded depths visit
  enough : ∀ index depth ins, Recorded depths (index, depth) → code[index]? = some ins →
    (effect ins).pops ≤ depth
  inside : ∀ index depth ins, Recorded depths (index, depth) → code[index]? = some ins →
    JumpsInside code ins
  edges : ∀ index depth ins visit, Recorded depths (index, depth) → code[index]? = some ins →
    Edge code index ins (depthAfter ins depth) visit → visit ∈ pending ∨ Recorded depths visit
  bound : ∀ index depth ins, Recorded depths (index, depth) → code[index]? = some ins →
    depth ≤ highest ∧ depthAfter ins depth ≤ highest
  attained : highest = 0 ∨ ∃ index depth ins, Recorded depths (index, depth) ∧
    code[index]? = some ins ∧ (highest = depth ∨ highest = depthAfter ins depth)

namespace Walk

variable {depths : Array (Option Nat)} {rest : List Visit} {index depth highest : Nat}

/-- A walk with nothing left to visit has recorded all that is reached. -/
theorem recorded_of_reaches (h : Walk code clauses depths [] highest) {visit : Visit}
    (hreach : Reaches code clauses visit) : Recorded depths visit := by
  induction hreach with
  | entry hentry => exact (h.entries _ hentry).resolve_left List.not_mem_nil
  | step _ hins _ hedge ih => exact (h.edges _ _ _ _ ih hins hedge).resolve_left List.not_mem_nil

theorem consistent (h : Walk code clauses depths [] highest) : Consistent code clauses where
  enough index depth ins hreach := h.enough index depth ins (h.recorded_of_reaches hreach)
  inside index depth ins hreach := h.inside index depth ins (h.recorded_of_reaches hreach)
  unique index first second hfirst hsecond := by
    have hone := h.recorded_of_reaches hfirst
    have htwo := h.recorded_of_reaches hsecond
    unfold Recorded at hone htwo
    rw [hone] at htwo
    simpa using htwo

theorem isGreatest (h : Walk code clauses depths [] highest) (hcode : 0 < code.size) :
    IsGreatest (depthsOf code clauses) highest := by
  constructor
  · -- Without a larger one, the depth is that of the start.
    rcases h.attained with hzero | ⟨index, depth, ins, hrecorded, hins, hdepth⟩
    · have hfirst : Reaches code clauses (0, 0) := .entry .first
      exact ⟨0, 0, code[0], hfirst, Array.getElem?_eq_getElem hcode, .inl hzero⟩
    · exact ⟨index, depth, ins, h.reached _ (.inr hrecorded), hins, hdepth⟩
  · rintro value ⟨index, depth, ins, hreach, hins, hvalue⟩
    have hbound := h.bound index depth ins (h.recorded_of_reaches hreach) hins
    rcases hvalue with rfl | rfl
    · exact hbound.1
    · exact hbound.2

/-- A visit that is on record already can be left out. -/
theorem skip (h : Walk code clauses depths ((index, depth) :: rest) highest)
    (hrecorded : Recorded depths (index, depth)) : Walk code clauses depths rest highest := by
  have hkeep : ∀ visit, visit ∈ (index, depth) :: rest ∨ Recorded depths visit →
      visit ∈ rest ∨ Recorded depths visit := by
    rintro visit (hmem | hvisit)
    · rcases List.mem_cons.1 hmem with rfl | hrest
      · exact .inr hrecorded
      · exact .inl hrest
    · exact .inr hvisit
  exact { h with
    reached := fun visit hvisit => h.reached visit (hvisit.imp_left (List.mem_cons_of_mem _))
    entries := fun visit hentry => hkeep visit (h.entries visit hentry)
    edges := fun i d ins visit hi hins hedge => hkeep visit (h.edges i d ins visit hi hins hedge) }

/-- A visit to an instruction that has not been reached before, and whose edges can be followed. -/
theorem enter {ins : Instruction} {next : List Visit}
    (h : Walk code clauses depths ((index, depth) :: rest) highest) (hlt : index < depths.size)
    (hunset : depths[index] = none) (hins : code[index]? = some ins)
    (henough : (effect ins).pops ≤ depth)
    (hnext : successors code index ins (depthAfter ins depth) = .ok next) :
    Walk code clauses (depths.set index (some depth) hlt) (next.reverse ++ rest)
      (max highest (max depth (depthAfter ins depth))) := by
  obtain ⟨hinside, hedges⟩ := successors_eq_ok hnext
  have hhere : Reaches code clauses (index, depth) := h.reached _ (.inl List.mem_cons_self)
  have hpending : ∀ visit, visit ∈ next.reverse ++ rest ↔
      Edge code index ins (depthAfter ins depth) visit ∨ visit ∈ rest := by
    intro visit
    rw [List.mem_append, List.mem_reverse, hedges]
  have hkeep : ∀ visit, visit ∈ (index, depth) :: rest ∨ Recorded depths visit →
      visit ∈ next.reverse ++ rest ∨ Recorded (depths.set index (some depth) hlt) visit := by
    rintro visit (hmem | hvisit)
    · rcases List.mem_cons.1 hmem with rfl | hrest
      · exact .inr ((recorded_set hlt hunset).2 (.inl rfl))
      · exact .inl ((hpending visit).2 (.inr hrest))
    · exact .inr ((recorded_set hlt hunset).2 (.inr hvisit))
  -- A fact about what is recorded holds if it does of what was, and of the new place.
  have hsplit : ∀ {P : Nat → Nat → Instruction → Prop}, P index depth ins →
      (∀ i d other, Recorded depths (i, d) → code[i]? = some other → P i d other) →
      ∀ i d other, Recorded (depths.set index (some depth) hlt) (i, d) → code[i]? = some other →
        P i d other := by
    intro P hnew hold i d other hrecorded hother
    rcases (recorded_set hlt hunset).1 hrecorded with heq | hrecorded
    · cases heq
      rw [hins] at hother
      cases hother
      exact hnew
    · exact hold i d other hrecorded hother
  refine ⟨by simpa using h.size, ?_, fun visit hentry => hkeep visit (h.entries visit hentry),
    hsplit henough h.enough, hsplit hinside h.inside, ?_, ?_, ?_⟩
  · rintro visit (hmem | hvisit)
    · rcases (hpending visit).1 hmem with hedge | hrest
      · exact .step hhere hins henough hedge
      · exact h.reached visit (.inl (List.mem_cons_of_mem _ hrest))
    · rcases (recorded_set hlt hunset).1 hvisit with rfl | hvisit
      · exact hhere
      · exact h.reached visit (.inr hvisit)
  · intro i d other visit hi hother hedge
    exact hsplit (P := fun i d other => Edge code i other (depthAfter other d) visit →
        visit ∈ next.reverse ++ rest ∨ Recorded (depths.set index (some depth) hlt) visit)
      (fun hedge => .inl ((hpending visit).2 (.inl hedge)))
      (fun i d other hi hother hedge => hkeep visit (h.edges i d other visit hi hother hedge))
      i d other hi hother hedge
  · refine hsplit ⟨by omega, by omega⟩ fun i d other hi hother => ?_
    have hbound := h.bound i d other hi hother
    exact ⟨by omega, by omega⟩
  · have hnew : Recorded (depths.set index (some depth) hlt) (index, depth) :=
      (recorded_set hlt hunset).2 (.inl rfl)
    rcases Nat.le_total (max depth (depthAfter ins depth)) highest with hle | hle
    · rw [Nat.max_eq_left hle]
      refine h.attained.imp_right ?_
      rintro ⟨i, d, other, hi, hother, hdepth⟩
      exact ⟨i, d, other, (recorded_set hlt hunset).2 (.inr hi), hother, hdepth⟩
    · rw [Nat.max_eq_right hle]
      refine .inr ⟨index, depth, ins, hnew, hins, ?_⟩
      omega

end Walk

theorem explore_spec (hcode : 0 < code.size) {depths : Array (Option Nat)} {pending : List Visit}
    {highest : Nat} (h : Walk code clauses depths pending highest) :
    (∀ depth, explore code depths pending highest = .ok depth →
      Consistent code clauses ∧ IsGreatest (depthsOf code clauses) depth) ∧
    ∀ fault, explore code depths pending highest = .error fault → ¬ Consistent code clauses := by
  fun_induction explore code depths pending highest with
  | case1 depths highest =>
    refine ⟨fun depth heq => ?_, fun fault heq => (by cases heq)⟩
    cases heq
    exact ⟨h.consistent, h.isGreatest hcode⟩
  -- Only instructions are reached, so that neither this case nor the last one occurs.
  | case2 depths highest index depth rest hlt hnone ih =>
    have hinside := (h.reached _ (.inl List.mem_cons_self)).lt_size hcode
    rw [Array.getElem?_eq_getElem hinside] at hnone
    cases hnone
  | case3 depths highest index rest hlt recorded ins hdepths hins ih =>
    exact ih (h.skip (by simp [Recorded, hlt, hdepths]))
  | case4 depths highest index depth rest hlt recorded ins hdepths hins hne =>
    refine ⟨fun depth heq => (by cases heq), fun fault _ hconsistent => hne ?_⟩
    have hrecorded : Recorded depths (index, recorded) := by simp [Recorded, hlt, hdepths]
    exact hconsistent.unique index recorded depth (h.reached _ (.inr hrecorded))
      (h.reached _ (.inl List.mem_cons_self))
  | case5 depths highest index depth rest hlt ins hunset hins change hshort =>
    refine ⟨fun depth heq => (by cases heq), fun fault _ hconsistent => ?_⟩
    have henough := hconsistent.enough index depth ins (h.reached _ (.inl List.mem_cons_self)) hins
    exact absurd hshort (Nat.not_lt.2 henough)
  | case6 depths highest index depth rest hlt ins hunset hins change henough after fault hnext =>
    refine ⟨fun depth heq => (by cases heq), fun fault _ hconsistent => ?_⟩
    exact successors_eq_error hnext
      (hconsistent.inside index depth ins (h.reached _ (.inl List.mem_cons_self)) hins)
  | case7 depths highest index depth rest hlt ins hunset hins change henough after next hnext
      _ ih =>
    exact ih (h.enter hlt hunset hins (Nat.not_lt.1 henough) hnext)
  | case8 depths highest index depth rest hout ih =>
    have hinside := (h.reached _ (.inl List.mem_cons_self)).lt_size hcode
    exact absurd (h.size ▸ hinside) hout

/-- The walk starts with nothing recorded and the entries pending. -/
theorem walk_start {pending : List Visit}
    (h : ∀ visit, visit ∈ pending ↔ Entry code clauses visit) :
    Walk code clauses (Array.replicate code.size none) pending.reverse 0 := by
  have hnone : ∀ visit, ¬ Recorded (Array.replicate code.size none) visit := by
    intro visit hrecorded
    simp [Recorded, Array.getElem?_replicate] at hrecorded
  refine ⟨by simp, ?_, fun visit hentry => .inl (List.mem_reverse.2 ((h visit).2 hentry)),
    fun _ _ _ hi => absurd hi (hnone _), fun _ _ _ hi => absurd hi (hnone _),
    fun _ _ _ _ hi => absurd hi (hnone _), fun _ _ _ hi => absurd hi (hnone _), .inl rfl⟩
  rintro visit (hmem | hrecorded)
  · exact .entry ((h visit).1 (List.mem_reverse.1 hmem))
  · exact absurd hrecorded (hnone visit)

theorem maxStack_spec (hcode : 0 < code.size) :
    (∀ depth, maxStack code clauses = .ok depth →
      (∀ clause ∈ clauses, ClauseInside code clause) ∧ Consistent code clauses ∧
        IsGreatest (depthsOf code clauses) depth) ∧
    ∀ fault, maxStack code clauses = .error fault →
      ¬ ((∀ clause ∈ clauses, ClauseInside code clause) ∧ Consistent code clauses) := by
  have hnonempty : code.isEmpty = false := by simpa [Array.isEmpty] using Nat.ne_of_gt hcode
  unfold maxStack
  rw [hnonempty, if_neg (by decide)]
  cases hentries : entries code clauses with
  | error fault =>
    refine ⟨fun depth heq => (by cases heq), fun _ _ hboth => ?_⟩
    exact entries_eq_error hentries hboth.1
  | ok pending =>
    obtain ⟨hinside, hmem⟩ := entries_eq_ok hentries
    obtain ⟨hok, herror⟩ := explore_spec hcode (walk_start hmem)
    exact ⟨fun depth heq => ⟨hinside, hok depth heq⟩,
      fun fault heq hboth => herror fault heq hboth.2⟩

end Graph

end CilMetadata.StackDepth

import CilMetadata.Body.Labels

/-!
# The depth of the evaluation stack

Code is walked along all paths from its start, from the starts of handlers and from the starts of
filters. Each instruction has to be reached with one depth only; the largest depth before or after
an instruction is the depth that the method needs.

* `entries` are the places where paths start, `successors` the places an instruction leads to;
* `explore` walks the paths with a list of what is still to be visited;
* `maxStack` is the result for a list of instructions and clauses.

Depths are natural numbers; the result is that of an addition in 32 bits as long as all depths stay
below `2 ^ 32`.
-/

namespace CilMetadata.StackDepth

/-- A place in the code, by the number of its instruction, with the depth it is reached with. -/
abbrev Visit := Nat × Nat

/-- The place where a path starts at an offset. -/
def entry (code : Array Instruction) (offset : UInt32) (depth : Nat) : Except Fault Visit :=
  match MethodBody.indexAt? code offset with
  | some index => .ok (index, depth)
  | none => .error (.malformed (.handlerEntry offset))

/-- The places where the paths of a clause start: its handler and its filter. -/
def clauseEntries (code : Array Instruction) (clause : Clause) : Except Fault (List Visit) := do
  let handler ← entry code clause.handlerOffset clause.takesException.toNat
  match clause.filterStart? with
  | none => return [handler]
  | some start => return [handler, ← entry code start 1]

/-- The places where paths start. -/
def entries (code : Array Instruction) (clauses : List Clause) : Except Fault (List Visit) := do
  return (0, 0) :: (← clauses.mapM (clauseEntries code)).flatten

/-- The places that the targets of an instruction name. -/
def branchVisits (code : Array Instruction) (ins : Instruction) (depth : Nat) :
    Except Fault (List Visit) :=
  ins.targets.mapM fun target =>
    match MethodBody.indexAt? code target with
    | some index => .ok (index, depth)
    | none => .error (.malformed (.branchEntry ins.offset target))

/-- The place behind an instruction, if the code does not end with it. -/
def fallThrough (code : Array Instruction) (index depth : Nat) : List Visit :=
  if index + 1 < code.size then [(index + 1, depth)] else []

/-- The places that an instruction leads to, with the depth there. -/
def successors (code : Array Instruction) (index : Nat) (ins : Instruction) (after : Nat) :
    Except Fault (List Visit) :=
  match ins.opcode.flow with
  | .branch => branchVisits code ins after
  | .condBranch | .switch => return (← branchVisits code ins after) ++ fallThrough code index after
  | .leave => branchVisits code ins 0
  | .ret | .throw => .ok []
  | .next | .call | .modifier => .ok (fallThrough code index after)

/-- The stack effect of an instruction; a call of unknown effect counts as neutral. -/
def effect (ins : Instruction) : StackEffect := ins.stackEffect?.getD ⟨0, 0⟩

/-- How many instructions have not been reached yet. -/
def unreached (depths : Array (Option Nat)) : Nat := depths.toList.countP Option.isNone

theorem unreached_set {depths : Array (Option Nat)} {index : Nat} (h : index < depths.size)
    (unset : depths[index] = none) (depth : Nat) :
    unreached (depths.set index (some depth) h) < unreached depths := by
  have bound : index < depths.toList.length := by simpa using h
  have here : depths.toList[index] = none := by simpa using unset
  have present : none ∈ depths.toList := here ▸ List.getElem_mem bound
  have positive : 0 < depths.toList.countP Option.isNone :=
    List.countP_pos_iff.2 ⟨none, present, rfl⟩
  simp only [unreached, Array.toList_set]
  rw [List.countP_set bound, here]
  simp only [Option.isNone_none, Option.isNone_some, if_true, Bool.false_eq_true, if_false]
  omega

/-- Visit the pending places, the first one first; `depths` holds the depth of each instruction
that has been reached, and `highest` the largest depth so far. Depths are natural numbers and are
added without a bound: what an addition in 32 bits does with a depth of `2 ^ 32` or more, stop or
wrap round, is left out. -/
def explore (code : Array Instruction) (depths : Array (Option Nat)) (pending : List Visit)
    (highest : Nat) : Except Fault Nat :=
  match pending with
  | [] => .ok highest
  | (index, depth) :: rest =>
    if h : index < depths.size then
      match hd : depths[index], code[index]? with
      | _, none => explore code depths rest highest
      | some recorded, some ins =>
        -- Paths that meet with the same depth go on as one.
        if recorded = depth then explore code depths rest highest
        else .error (.stackImbalance ins.offset recorded depth)
      | none, some ins =>
        let change := effect ins
        if depth < change.pops then .error (.stackUnderflow ins.offset)
        else
          let after := depth - change.pops + change.pushes
          match successors code index ins after with
          | .error fault => .error fault
          | .ok next =>
            have := unreached_set h hd depth
            -- The last of the places that follow is visited next.
            explore code (depths.set index (some depth) h) (next.reverse ++ rest)
              (max highest (max depth after))
    else explore code depths rest highest
termination_by (unreached depths, pending.length)

/-- The largest depth of the evaluation stack, by the offsets as they stand. -/
def maxStack (code : Array Instruction) (clauses : List Clause) : Except Fault Nat :=
  if code.isEmpty then .ok 0
  else do
    let pending ← entries code clauses
    explore code (Array.replicate code.size none) pending.reverse 0

end CilMetadata.StackDepth

import CilMetadata.Body.Basic

/-!
# Labels

The targets of branches and the boundaries of clauses have to be offsets of instructions; the end
of a range may also be the end of the code.

* `MethodBody.badBranches` and `MethodBody.badBoundaries` list the labels that are wrong;
* `MethodBody.badLabels` is both lists together.
-/

namespace CilMetadata.MethodBody

/-- The place of the instruction that starts at an offset. -/
def indexAt? (code : Array Instruction) (offset : UInt32) : Option Nat :=
  code.findIdx? (·.offset == offset)

/-- Whether an instruction starts at an offset. -/
def startsAt (code : List Instruction) (offset : UInt32) : Bool :=
  code.any (·.offset == offset)

/-- The branch targets that start no instruction. -/
def badBranches (code : List Instruction) : List BadLabel :=
  code.flatMap fun ins =>
    (ins.targets.filter (!startsAt code ·)).map (BadLabel.branch ins.offset)

/-- The boundaries of a clause, and whether each may be the end of the code. -/
def boundaries (clause : Clause) : List (Boundary × UInt32 × Bool) :=
  [(.tryStart, clause.tryOffset, false), (.tryEnd, clause.tryEnd, true),
   (.handlerStart, clause.handlerOffset, false), (.handlerEnd, clause.handlerEnd, true)]
    ++ (clause.filterStart?.map fun start => (Boundary.filter, start, false)).toList

/-- The boundaries of one clause that are wrong in code of the given size. -/
def badBoundariesOf (code : List Instruction) (size : Nat) (index : Nat) (clause : Clause) :
    List BadLabel :=
  (boundaries clause).filterMap fun (boundary, target, mayEnd) =>
    if startsAt code target || (mayEnd && target.toNat == size) then none
    else some (.clause index boundary target)

/-- The boundaries of clauses that are wrong, the first of them having the given place. -/
def badBoundaries (code : List Instruction) (size : Nat) :
    (index : Nat) → List Clause → List BadLabel
  | _, [] => []
  | index, clause :: rest =>
    badBoundariesOf code size index clause ++ badBoundaries code size (index + 1) rest

/-- The labels of a body that are wrong by the offsets as they stand. -/
def badLabels (body : MethodBody) (size : Nat) : List BadLabel :=
  badBranches body.instructions ++ badBoundaries body.instructions size 0 body.clauses

end CilMetadata.MethodBody

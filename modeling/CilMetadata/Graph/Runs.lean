/-!
# Runs of rows

A list column gives the first row of a run; the run ends where the next one starts, the last one
behind the last row of the table.

* `Runs.range` is the run of an owner, `Runs.owner?` the owner of a row;
* `partitionPoint` finds, by halving, the place in a list up to which a condition holds.
-/

namespace CilMetadata

/-- Halve the stretch of `size` elements from `base` on until one is left: the half with the larger
places is kept when the condition holds at its start. -/
def bisect {α : Type} (p : α → Bool) (xs : Array α) (base size : Nat) : Nat :=
  if size ≤ 1 then base
  else
    let half := size / 2
    let next := if (xs[base + half]?).any p then base + half else base
    bisect p xs next (size - half)
termination_by size

/-- The place up to which a condition holds, in a list where it does not hold again later. -/
def partitionPoint {α : Type} (p : α → Bool) (xs : Array α) : Nat :=
  let base := bisect p xs 0 xs.size
  if (xs[base]?).any p then base + 1 else base

namespace Runs

/-- A number moved into a range. -/
def clamp (low high n : Nat) : Nat := max low (min n high)

/-- The first row of the run of the owner in place `index`, and the row behind the run; `stop` is
the row behind the last one of the table. -/
def range (starts : Array Nat) (index stop : Nat) : Nat × Nat :=
  let first := clamp 1 stop (starts[index]?.getD stop)
  (first, clamp first stop (starts[index + 1]?.getD stop))

/-- The rows of the run of the owner in place `index`. -/
def rows (starts : Array Nat) (index stop : Nat) : List Nat :=
  let (first, last) := range starts index stop
  List.range' first (last - first)

/-- The number, counted from 1, of the owner of a row. -/
def owner? (starts : Array Nat) (row stop : Nat) : Option Nat :=
  if row = 0 ∨ stop ≤ row then none
  else
    match partitionPoint (fun start => decide (start ≤ row)) starts with
    | 0 => none
    | owner => some owner

end Runs

end CilMetadata

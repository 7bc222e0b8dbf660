import CilMetadata.Fault
import CilMetadata.Text.Escaped

/-!
# Values computed on first use

A slot is empty until its value is asked for; then the value is computed and kept until the slot is
cleared. A computation may itself fill the slot: then what it filled in stays, and what it returned
is dropped. A computation that fails leaves the slot as it is.

Each kept value is an object of its own, so that two answers can be told to be the same one.

A slot is a part of a state, and a computation may change the other parts as well: the slots of one
graph share the graph, and what fills one of them may fill others on its way.

* `Kept` is a value with its identity;
* `LazySlot` is a slot of a state: `fill`, `force`, `clear`;
* `LazySlot.description` shows what a slot for texts holds.
-/

namespace CilMetadata

/-- A value with its identity. -/
structure Kept (α : Type) where
  value : α
  object : Nat
  deriving Repr, Inhabited

/-- A slot of a state: what is kept in it, how that is replaced, and the identity for the next
object. What has been put into a slot is kept in it. -/
structure LazySlot (σ α : Type) where
  kept? : σ → Option (Kept α)
  put : Option (Kept α) → σ → σ
  newObject : EStateM Fault σ Nat
  kept?_put : ∀ kept s, kept? (put kept s) = kept

namespace LazySlot

variable {σ α : Type} (slot : LazySlot σ α)

/-- Whether a slot holds a value. -/
def isFilled (s : σ) : Bool := (slot.kept? s).isSome

/-- Keep a value, unless the slot already holds one; the value that the slot holds. -/
def fill (value : α) : EStateM Fault σ (Kept α) := do
  match slot.kept? (← get) with
  | some winner => return winner
  | none =>
    let kept := { value, object := ← slot.newObject }
    modify (slot.put (some kept))
    return kept

/-- The value of a slot, which is computed first if the slot is empty. -/
def force (compute : EStateM Fault σ α) : EStateM Fault σ (Kept α) := do
  match slot.kept? (← get) with
  | some kept => return kept
  -- The slot is looked at again, for the computation may have filled it.
  | none => slot.fill (← compute)

/-- Empty a slot. -/
def clear (s : σ) : σ := slot.put none s

@[simp] theorem kept?_clear (s : σ) : slot.kept? (slot.clear s) = none := slot.kept?_put none s

/-- What a slot for texts holds, as text. -/
def description (slot : LazySlot σ String) (s : σ) : String :=
  match slot.kept? s with
  | some kept => "LazyField(" ++ Text.escaped kept.value ++ ")"
  | none => "LazyField(<uninit>)"

end LazySlot

end CilMetadata

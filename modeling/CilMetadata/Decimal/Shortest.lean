/-!
# The shortest decimal of a binary number

A binary floating point number stands for every real number that rounds to it. Of the decimals in
that interval the one with the fewest digits is taken; of two with equally few digits the nearer
one, and the upper one when both are equally near.

* `Layout` and `Layout.decode` read a bit pattern;
* `Rounding.on?` looks for a point of one decimal grid in the interval;
* `Rounding.shortest` takes the coarsest grid that has one.
-/

namespace CilMetadata.Decimal

/-- A binary interchange format: how many bits hold the fraction and how many the exponent. -/
structure Layout where
  fractionBits : Nat
  exponentBits : Nat

/-- The 32 bit format. -/
def Layout.single : Layout := ⟨23, 8⟩

/-- The 64 bit format. -/
def Layout.double : Layout := ⟨52, 11⟩

/-- A finite number as `significand * 2 ^ exponent`, with the interval that rounds to it. -/
structure Rounding where
  significand : Nat
  exponent : Int
  /-- Whether the next lower number is only half as far away as the next higher one. -/
  lowerGapHalved : Bool

/-- What a bit pattern stands for. -/
inductive Value
  | nan
  | infinite (negative : Bool)
  | zero (negative : Bool)
  | finite (negative : Bool) (magnitude : Rounding)

/-- The number that a bit pattern of the format stands for. -/
def Layout.decode (layout : Layout) (bits : Nat) : Value :=
  let fraction := bits % (1 <<< layout.fractionBits)
  let biased := (bits >>> layout.fractionBits) % (1 <<< layout.exponentBits)
  let negative := (bits >>> (layout.fractionBits + layout.exponentBits)) % 2 == 1
  let lowest : Int := 2 - (1 <<< (layout.exponentBits - 1) : Nat) - layout.fractionBits
  if biased == (1 <<< layout.exponentBits) - 1 then
    if fraction == 0 then .infinite negative else .nan
  else if biased == 0 then
    if fraction == 0 then .zero negative else .finite negative ⟨fraction, lowest, false⟩
  else
    .finite negative
      ⟨(1 <<< layout.fractionBits) + fraction, lowest + (biased - 1),
        fraction == 0 && biased != 1⟩

namespace Rounding

/-- The point of the grid `10 ^ power` nearest to the number, if one lies in its interval.

All numbers are scaled to natural numbers: the interval has its middle at `4 * significand` units
of `2 ^ (exponent - 2)`. Its ends belong to it when the significand is even. -/
def on? (r : Rounding) (power : Int) : Option Nat :=
  let binary := r.exponent - 2
  let scale := (1 <<< binary.toNat) * Nat.pow 10 (-power).toNat
  let unit := (1 <<< (-binary).toNat) * Nat.pow 10 power.toNat
  let middle := 4 * r.significand * scale
  let low := (4 * r.significand - (if r.lowerGapHalved then 1 else 2)) * scale
  let high := (4 * r.significand + 2) * scale
  let closed := r.significand % 2 == 0
  let below := middle / unit
  let above := below + 1
  let belowFits := if closed then low ≤ below * unit else low < below * unit
  let aboveFits := if closed then above * unit ≤ high else above * unit < high
  if belowFits then
    if aboveFits && (above * unit - middle ≤ middle - below * unit) then some above
    else some below
  else if aboveFits then some above
  else none

/-- The first hit on the grids `10 ^ power`, `10 ^ (power - 1)`, …, with its power. -/
def firstHit (r : Rounding) : (grids : Nat) → (power : Int) → Nat × Int
  | 0, power => (0, power)
  | grids + 1, power =>
    match r.on? power with
    | some digits => (digits, power)
    | none => r.firstHit grids (power - 1)

/-- The digits of the shortest decimal and the power of ten of the last one. -/
def shortest (r : Rounding) : Nat × Int := r.firstHit 720 330

end Rounding

end CilMetadata.Decimal

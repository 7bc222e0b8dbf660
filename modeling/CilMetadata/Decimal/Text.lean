import CilMetadata.Decimal.Shortest

/-!
# Floating point numbers in text

Two ways to write a floating point number, both with its shortest digits.

* `plain` is positional throughout: `1`, `0.25`, `100000000000000000000`;
* `marked` always shows that the number is no integer: it keeps a `.0`, and goes over to an
  exponent from `10 ^ 16` upwards and below `10 ^ -4`.
-/

namespace CilMetadata.Decimal

/-- The digits of a decimal with a point in the place that `power` demands. -/
def positional (digits : Nat) (power : Int) : String :=
  let ds := (toString digits).toList
  if 0 ≤ power then String.ofList (ds ++ List.replicate power.toNat '0')
  else
    let places := (-power).toNat
    let padded := List.replicate (places + 1 - ds.length) '0' ++ ds
    let whole := padded.length - places
    String.ofList (padded.take whole ++ '.' :: padded.drop whole)

/-- The digits of a decimal with the point after the first one and an exponent. -/
def scientific (digits : Nat) (power : Int) : String :=
  let ds := (toString digits).toList
  let exponent := power + (ds.length - 1 : Nat)
  match ds with
  | d :: e :: rest => String.ofList (d :: '.' :: e :: rest) ++ s!"e{exponent}"
  | _ => String.ofList ds ++ s!"e{exponent}"

/-- The sign of a number in text. -/
def signText (negative : Bool) : String := if negative then "-" else ""

/-- A number written positionally, whatever its size. -/
def plain (layout : Layout) (bits : Nat) : String :=
  match layout.decode bits with
  | .nan => "NaN"
  | .infinite negative => signText negative ++ "inf"
  | .zero negative => signText negative ++ "0"
  | .finite negative r =>
    let (digits, power) := r.shortest
    signText negative ++ positional digits power

/-- A number written so that it cannot be taken for an integer. -/
def marked (layout : Layout) (bits : Nat) : String :=
  match layout.decode bits with
  | .nan => "NaN"
  | .infinite negative => signText negative ++ "inf"
  | .zero negative => signText negative ++ "0.0"
  | .finite negative r =>
    let (digits, power) := r.shortest
    let leading := power + (toString digits).length - 1
    let body :=
      if 16 ≤ leading || leading < -4 then scientific digits power
      else if 0 ≤ power then positional digits power ++ ".0"
      else positional digits power
    signText negative ++ body

end CilMetadata.Decimal

/-!
# Numbers in a fixed number of bytes

* `toLE` and `ofLE` write and read the low byte first, `toBE` and `ofBE` the high byte first;
* `Scalar` names the number formats, and `Scalar.interpret` reads bits as a signed number.
-/

namespace CilMetadata.Bytes

/-- The low `width` bytes of a number, low byte first. -/
def toLE : (width : Nat) → Nat → List UInt8
  | 0, _ => []
  | width + 1, n => UInt8.ofNat n :: toLE width (n / 256)

/-- The number that bytes stand for, low byte first. -/
def ofLE : List UInt8 → Nat
  | [] => 0
  | byte :: rest => byte.toNat + 256 * ofLE rest

/-- The low `width` bytes of a number, high byte first. -/
def toBE (width n : Nat) : List UInt8 := (toLE width n).reverse

/-- The number that bytes stand for, high byte first. -/
def ofBE (bytes : List UInt8) : Nat := ofLE bytes.reverse

@[simp] theorem length_toLE (width n : Nat) : (toLE width n).length = width := by
  induction width generalizing n with
  | zero => rfl
  | succ width ih => simp [toLE, ih]

@[simp] theorem length_toBE (width n : Nat) : (toBE width n).length = width := by
  simp [toBE]

/-- Which end of a number comes first. -/
inductive Order
  | little | big
  deriving DecidableEq, Repr, Inhabited

/-- The bytes of a number in the given order. -/
def encode : Order → (width : Nat) → Nat → List UInt8
  | .little => toLE
  | .big => toBE

/-- The number that bytes stand for in the given order. -/
def decode : Order → List UInt8 → Nat
  | .little => ofLE
  | .big => ofBE

/-- A number format of fixed size. -/
inductive Scalar
  | u8 | i8 | u16 | i16 | u32 | i32 | u64 | i64 | f32 | f64
  deriving DecidableEq, Repr, Inhabited

namespace Scalar

/-- The format with the given name, if there is one. -/
def ofName? : String → Option Scalar
  | "u8" => some .u8
  | "i8" => some .i8
  | "u16" => some .u16
  | "i16" => some .i16
  | "u32" => some .u32
  | "i32" => some .i32
  | "u64" => some .u64
  | "i64" => some .i64
  | "f32" => some .f32
  | "f64" => some .f64
  | _ => none

/-- How many bytes a format takes. -/
def width : Scalar → Nat
  | .u8 | .i8 => 1
  | .u16 | .i16 => 2
  | .u32 | .i32 | .f32 => 4
  | .u64 | .i64 | .f64 => 8

/-- Whether a format holds signed integers. -/
def isSigned : Scalar → Bool
  | .i8 | .i16 | .i32 | .i64 => true
  | _ => false

/-- How many bit patterns a format has. -/
def patterns (format : Scalar) : Nat := 1 <<< (8 * format.width)

/-- The integer that bits of the format stand for; of floats the bits themselves. -/
def interpret (format : Scalar) (bits : Nat) : Int :=
  if format.isSigned && format.patterns ≤ 2 * bits then
    (bits : Int) - format.patterns
  else bits

/-- The bits of an integer in the format. -/
def bits (format : Scalar) (value : Int) : Nat := (value % format.patterns).toNat

end Scalar

end CilMetadata.Bytes

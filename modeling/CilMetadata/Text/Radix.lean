/-!
# Hexadecimal text

Numbers as they appear in messages and listings: lower-case digits, either bare or padded with
zeros on the left.

* `hex`, `hexPadded`: the digits alone;
* `hex0x`, `hex0xPadded`: the same digits after `0x`.
-/

namespace CilMetadata.Text

/-- The lower-case hexadecimal digits of a number, without leading zeros. -/
def hex (n : Nat) : String :=
  String.ofList (Nat.toDigits 16 n)

/-- Hexadecimal digits padded with zeros on the left to at least `width` digits. -/
def hexPadded (width n : Nat) : String :=
  let digits := Nat.toDigits 16 n
  String.ofList (List.replicate (width - digits.length) '0' ++ digits)

/-- A number in hexadecimal after `0x`. -/
def hex0x (n : Nat) : String := "0x" ++ hex n

/-- A number in hexadecimal after `0x`, with at least `width` digits. -/
def hex0xPadded (width n : Nat) : String := "0x" ++ hexPadded width n

end CilMetadata.Text

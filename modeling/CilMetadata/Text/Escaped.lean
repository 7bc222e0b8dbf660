import CilMetadata.Text.Radix
import CilMetadata.Text.Unprintable

/-!
# Escaped text

A text between double quotes in which every character that would not show, or would end the text,
is written as an escape.

* `escaped` quotes a text.
-/

namespace CilMetadata.Text

/-- A character inside quotes. -/
def escapedChar (c : Char) : String :=
  match c with
  | '\x00' => "\\0"
  | '\t' => "\\t"
  | '\n' => "\\n"
  | '\r' => "\\r"
  | '"' => "\\\""
  | '\\' => "\\\\"
  | c => if isUnprintable c then "\\u\x7b" ++ hex c.toNat ++ "\x7d" else String.singleton c

/-- A text between quotes. -/
def escaped (text : String) : String :=
  "\"" ++ String.join (text.toList.map escapedChar) ++ "\""

end CilMetadata.Text

import CilMetadata.Text.Blank

/-!
# Lexemes of type names

The text of a type name falls into marks of one or two characters and words. Blanks separate
lexemes and are otherwise ignored.

* `markOf?` tells marks apart, `reserved` lists the characters that end a word, and
  `mem_reserved_iff` says that these are the characters of marks;
* `scan` takes the next lexeme off a text, and `scan_shortens` says that it takes at least one
  character;
* `lexemes` is all of them, and `Lexer` hands them out one by one with a look ahead.
-/

namespace CilMetadata.TypeName

/-- The kinds of lexeme. -/
inductive Terminal
  | eof | identifier | number | star | plus | equals | dot | doubleDot | comma | ampersand
  | openBracket | closeBracket | ellipsis
  deriving DecidableEq, Repr, Inhabited

/-- The name of a kind of lexeme. -/
def Terminal.name : Terminal → String
  | .eof => "Eof"
  | .identifier => "Identifier"
  | .number => "Number"
  | .star => "Star"
  | .plus => "Plus"
  | .equals => "Equals"
  | .dot => "Dot"
  | .doubleDot => "DoubleDot"
  | .comma => "Comma"
  | .ampersand => "Ampersand"
  | .openBracket => "OpenBracket"
  | .closeBracket => "CloseBracket"
  | .ellipsis => "Ellipsis"

/-- A lexeme with its characters. -/
structure Lexeme where
  terminal : Terminal
  text : String
  deriving DecidableEq, Repr, Inhabited

/-- The lexeme that stands for the end of the text. -/
def Lexeme.eof : Lexeme := ⟨.eof, ""⟩

/-- The kind of mark that a character alone makes; a dot may be doubled and is left out. -/
def markOf? : Char → Option Terminal
  | '*' => some .star
  | '+' => some .plus
  | '=' => some .equals
  | ',' => some .comma
  | '&' => some .ampersand
  | '[' => some .openBracket
  | ']' => some .closeBracket
  | '…' => some .ellipsis
  | _ => none

/-- The characters that end a word without being blank. -/
def reserved : List Char := ['*', '+', '=', '.', ',', '&', '[', ']', '…']

/-- Whether a character may stand in a word. -/
def isWordChar (c : Char) : Bool := !Text.isBlank c && !reserved.contains c

/-- The characters that end a word are those that make a mark, alone or doubled. -/
theorem mem_reserved_iff {c : Char} : c ∈ reserved ↔ (markOf? c).isSome = true ∨ c = '.' := by
  unfold markOf?
  split <;> simp_all [reserved]

theorem isWordChar_iff {c : Char} :
    isWordChar c = true ↔ Text.isBlank c = false ∧ markOf? c = none ∧ c ≠ '.' := by
  have hreserved := @mem_reserved_iff c
  cases hmark : markOf? c <;> simp_all [isWordChar]

/-- Whether a character is a decimal digit. -/
def isDigit (c : Char) : Bool := '0' ≤ c && c ≤ '9'

/-- A word, which is a number if it has digits only. -/
def wordLexeme (cs : List Char) : Lexeme :=
  ⟨if cs.all isDigit then .number else .identifier, String.ofList cs⟩

/-- The next lexeme of a text and what follows it; nothing if only blanks are left. -/
def scan (text : List Char) : Option (Lexeme × List Char) :=
  match text.dropWhile Text.isBlank with
  | [] => none
  | '.' :: '.' :: rest => some (⟨.doubleDot, ".."⟩, rest)
  | '.' :: rest => some (⟨.dot, "."⟩, rest)
  | c :: rest =>
    match markOf? c with
    | some terminal => some (⟨terminal, String.ofList [c]⟩, rest)
    | none =>
      some (wordLexeme ((c :: rest).takeWhile isWordChar), (c :: rest).dropWhile isWordChar)

theorem length_dropWhile_le {α : Type} (p : α → Bool) (l : List α) :
    (l.dropWhile p).length ≤ l.length := by
  induction l with
  | nil => simp
  | cons a l ih =>
    rw [List.dropWhile_cons]
    split
    · exact Nat.le_succ_of_le ih
    · simp

/-- What follows a lexeme is shorter than the text it was taken off. A word is not empty, as what is
neither a blank nor a mark may stand in a word. -/
theorem scan_shortens {text rest : List Char} {lexeme : Lexeme}
    (h : scan text = some (lexeme, rest)) : rest.length < text.length := by
  have blanks := length_dropWhile_le Text.isBlank text
  unfold scan at h
  split at h
  · simp at h
  · next heq =>
    rw [heq] at blanks
    simp only [List.length_cons] at blanks
    cases h
    omega
  · next heq =>
    rw [heq] at blanks
    simp only [List.length_cons] at blanks
    cases h
    omega
  · next c tail _ hdot heq =>
    have first := List.head?_dropWhile_not Text.isBlank text
    rw [heq] at blanks first
    simp only [List.length_cons] at blanks
    split at h
    · cases h
      omega
    · next hmark =>
      have hword : isWordChar c = true := isWordChar_iff.2 ⟨first, hmark, hdot⟩
      have word := length_dropWhile_le isWordChar tail
      rw [List.dropWhile_cons_of_pos hword] at h
      cases h
      omega

/-- Every lexeme of a text. -/
def lexemes (text : List Char) : List Lexeme :=
  match h : scan text with
  | none => []
  | some (lexeme, rest) =>
    have := scan_shortens h
    lexeme :: lexemes rest
termination_by text.length

/-! ### One lexeme at a time -/

/-- A place in a text, with the lexeme that has been looked at, if one has. -/
structure Lexer where
  rest : List Char
  ahead : Option Lexeme := none
  deriving Repr, Inhabited

namespace Lexer

/-- A lexer at the start of a text. -/
def ofText (text : String) : Lexer := { rest := text.toList }

/-- Take the next lexeme. -/
def next (lexer : Lexer) : Lexeme × Lexer :=
  match lexer.ahead with
  | some lexeme => (lexeme, { lexer with ahead := none })
  | none =>
    match scan lexer.rest with
    | some (lexeme, rest) => (lexeme, { rest })
    | none => (.eof, { rest := [] })

/-- Look at the next lexeme without taking it. -/
def peek (lexer : Lexer) : Lexeme × Lexer :=
  let (lexeme, after) := lexer.next
  (lexeme, { after with ahead := some lexeme })

/-- Take up to `n` lexemes, the end among them, and look ahead before the ones that `looks` names
by their place. -/
def run (looks : List Nat) : (n place : Nat) → Lexer → List Lexeme
  | 0, _, _ => []
  | n + 1, place, lexer =>
    let lexer := if looks.contains place then lexer.peek.2.peek.2 else lexer
    let (lexeme, after) := lexer.next
    if lexeme.terminal = .eof then [lexeme] else lexeme :: run looks n (place + 1) after

/-- All lexemes of a text, the end among them, with looks ahead on the way. -/
def all (looks : List Nat) (text : String) : List Lexeme :=
  run looks (text.length + 1) 0 (ofText text)

end Lexer

end CilMetadata.TypeName

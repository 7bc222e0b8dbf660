import CilMetadata.Fault
import CilMetadata.TypeName.Basic
import CilMetadata.TypeName.Lexer

/-!
# Reading type names

A type name is read off its lexemes from left to right: words with dots between them, nested names
after pluses, suffixes, and after a comma an assembly with its properties.

* `wordsAfter`, `readSuffixes`, `readAssembly` read the parts, each returning the lexemes that
  follow;
* `TypeName.parse` reads a whole text.
-/

namespace CilMetadata.TypeName

/-- Whether a lexeme is a word. -/
def Lexeme.isWord (lexeme : Lexeme) : Bool :=
  lexeme.terminal == .identifier || lexeme.terminal == .number

/-- The fault for a word that is missing. -/
def missingWord (found : List Lexeme) : Fault :=
  .malformed (.expectedIdentifier ((found.head?.getD .eof).text))

/-- One word. -/
def word : List Lexeme → Except Fault (String × List Lexeme)
  | lexeme :: rest =>
    if lexeme.isWord then .ok (lexeme.text, rest) else .error (missingWord [lexeme])
  | [] => .error (missingWord [])

/-- The words that follow separators. -/
def wordsAfter (separator : Terminal) : List Lexeme → Except Fault (List String × List Lexeme)
  | [] => .ok ([], [])
  | [lexeme] =>
    if lexeme.terminal = separator then .error (missingWord []) else .ok ([], [lexeme])
  | lexeme :: next :: rest =>
    if lexeme.terminal = separator then
      if next.isWord then do
        let (words, following) ← wordsAfter separator rest
        return (next.text :: words, following)
      else .error (missingWord [next])
    else .ok ([], lexeme :: next :: rest)

mutual

/-- The suffixes of a name. -/
def readSuffixes : List Lexeme → Except Fault (List Suffix × List Lexeme)
  | [] => .ok ([], [])
  | lexeme :: rest =>
    match lexeme.terminal with
    | .star => do
      let (more, following) ← readSuffixes rest
      return (.pointer :: more, following)
    | .ampersand => do
      let (more, following) ← readSuffixes rest
      return (.byRef :: more, following)
    | .openBracket => arraySuffix 1 false rest
    | _ => .ok ([], lexeme :: rest)

/-- The rest of an array suffix behind its bracket, and the suffixes that follow it. -/
def arraySuffix (rank : Nat) (bounded : Bool) :
    List Lexeme → Except Fault (List Suffix × List Lexeme)
  | [] => .error (.malformed (.arraySpecifier ""))
  | lexeme :: rest =>
    match lexeme.terminal with
    | .comma => arraySuffix (rank + 1) bounded rest
    | .star => arraySuffix rank true rest
    | .closeBracket => do
      let (more, following) ← readSuffixes rest
      return ((if rank = 1 ∧ bounded = false then .szArray else .array rank) :: more, following)
    | _ => .error (.malformed (.arraySpecifier lexeme.text))

end

/-- Whether a lexeme belongs to the name of an assembly or to the value of a property. -/
def Lexeme.isFree (lexeme : Lexeme) : Bool :=
  lexeme.terminal != .comma && lexeme.terminal != .closeBracket

/-- The characters of lexemes, without the blanks between them. -/
def joined (found : List Lexeme) : String := String.join (found.map Lexeme.text)

/-- The properties of an assembly. -/
def readProperties (found : List Lexeme) :
    Except Fault (List (String × String) × List Lexeme) :=
  match found with
  | [] => .ok ([], [])
  | lexeme :: rest =>
    if lexeme.terminal = .comma then
      match rest with
      | [] => .error (missingWord [])
      | key :: rest =>
        if key.isWord then
          match rest with
          | [] => .error (.malformed (.expectedEquals key.text))
          | equals :: rest =>
            if equals.terminal = .equals then do
              let value := joined (rest.takeWhile Lexeme.isFree)
              let (more, following) ← readProperties (rest.dropWhile Lexeme.isFree)
              return ((key.text, value) :: more, following)
            else .error (.malformed (.expectedEquals key.text))
        else .error (missingWord [key])
    else .ok ([], lexeme :: rest)
termination_by found.length
decreasing_by
  have := length_dropWhile_le Lexeme.isFree rest
  simp only [List.length_cons]
  omega

/-- The assembly behind a comma, if there is one. -/
def readAssembly : List Lexeme → Except Fault (Option Assembly × List Lexeme)
  | [] => .ok (none, [])
  | lexeme :: rest =>
    if lexeme.terminal = .comma then
      let name := joined (rest.takeWhile Lexeme.isFree)
      if name.isEmpty then .error (.malformed .expectedAssembly)
      else do
        let (properties, following) ← readProperties (rest.dropWhile Lexeme.isFree)
        return (some { name, properties }, following)
    else .ok (none, lexeme :: rest)

/-- Words as a namespace and a name, which is the last of them. -/
def splitLast : (first : String) → List String → Option String × String
  | first, [] => (none, first)
  | first, next :: rest =>
    match splitLast next rest with
    | (some qualifier, name) => (some (first ++ "." ++ qualifier), name)
    | (none, name) => (some first, name)

/-- A type name and the lexemes that follow it. -/
def ofLexemes (found : List Lexeme) : Except Fault (TypeName × List Lexeme) := do
  let (first, found) ← word found
  let (more, found) ← wordsAfter .dot found
  let (nested, found) ← wordsAfter .plus found
  let (suffixes, found) ← readSuffixes found
  let (assembly, found) ← readAssembly found
  let (qualifier, name) := splitLast first more
  return ({ qualifier, name, nested, suffixes, assembly }, found)

/-- Read a type name, which has to be the whole text. -/
def parse (text : String) : Except Fault TypeName := do
  match ← ofLexemes (lexemes text.toList) with
  | (name, []) => return name
  | (_, lexeme :: _) => throw (.malformed (.trailingText lexeme.text text))

end CilMetadata.TypeName

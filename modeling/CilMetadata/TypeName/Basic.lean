/-!
# Type names

The name of a type as reflection writes it: a namespace, a name, names of nested types, suffixes
for pointers, references and arrays, and an assembly.

* `TypeName` and its parts;
* `TypeName.text` writes a name.
-/

namespace CilMetadata

/-- A type constructor behind a name. -/
inductive TypeName.Suffix
  | pointer
  | byRef
  | szArray
  | array (rank : Nat)
  deriving DecidableEq, Repr, Inhabited

/-- An assembly with properties such as its version. -/
structure TypeName.Assembly where
  name : String
  properties : List (String × String) := []
  deriving DecidableEq, Repr, Inhabited

/-- The name of a type. -/
structure TypeName where
  qualifier : Option String := none
  name : String
  /-- The names of nested types, outermost first. -/
  nested : List String := []
  suffixes : List TypeName.Suffix := []
  assembly : Option TypeName.Assembly := none
  deriving DecidableEq, Repr, Inhabited

namespace TypeName

/-- The name of the outermost type after its namespace. -/
def fullName (t : TypeName) : String :=
  match t.qualifier with
  | some qualifier => qualifier ++ "." ++ t.name
  | none => t.name

/-- A suffix in text; the array of rank one that is no vector is marked by a star. -/
def Suffix.text : Suffix → String
  | .pointer => "*"
  | .byRef => "&"
  | .szArray => "[]"
  | .array 1 => "[*]"
  | .array rank => "[" ++ String.ofList (List.replicate (rank - 1) ',') ++ "]"

/-- A property of an assembly in text, with a comma before it. -/
def propertyText (property : String × String) : String :=
  ", " ++ property.1 ++ "=" ++ property.2

/-- An assembly in text. -/
def Assembly.text (a : Assembly) : String :=
  a.name ++ String.join (a.properties.map propertyText)

/-- A name in text. -/
def text (t : TypeName) : String :=
  t.fullName ++ String.join (t.nested.map ("+" ++ ·)) ++ String.join (t.suffixes.map Suffix.text)
    ++ (match t.assembly with
      | some assembly => ", " ++ assembly.text
      | none => "")

end TypeName

end CilMetadata

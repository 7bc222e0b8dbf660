import CilMetadata.Token

/-!
# Relocations

When rows are put into their final order, tokens that were handed out before have to be replaced.
A relocation knows the final token of every token that was handed out, and, apart from these, of
the tokens that rows had in the module they come from.

* `TokenMap` is a map with distinct keys: `insert`, `insertAll`, `find?`, `merge`, `equiv`;
* `find?_insert` says what is found after an insertion;
* `Relocation.resolve` is the final token, or the token itself where none is known.
-/

namespace CilMetadata

/-- A map from tokens to tokens, as pairs with distinct first parts. -/
structure TokenMap where
  pairs : List (Token × Token) := []
  deriving Repr, Inhabited

namespace TokenMap

/-- What a token is mapped to. -/
def find? (map : TokenMap) (token : Token) : Option Token := map.pairs.lookup token

/-- Map a token, whatever it was mapped to before. -/
def insert (map : TokenMap) (token target : Token) : TokenMap :=
  { pairs := (token, target) :: map.pairs.filter (·.1 != token) }

/-- Map the first part of every pair to the second one, in order. -/
def insertAll (map : TokenMap) (pairs : List (Token × Token)) : TokenMap :=
  pairs.foldl (fun map (token, target) => map.insert token target) map

/-- Take over all pairs of another map. -/
def merge (map other : TokenMap) : TokenMap := map.insertAll other.pairs

/-- Whether two maps agree on every token. -/
def equiv (map other : TokenMap) : Bool :=
  map.pairs.length == other.pairs.length
    && map.pairs.all fun (token, target) => other.find? token == some target

/-- How many tokens are mapped. -/
def size (map : TokenMap) : Nat := map.pairs.length

theorem lookup_filter_ne {token other : Token} (h : other ≠ token) (pairs : List (Token × Token)) :
    (pairs.filter (·.1 != token)).lookup other = pairs.lookup other := by
  induction pairs with
  | nil => rfl
  | cons pair rest ih =>
    obtain ⟨key, target⟩ := pair
    by_cases here : key = token
    · have missed : (other == key) = false := beq_false_of_ne (here ▸ h)
      simp [here ▸ missed, here, List.lookup_cons, ih]
    · simp [here, List.lookup_cons, ih]

theorem find?_insert (map : TokenMap) (token target other : Token) :
    (map.insert token target).find? other =
      if other = token then some target else map.find? other := by
  by_cases h : other = token
  · simp [find?, insert, h]
  · have missed : (other == token) = false := beq_false_of_ne h
    simp [find?, insert, List.lookup_cons, h, missed, lookup_filter_ne h]

end TokenMap

/-- Where tokens go. -/
structure Relocation where
  /-- The final tokens of tokens that were handed out. -/
  issued : TokenMap := {}
  /-- The final tokens of rows by their tokens in the module they come from. -/
  source : TokenMap := {}
  deriving Repr, Inhabited

namespace Relocation

/-- The final token of a token, or the token itself. -/
def resolve (moves : Relocation) (token : Token) : Token :=
  (moves.issued.find? token).getD token

/-- How many tokens were handed out and then changed. -/
def moved (moves : Relocation) : Nat :=
  moves.issued.pairs.countP fun (token, target) => token != target

/-- How many tokens were handed out. -/
def size (moves : Relocation) : Nat := moves.issued.size

/-- Whether no token was handed out. -/
def isEmpty (moves : Relocation) : Bool := moves.issued.pairs.isEmpty

/-- Take over everything that another relocation knows. -/
def merge (moves other : Relocation) : Relocation where
  issued := moves.issued.merge other.issued
  source := moves.source.merge other.source

/-- Whether two relocations know the same. -/
def equiv (moves other : Relocation) : Bool :=
  moves.issued.equiv other.issued && moves.source.equiv other.source

end Relocation

end CilMetadata

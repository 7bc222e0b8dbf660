import CilMetadata.Token

/-!
# Expansion of type specifications

Where a modifier names a type specification, its blob can be decoded in place. The specifications
that are being expanded on the way from the root are kept, so that none is expanded inside itself.

* `Resolver` says which tokens name types and where the blobs of specifications are;
* `Expansions` is the set of specifications being expanded: `enter`, `leave`, `contains`.
-/

namespace CilMetadata

/-- What a signature needs to know beyond its own bytes. -/
structure Resolver where
  /-- Whether a token names an existing type. -/
  isType : Token → Bool
  /-- The blob of a type specification. -/
  specBlob? : Token → Option (Array UInt8)

/-- The type specifications that are being expanded, each one once. -/
structure Expansions where
  active : List Token := []
  deriving Repr, Inhabited

namespace Expansions

/-- Whether a specification is being expanded. -/
def contains (set : Expansions) (token : Token) : Bool := set.active.contains token

/-- Begin to expand a specification. -/
def enter (set : Expansions) (token : Token) : Expansions :=
  if set.contains token then set else { active := token :: set.active }

/-- Finish the expansion of a specification. -/
def leave (set : Expansions) (token : Token) : Expansions :=
  { active := set.active.filter (· != token) }

/-- The specifications of a list. -/
def ofList (tokens : List Token) : Expansions := tokens.foldl enter {}

end Expansions

end CilMetadata

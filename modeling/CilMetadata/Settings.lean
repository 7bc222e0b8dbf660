import CilMetadata.Signature.Decode

/-!
# Settings

How a module is loaded and how method bodies are built.

* `Settings` holds the choices for loading modules and building bodies;
* `Settings.standard`, `strict`, `minimal` are the settings with a name, and `Settings.named`
  finds them by it.
-/

namespace CilMetadata

/-- The choices for loading a module and building method bodies. -/
structure Settings where
  /-- Look up the tokens in code, and the effects of calls. -/
  annotatesCalls : Bool := true
  /-- Look up the types of local variables. -/
  readsLocals : Bool := true
  nestingLimit : Nat := defaultMaxDepth
  /-- Refuse a module with references past the end of a table. -/
  strictReferences : Bool := false
  computesDepth : Bool := true
  checksLabels : Bool := true
  deriving DecidableEq, Repr, Inhabited

namespace Settings

/-- The settings where none are given; they are also the lenient ones. -/
def standard : Settings := {}

/-- The settings that refuse dangling references. -/
def strict : Settings := { strictReferences := true }

/-- The settings that do no more than they have to. -/
def minimal : Settings where
  annotatesCalls := false
  readsLocals := false
  computesDepth := false
  checksLabels := false

/-- The settings with the given name; any other name stands for the standard ones. -/
def named : String → Settings
  | "strict" => strict
  | "minimal" => minimal
  | _ => standard

end Settings

end CilMetadata

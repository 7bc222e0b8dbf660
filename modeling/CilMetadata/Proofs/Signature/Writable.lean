import CilMetadata.Proofs.Bytes.Compressed
import CilMetadata.Signature.Any
import Mathlib.Tactic.Ring

/-!
# The signatures that a blob can hold

A blob has no form for some trees: for nodes that could not be decoded, for type specifications
outside of modifiers, for references to nothing, and for numbers too large to compress. The
predicates `Writable` leave these out.

* `TypeSig.nesting` is the height of a tree, and with it the levels that a reading needs;
* `TypeSig.Writable`, `MethodSig.Writable`, …: the trees and headed signatures with a blob;
* `Signature.Writable` and `Signature.nesting` choose by kind.
-/

namespace CilMetadata

/-- Whether a token names a row, existing or not, of one of several tables. -/
def Token.NamesRowOf (tables : List TableKind) (token : Token) : Prop :=
  token.isNull = false ∧ ∃ table ∈ tables, token.isIn table = true

instance (tables : List TableKind) (token : Token) : Decidable (token.NamesRowOf tables) :=
  inferInstanceAs (Decidable (_ ∧ _))

/-- The length of a list that compresses is not too long for a count. -/
theorem SigEncoder.count_of_le {n : Nat} (h : n ≤ compressedLimit) :
    SigEncoder.count n = Encoder.compressed n :=
  if_pos (h.trans_lt (by decide))

/-- The array shapes whose numbers all compress. -/
structure ArrayShape.Writable (shape : ArrayShape) : Prop where
  rank : shape.rank ≤ compressedLimit
  sizeCount : shape.sizes.length ≤ compressedLimit
  sizes : ∀ size ∈ shape.sizes, size ≤ compressedLimit
  boundCount : shape.lowerBounds.length ≤ compressedLimit
  lowerBounds : ∀ bound ∈ shape.lowerBounds, -2 ^ 28 ≤ bound ∧ bound < 2 ^ 28

theorem ArrayShape.writable_iff {shape : ArrayShape} :
    shape.Writable ↔ shape.rank ≤ compressedLimit ∧ shape.sizes.length ≤ compressedLimit ∧
      (∀ size ∈ shape.sizes, size ≤ compressedLimit) ∧
      shape.lowerBounds.length ≤ compressedLimit ∧
      ∀ bound ∈ shape.lowerBounds, -2 ^ 28 ≤ bound ∧ bound < 2 ^ 28 :=
  ⟨fun ⟨h₁, h₂, h₃, h₄, h₅⟩ => ⟨h₁, h₂, h₃, h₄, h₅⟩,
    fun ⟨h₁, h₂, h₃, h₄, h₅⟩ => ⟨h₁, h₂, h₃, h₄, h₅⟩⟩

instance (shape : ArrayShape) : Decidable shape.Writable :=
  decidable_of_iff _ ArrayShape.writable_iff.symm

namespace TypeSig

mutual

/-- The height of a tree; a single node has height 1. -/
def nesting : TypeSig → Nat
  | .primitive _ | .named _ _ | .generic _ | .sentinel | .invalid _ => 1
  | .wrapped _ inner => inner.nesting + 1
  | .array base _ => base.nesting + 1
  | .applied _ _ arguments => nestingOfAll arguments + 1
  | .modified _ modifier base => max modifier.nesting base.nesting + 1
  | .typeSpec _ expansion => expansion.nesting + 1

/-- The greatest height among several trees. -/
def nestingOfAll : List TypeSig → Nat
  | [] => 0
  | type :: rest => max type.nesting (nestingOfAll rest)

end

theorem nesting_pos (sig : TypeSig) : 0 < sig.nesting := by
  cases sig <;> simp [nesting]

/-- The modifiers that a blob can name: types by the token of a definition, a reference or a
specification. -/
def IsModifier : TypeSig → Prop
  | .named .cls token => token.NamesRowOf [.typeDef, .typeRef, .typeSpec]
  | _ => False

instance : (sig : TypeSig) → Decidable sig.IsModifier
  | .named .cls token =>
    inferInstanceAs (Decidable (token.NamesRowOf [.typeDef, .typeRef, .typeSpec]))
  | .named .valueType _ | .primitive _ | .wrapped _ _ | .array _ _ | .generic _ | .applied _ _ _
  | .modified _ _ _ | .typeSpec _ _ | .sentinel | .invalid _ => inferInstanceAs (Decidable False)

mutual

/-- The trees that a blob can hold. -/
def Writable : TypeSig → Prop
  | .primitive _ | .sentinel => True
  | .named _ token => token.NamesRowOf [.typeDef, .typeRef]
  | .wrapped _ inner => inner.Writable
  | .array base shape => base.Writable ∧ shape.Writable
  | .generic param => param.index ≤ compressedLimit
  | .applied _ definition arguments =>
    definition.NamesRowOf [.typeDef, .typeRef] ∧ arguments.length ≤ compressedLimit
      ∧ AllWritable arguments
  | .modified _ modifier base => modifier.IsModifier ∧ base.Writable
  | .typeSpec _ _ | .invalid _ => False

/-- Whether a blob can hold each of several trees. -/
def AllWritable : List TypeSig → Prop
  | [] => True
  | type :: rest => type.Writable ∧ AllWritable rest

end

mutual

/-- Whether a blob can hold a tree is decided node by node. -/
def decideWritable : (sig : TypeSig) → Decidable sig.Writable
  | .primitive _ | .sentinel => inferInstanceAs (Decidable True)
  | .named _ token => inferInstanceAs (Decidable (token.NamesRowOf [.typeDef, .typeRef]))
  | .wrapped _ inner => decideWritable inner
  | .array base shape =>
    have := decideWritable base
    inferInstanceAs (Decidable (base.Writable ∧ shape.Writable))
  | .generic param => inferInstanceAs (Decidable (param.index ≤ compressedLimit))
  | .applied _ definition arguments =>
    have := decideAllWritable arguments
    inferInstanceAs (Decidable (definition.NamesRowOf [.typeDef, .typeRef]
      ∧ arguments.length ≤ compressedLimit ∧ AllWritable arguments))
  | .modified _ modifier base =>
    have := decideWritable base
    inferInstanceAs (Decidable (modifier.IsModifier ∧ base.Writable))
  | .typeSpec _ _ | .invalid _ => inferInstanceAs (Decidable False)

/-- Whether a blob can hold each of several trees is decided tree by tree. -/
def decideAllWritable : (sigs : List TypeSig) → Decidable (AllWritable sigs)
  | [] => inferInstanceAs (Decidable True)
  | sig :: rest =>
    have := decideWritable sig
    have := decideAllWritable rest
    inferInstanceAs (Decidable (sig.Writable ∧ AllWritable rest))

end

instance (sig : TypeSig) : Decidable sig.Writable := decideWritable sig

instance (sigs : List TypeSig) : Decidable (AllWritable sigs) := decideAllWritable sigs

end TypeSig

open TypeSig

/-- The method signatures that a blob can hold. A fixed parameter must not be a sentinel, which
would start the variable arguments. -/
structure MethodSig.Writable (sig : MethodSig) : Prop where
  convention : sig.convention ≤ Header.lastConvention
  genericCount : sig.genericCount ≤ compressedLimit
  count : sig.params.length + sig.varargs.length ≤ compressedLimit
  returnType : sig.returnType.Writable
  params : AllWritable sig.params
  varargs : AllWritable sig.varargs
  fixed : ∀ param ∈ sig.params, param ≠ .sentinel

/-- The property signatures that a blob can hold. -/
structure PropertySig.Writable (sig : PropertySig) : Prop where
  count : sig.params.length ≤ compressedLimit
  propertyType : sig.propertyType.Writable
  params : AllWritable sig.params

/-- The signatures of any kind that a blob can hold. -/
def Signature.Writable : Signature → Prop
  | .type sig => TypeSig.Writable sig
  | .method sig => sig.Writable
  | .field sig => sig.fieldType.Writable
  | .property sig => sig.Writable
  | .locals sig => sig.locals.length ≤ compressedLimit ∧ AllWritable sig.locals
  | .methodSpec sig => sig.arguments.length ≤ compressedLimit ∧ AllWritable sig.arguments

/-- The greatest height among the trees of a signature. -/
def Signature.nesting : Signature → Nat
  | .type sig => TypeSig.nesting sig
  | .method sig => nestingOfAll (sig.returnType :: sig.params ++ sig.varargs)
  | .field sig => sig.fieldType.nesting
  | .property sig => nestingOfAll (sig.propertyType :: sig.params)
  | .locals sig => nestingOfAll sig.locals
  | .methodSpec sig => nestingOfAll sig.arguments

end CilMetadata

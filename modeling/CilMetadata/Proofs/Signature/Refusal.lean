import CilMetadata.Proofs.Signature.RoundTrip
import Mathlib.Tactic.MkIffOfInductiveProp

/-!
# What the writer of signatures refuses

The writer refuses a tree where it meets a node without a form, a token of a table that has no
types, or a number that does not compress. It does not look at the row of a reference, nor whether
the reference stands where a specification may.

* `TypeSig.canonical` is a tree with its modifiers in the form that a reading gives them;
* `TypeSig.Referable` and `MethodSig.Representable` hold of what the writer does not look at;
* `Encoder.Requires e p` says that `e` succeeds only if `p` holds. What is written can be held by a
  blob exactly when it is referable, or representable (`SigEncoder.writable_iff_of_type`,
  `writable_iff_of_method`).
-/

namespace CilMetadata

open TypeSig

/-! ### What holds of whatever is written -/

namespace Encoder

variable {p q : Prop}

/-- The encoder succeeds only if `p` holds. -/
def Requires (e : Encoder Unit) (p : Prop) : Prop :=
  ∀ out out', e out = .ok () out' → p

theorem requires_trivial (e : Encoder Unit) : Requires e True := fun _ _ _ => trivial

theorem requires_throw (fault : Fault) (p : Prop) : Requires (throw fault) p := by
  intro out out' hout
  cases hout

theorem Requires.mono {e : Encoder Unit} (h : Requires e p) (himp : p → q) : Requires e q :=
  fun out out' hout => himp (h out out' hout)

theorem Requires.bind {e e' : Encoder Unit} (h : Requires e p) (h' : Requires e' q) :
    Requires (do e; e') (p ∧ q) := by
  intro out out' hout
  obtain ⟨⟨⟩, mid, hfirst, hsecond⟩ := bind_eq_ok.1 hout
  exact ⟨h out mid hfirst, h' mid out' hsecond⟩

/-- What comes first requires nothing of interest. -/
theorem Requires.behind {e e' : Encoder Unit} (h : Requires e' p) : Requires (do e; e') p :=
  ((requires_trivial e).bind h).mono And.right

theorem Requires.of_bytes? {e : Encoder Unit} {blob : Array UInt8} (h : Requires e p)
    (hblob : e.bytes? = .ok blob) : p := by
  unfold bytes? at hblob
  split at hblob
  next out hout => exact h #[] out hout
  next => cases hblob

theorem requires_each {α : Type} {encode : α → Encoder Unit} {p : α → Prop}
    (h : ∀ item, Requires (encode item) (p item)) (items : List α) :
    Requires (each encode items) (∀ item ∈ items, p item) := by
  induction items with
  | nil => exact (requires_trivial _).mono fun _ => nofun
  | cons item rest ih => exact ((h item).bind ih).mono List.forall_mem_cons.2

theorem requires_compressed (value : Nat) :
    Requires (compressed value) (value ≤ compressedLimit) := by
  intro out out' hout
  unfold compressed Width.ofUnsigned? at hout
  unfold compressedLimit
  split_ifs at hout <;> first | omega | cases hout

theorem requires_compressedSigned (value : Int) :
    Requires (compressedSigned value) (-2 ^ 28 ≤ value ∧ value < 2 ^ 28) := by
  intro out out' hout
  unfold compressedSigned Width.ofSigned? at hout
  split_ifs at hout <;> first | omega | cases hout

end Encoder

/-! ### Canonical trees -/

namespace TypeSig

/-- A modifier in the form that a reading without a resolver gives it. -/
def canonicalModifier (modifier : TypeSig) : TypeSig :=
  match SigEncoder.modifierToken modifier with
  | .ok token => .named .cls token
  | .error _ => modifier

mutual

/-- A tree with all its modifiers in the form that a reading without a resolver gives them. -/
def canonical : TypeSig → TypeSig
  | .primitive type => .primitive type
  | .named form token => .named form token
  | .wrapped wrapper inner => .wrapped wrapper inner.canonical
  | .array base shape => .array base.canonical shape
  | .generic param => .generic param
  | .applied form definition arguments => .applied form definition (canonicalAll arguments)
  | .modified required modifier base =>
    .modified required (canonicalModifier modifier) base.canonical
  | .typeSpec token expansion => .typeSpec token expansion
  | .sentinel => .sentinel
  | .invalid cause => .invalid cause

/-- Several trees in canonical form. -/
def canonicalAll : List TypeSig → List TypeSig
  | [] => []
  | sig :: rest => sig.canonical :: canonicalAll rest

end

mutual

/-- Whether all references of a tree are to types, and none of them to a specification but in a
modifier. -/
def Referable : TypeSig → Prop
  | .primitive _ | .generic _ | .sentinel | .typeSpec _ _ | .invalid _ => True
  | .named _ token => token.isNull = false ∧ token.isIn .typeSpec = false
  | .wrapped _ inner => inner.Referable
  | .array base _ => base.Referable
  | .applied _ definition arguments =>
    (definition.isNull = false ∧ definition.isIn .typeSpec = false) ∧ AllReferable arguments
  | .modified _ modifier base =>
    (∀ token, SigEncoder.modifierToken modifier = .ok token → token.isNull = false) ∧
      base.Referable

/-- Whether several trees are referable. -/
def AllReferable : List TypeSig → Prop
  | [] => True
  | sig :: rest => sig.Referable ∧ AllReferable rest

end

theorem canonicalAll_eq_map (sigs : List TypeSig) : canonicalAll sigs = sigs.map canonical := by
  induction sigs with
  | nil => rfl
  | cons sig rest ih => rw [canonicalAll, List.map_cons, ih]

theorem length_canonicalAll (sigs : List TypeSig) : (canonicalAll sigs).length = sigs.length := by
  rw [canonicalAll_eq_map, List.length_map]

theorem canonical_eq_sentinel_iff {sig : TypeSig} :
    sig.canonical = .sentinel ↔ sig = .sentinel := by
  cases sig <;> simp [canonical]

theorem canonicalAll_ne_sentinel_iff {sigs : List TypeSig} :
    (∀ sig ∈ canonicalAll sigs, sig ≠ .sentinel) ↔ ∀ sig ∈ sigs, sig ≠ .sentinel := by
  simp [canonicalAll_eq_map, canonical_eq_sentinel_iff]

end TypeSig

namespace MethodSig

/-- A method with its types in canonical form. -/
def canonical (sig : MethodSig) : MethodSig :=
  { sig with
    returnType := sig.returnType.canonical
    params := canonicalAll sig.params
    varargs := canonicalAll sig.varargs }

/-- A method whose types are referable, with a calling convention that there is, and no sentinel
but that of the variable arguments. -/
@[mk_iff]
structure Representable (sig : MethodSig) : Prop where
  convention : sig.convention ≤ Header.lastConvention
  returnType : sig.returnType.Referable
  params : AllReferable sig.params
  varargs : AllReferable sig.varargs
  fixed : ∀ param ∈ sig.params, param ≠ .sentinel

end MethodSig

/-! ### References -/

theorem Token.NamesRowOf.of_plain {token : Token}
    (h : token.NamesRowOf [.typeDef, .typeRef, .typeSpec]) (hspec : token.isIn .typeSpec = false) :
    token.NamesRowOf [.typeDef, .typeRef] := by
  obtain ⟨hrow, table, hmem, hin⟩ := h
  refine ⟨hrow, table, ?_, hin⟩
  have hne : table ≠ .typeSpec := by
    rintro rfl
    rw [hin] at hspec
    cases hspec
  simpa [hne] using hmem

namespace TypeSig

mutual

/-- What a blob can hold is referable. -/
theorem referable_of_writable (sig : TypeSig) (h : sig.canonical.Writable) : sig.Referable := by
  match sig with
  | .primitive _ | .generic _ | .sentinel => trivial
  | .named form token =>
    have hnames : token.NamesRowOf [.typeDef, .typeRef] := h
    exact ⟨hnames.1, hnames.isIn_typeSpec⟩
  | .wrapped wrapper inner => exact referable_of_writable inner h
  | .array base shape => exact referable_of_writable base h.1
  | .applied form definition arguments =>
    have hnames : definition.NamesRowOf [.typeDef, .typeRef] := h.1
    exact ⟨⟨hnames.1, hnames.isIn_typeSpec⟩, allReferable_of_writable arguments h.2.2⟩
  | .modified required modifier base =>
    refine ⟨fun token htoken => ?_, referable_of_writable base h.2⟩
    have hmodifier := h.1
    rw [canonicalModifier, htoken] at hmodifier
    exact hmodifier.1
  | .typeSpec _ _ | .invalid _ => exact h.elim

theorem allReferable_of_writable (sigs : List TypeSig) (h : AllWritable (canonicalAll sigs)) :
    AllReferable sigs := by
  match sigs with
  | [] => trivial
  | sig :: rest => exact ⟨referable_of_writable sig h.1, allReferable_of_writable rest h.2⟩

end

end TypeSig

namespace SigEncoder

open Encoder

theorem requires_count (n : Nat) : Requires (count n) (n ≤ compressedLimit) := by
  unfold count
  split_ifs
  · exact requires_compressed n
  · exact requires_throw _ _

/-- A reference is to a type, unless it is to nothing. -/
theorem requires_reference (token : Token) :
    Requires (reference token)
      (token.isNull = false → token.NamesRowOf [.typeDef, .typeRef, .typeSpec]) := by
  intro out out' hout hrow
  unfold reference at hout
  cases hvalue : CodedKind.typeDefOrRef.encode token with
  | error fault =>
    rw [hvalue] at hout
    cases hout
  | ok value =>
    obtain ⟨tag, htag, -⟩ := (CodedKind.encode_eq_ok_iff hrow).1 hvalue
    obtain ⟨table, htable, hin⟩ := CodedKind.tagOf?_eq_some htag
    have hmem : some table ∈ CodedKind.typeDefOrRef.candidates := List.mem_of_getElem? htable
    refine ⟨hrow, table, ?_, hin⟩
    simpa [CodedKind.candidates] using hmem

theorem requires_plainReference (token : Token) :
    Requires (reference token)
      (token.isNull = false ∧ token.isIn .typeSpec = false →
        token.NamesRowOf [.typeDef, .typeRef]) :=
  (requires_reference token).mono fun h hplain => (h hplain.1).of_plain hplain.2

theorem requires_arrayShape (shape : ArrayShape) :
    Requires (arrayShape shape) shape.Writable := by
  have hrank := requires_compressed shape.rank
  have hsizes := requires_each requires_compressed shape.sizes
  have hbounds := requires_each requires_compressedSigned shape.lowerBounds
  refine Requires.mono (hrank.bind ((requires_count _).bind
    (hsizes.bind ((requires_count _).bind hbounds)))) ?_
  exact ArrayShape.writable_iff.2

/-! ### Trees -/

mutual

/-- Of a tree that is written, all that a blob needs holds, but for what it refers to. -/
theorem requires_type (sig : TypeSig) :
    Requires (type sig) (sig.Referable → sig.canonical.Writable) := by
  match sig with
  | .primitive type => exact (requires_trivial _).mono fun _ _ => trivial
  | .sentinel => exact (requires_trivial _).mono fun _ _ => trivial
  | .named form token => exact (requires_plainReference token).behind
  | .wrapped wrapper inner => exact (requires_type inner).behind
  | .array base shape =>
    refine Requires.mono ((requires_type base).bind (requires_arrayShape shape)).behind ?_
    rintro ⟨hbase, hshape⟩ hrefs
    exact ⟨hbase hrefs, hshape⟩
  | .generic param => exact (requires_compressed param.index).behind.mono fun h _ => h
  | .applied form definition arguments =>
    have hdefinition := requires_plainReference definition
    have hcount := requires_count arguments.length
    have hargs := requires_types arguments
    refine Requires.mono (hdefinition.bind (hcount.bind hargs)).behind.behind ?_
    rintro ⟨hdefinition, hcount, hargs⟩ ⟨hplain, hrefs⟩
    exact ⟨hdefinition hplain, (length_canonicalAll arguments).trans_le hcount, hargs hrefs⟩
  | .modified required modifier base =>
    rw [type]
    refine Requires.behind ?_
    cases htoken : modifierToken modifier with
    | error fault => exact requires_throw fault _
    | ok token =>
      refine Requires.mono ((requires_reference token).bind (requires_type base)) ?_
      rintro ⟨hmodifier, hbase⟩ ⟨hrow, hrefs⟩
      rw [canonical, canonicalModifier, htoken]
      exact ⟨hmodifier (hrow token htoken), hbase hrefs⟩
  | .typeSpec token expansion => exact requires_throw _ _
  | .invalid cause => exact requires_throw _ _

theorem requires_types (sigs : List TypeSig) :
    Requires (each sigs) (AllReferable sigs → AllWritable (canonicalAll sigs)) := by
  match sigs with
  | [] => exact (requires_trivial _).mono fun _ _ => trivial
  | sig :: rest =>
    refine Requires.mono ((requires_type sig).bind (requires_types rest)) ?_
    rintro ⟨hsig, hrest⟩ ⟨hrefs, hrefs'⟩
    exact ⟨hsig hrefs, hrest hrefs'⟩

end

/-- A blob can hold a tree that is written exactly when the tree is referable. -/
theorem writable_iff_of_type {sig : TypeSig} {blob : Array UInt8}
    (h : (type sig).bytes? = .ok blob) : sig.canonical.Writable ↔ sig.Referable :=
  ⟨referable_of_writable sig, (requires_type sig).of_bytes? h⟩

/-! ### Methods -/

theorem requires_method (sig : MethodSig) :
    Requires (method sig) (sig.Representable → sig.canonical.Writable) := by
  have hvarargs : Requires
      (if !sig.varargs.isEmpty then do Encoder.byte Element.sentinel; each sig.varargs else pure ())
      (AllReferable sig.varargs → AllWritable (canonicalAll sig.varargs)) := by
    cases hlist : sig.varargs with
    | nil => exact (requires_trivial _).mono fun _ _ => trivial
    | cons first rest => exact (requires_types (first :: rest)).behind
  have hcount := requires_count (sig.params.length + sig.varargs.length)
  have hgeneric := requires_compressed sig.genericCount
  have htypes := (requires_type sig.returnType).bind ((requires_types sig.params).bind hvarargs)
  have hall : Requires (method sig) (sig.genericCount ≤ compressedLimit ∧
      sig.params.length + sig.varargs.length ≤ compressedLimit ∧
      (sig.returnType.Referable → sig.returnType.canonical.Writable) ∧
      (AllReferable sig.params → AllWritable (canonicalAll sig.params)) ∧
      (AllReferable sig.varargs → AllWritable (canonicalAll sig.varargs))) := by
    refine Requires.behind ?_
    by_cases hpos : 0 < sig.genericCount
    · rw [if_pos hpos]
      exact hgeneric.bind (hcount.bind htypes)
    · rw [if_neg hpos]
      have hzero : sig.genericCount ≤ compressedLimit :=
        (Nat.le_of_not_lt hpos).trans (Nat.zero_le _)
      exact Requires.mono (hcount.bind htypes) fun h => ⟨hzero, h⟩
  refine hall.mono ?_
  rintro ⟨hgeneric, hcount, hreturn, hparams, hvarargs⟩ h
  exact
    { convention := h.convention
      genericCount := hgeneric
      count := by simpa only [MethodSig.canonical, length_canonicalAll] using hcount
      returnType := hreturn h.returnType
      params := hparams h.params
      varargs := hvarargs h.varargs
      fixed := canonicalAll_ne_sentinel_iff.2 h.fixed }

/-- A blob can hold a method that is written exactly when the method is representable. -/
theorem writable_iff_of_method {sig : MethodSig} {blob : Array UInt8}
    (h : (method sig).bytes? = .ok blob) : sig.canonical.Writable ↔ sig.Representable := by
  refine ⟨fun hwritable => ?_, (requires_method sig).of_bytes? h⟩
  exact
    { convention := hwritable.convention
      returnType := referable_of_writable _ hwritable.returnType
      params := allReferable_of_writable _ hwritable.params
      varargs := allReferable_of_writable _ hwritable.varargs
      fixed := canonicalAll_ne_sentinel_iff.1 hwritable.fixed }

end SigEncoder

end CilMetadata

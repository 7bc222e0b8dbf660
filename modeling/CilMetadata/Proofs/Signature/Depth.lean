import CilMetadata.Proofs.Signature.Guarded

/-!
# The nesting limit cuts off

A reading that may nest deeper gives the same result, unless the lower limit stops it; the limit
never changes a tree, and no tree is higher than the limit allows.

* `TypeSig.levels` counts the levels that a reading nests for a tree. The type that a specification
  stands for takes the levels that it would take elsewhere: the node around it is not read;
* `typeAt_levels` and `decode_levels`: what is read within a limit has no more levels;
* `CutsOff limit d d'` compares a reading under a limit with one under a higher limit, from a fresh
  start; `decode_cutsOff` is the comparison for signatures of every kind.

`Signature.decode_cutOff` puts the two together. What a reading does with the number of levels that
are left, `typeAt_cutOff`, is known for types from any state; a headed signature reads its types one
after the other, each with all levels that are not in use.
-/

namespace CilMetadata

/-! ### Levels -/

namespace TypeSig

mutual

/-- How many levels a reading nests for a tree. -/
def levels : TypeSig → Nat
  | .primitive _ | .named _ _ | .generic _ | .sentinel | .invalid _ => 1
  | .wrapped _ inner => inner.levels + 1
  | .array base _ => base.levels + 1
  | .applied _ _ arguments => levelsOfAll arguments + 1
  | .modified _ modifier base => max modifier.levels base.levels + 1
  | .typeSpec _ expansion => expansion.levels

/-- The most levels that a reading nests for one of several trees. -/
def levelsOfAll : List TypeSig → Nat
  | [] => 0
  | type :: rest => max type.levels (levelsOfAll rest)

end

theorem levels_pos : (sig : TypeSig) → 0 < sig.levels
  | .primitive _ | .named _ _ | .generic _ | .sentinel | .invalid _ => Nat.one_pos
  | .wrapped _ _ | .array _ _ | .applied _ _ _ | .modified _ _ _ => Nat.succ_pos _
  | .typeSpec _ expansion => levels_pos expansion

theorem levelsOfAll_le_iff {sigs : List TypeSig} {levels : Nat} :
    levelsOfAll sigs ≤ levels ↔ ∀ sig ∈ sigs, sig.levels ≤ levels := by
  induction sigs with
  | nil => simp [levelsOfAll]
  | cons sig rest ih => simp [levelsOfAll, ih]

mutual

/-- In a tree that a blob can hold there is no specification to expand, and every node takes a
level. -/
theorem levels_of_writable (sig : TypeSig) (h : sig.Writable) : sig.levels = sig.nesting := by
  match sig with
  | .primitive _ | .named _ _ | .generic _ | .sentinel => rfl
  | .wrapped _ inner => rw [levels, nesting, levels_of_writable inner h]
  | .array base _ => rw [levels, nesting, levels_of_writable base h.1]
  | .applied _ _ arguments => rw [levels, nesting, levelsOfAll_of_writable arguments h.2.2]
  | .modified _ modifier base =>
    obtain ⟨token, rfl, -⟩ := SigDecoder.modifier_of_isModifier h.1
    rw [levels, nesting, levels_of_writable base h.2, levels, nesting]

theorem levelsOfAll_of_writable (sigs : List TypeSig) (h : AllWritable sigs) :
    levelsOfAll sigs = nestingOfAll sigs := by
  match sigs with
  | [] => rfl
  | sig :: rest =>
    rw [levelsOfAll, nestingOfAll, levels_of_writable sig h.1, levelsOfAll_of_writable rest h.2]

end

end TypeSig

namespace SigDecoder

variable {α β : Type}

theorem succeedsWith_times {d : SigDecoder α} {p : α → Prop} (h : SucceedsWith d p) (count : Nat) :
    SucceedsWith (times d count) fun items => ∀ item ∈ items, p item := by
  induction count with
  | zero => exact succeedsWith_pure (by simp)
  | succ count ih =>
    refine h.bind fun item hitem => ih.map fun rest hrest => ?_
    exact List.forall_mem_cons.2 ⟨hitem, hrest⟩

/-- What is read inside another blob is what is read from its start. -/
theorem succeedsWith_inside {d : SigDecoder α} {p : α → Prop} (h : SucceedsWith d p)
    (blob : Array UInt8) : SucceedsWith (inside blob d) p := by
  intro s s' a hrun
  obtain ⟨-, t, ht⟩ := inside_eq_ok hrun
  exact h _ t a ht

/-- The signature of a method, behind its first byte and the number of its generic parameters. -/
def methodBehind (ctx : SigContext) (head : UInt8) (genericCount : Nat) : SigDecoder MethodSig := do
  let count ← compressed
  let returnType ← type ctx
  let (fixed, varargs) ← params ctx count
  return {
    convention := head &&& Header.conventionMask, genericCount, returnType, varargs
    hasThis := head &&& Header.thisBit != 0
    explicitThis := head &&& Header.explicitThisBit != 0
    params := fixed }

theorem method_eq (ctx : SigContext) :
    method ctx = byte >>= fun head =>
      if Header.lastConvention < head &&& Header.conventionMask then
        throw (.malformed (.callingConvention head))
      else (if head &&& Header.genericBit = 0 then pure 0 else compressed) >>=
        methodBehind ctx head := by
  unfold method
  congr 1
  funext head
  dsimp only
  split_ifs <;> rfl

/-! ### No tree is higher than the limit -/

section Nodes

variable {ctx : SigContext} {nested : SigContext → SigDecoder TypeSig} {levels : Nat}
  (hnested : ∀ ctx, SucceedsWith (nested ctx) fun tree => tree.levels ≤ levels)

include hnested

/-- A name takes one level and an expansion those of the blob, so a modifier stays below whatever is
read behind it. -/
theorem modifierType_levels (token : Token) :
    SucceedsWith (modifierType ctx nested token) fun tree => tree.levels ≤ max 1 levels := by
  have hone (tree : TypeSig) (h : tree.levels = 1) :
      SucceedsWith (pure tree : SigDecoder TypeSig) fun tree => tree.levels ≤ max 1 levels :=
    succeedsWith_pure (h.trans_le (le_max_left 1 levels))
  unfold modifierType
  cases ctx.resolver with
  | none => exact hone _ rfl
  | some r =>
    refine succeedsWith_ite (succeedsWith_ite (hone _ rfl) ?_) (hone _ rfl)
    cases r.specBlob? token with
    | none => exact hone _ rfl
    | some blob =>
      refine (succeedsWith_inside (hnested _) blob).map fun expansion hexpansion => ?_
      exact le_max_of_le_right hexpansion

theorem modifiedType_levels (required : Bool) :
    SucceedsWith (modifiedType ctx nested required) fun tree => tree.levels ≤ levels + 1 := by
  have hbase (modifier : TypeSig) (hmodifier : modifier.levels ≤ max 1 levels) :
      SucceedsWith (do return .modified required modifier (← nested ctx) : SigDecoder TypeSig)
        fun tree => tree.levels ≤ levels + 1 := by
    refine (hnested ctx).map fun base hbase => ?_
    have hpos := base.levels_pos
    rw [TypeSig.levels]
    omega
  refine SucceedsWith.behind fun found => ?_
  rcases found with cause | token
  · cases cause with
    | blobTooShort => exact succeedsWith_pure (Nat.succ_le_succ (Nat.zero_le levels))
    | _ => exact hbase _ (le_max_left 1 levels)
  · exact (modifierType_levels hnested token).bind hbase

theorem appliedType_levels :
    SucceedsWith (appliedType ctx nested) fun tree => tree.levels ≤ levels + 1 := by
  have harguments (count : Nat) := succeedsWith_times (hnested ctx) count
  have hinvalid (cause : InvalidCause) : (TypeSig.invalid cause).levels ≤ levels + 1 :=
    Nat.succ_le_succ (Nat.zero_le levels)
  refine SucceedsWith.behind fun kind => ?_
  cases NamedForm.ofElement? kind with
  | none => exact succeedsWith_throw _ _
  | some form =>
    refine SucceedsWith.behind fun found => ?_
    rcases found with cause | definition
    · cases cause with
      | blobTooShort => exact succeedsWith_pure (hinvalid _)
      | _ => exact SucceedsWith.behind fun count => (harguments count).map fun _ _ => hinvalid _
    · refine SucceedsWith.behind fun count => (harguments count).map fun arguments hall => ?_
      exact Nat.succ_le_succ (TypeSig.levelsOfAll_le_iff.2 hall)

/-- A node takes one level more than the types that are read for it. -/
theorem typeAfter_levels (offset : Nat) (element : UInt8) :
    SucceedsWith (typeAfter ctx nested offset element) fun tree => tree.levels ≤ levels + 1 := by
  have hone {tree : TypeSig} (h : tree.levels = 1) : tree.levels ≤ levels + 1 :=
    h.trans_le (Nat.le_add_left 1 levels)
  cases starts element with
  | primitive type =>
    rw [typeAfter_primitive]
    exact succeedsWith_pure (hone rfl)
  | wrapped wrapper =>
    rw [typeAfter_wrapped]
    exact (hnested ctx).map fun inner hinner => Nat.succ_le_succ hinner
  | named form =>
    rw [typeAfter_named]
    refine SucceedsWith.behind fun found => ?_
    rcases found with cause | token
    · exact succeedsWith_pure (hone rfl)
    · exact succeedsWith_pure (hone rfl)
  | sentinel => exact succeedsWith_pure (hone rfl)
  | generic kind =>
    rw [typeAfter_generic]
    exact SucceedsWith.behind fun index => succeedsWith_pure (hone rfl)
  | array =>
    rw [typeAfter_array]
    refine (hnested ctx).bind fun base hbase => SucceedsWith.behind fun shape => ?_
    exact succeedsWith_pure (Nat.succ_le_succ hbase)
  | applied => exact appliedType_levels hnested
  | modified required =>
    rw [typeAfter_modified]
    exact modifiedType_levels hnested required
  | nothing hrefused =>
    rw [hrefused]
    exact succeedsWith_throw _ _

end Nodes

/-- **No tree has more levels than there are left**, expansions included. -/
theorem typeAt_levels (levels : Nat) (ctx : SigContext) :
    SucceedsWith (typeAt levels ctx) fun tree => tree.levels ≤ levels := by
  induction levels generalizing ctx with
  | zero =>
    intro s s' tree hrun
    cases hrun
  | succ levels ih =>
    exact SucceedsWith.behind fun offset => SucceedsWith.behind fun element =>
      typeAfter_levels ih offset element

theorem type_levels (ctx : SigContext) :
    SucceedsWith (type ctx) fun tree => tree.levels ≤ ctx.maxDepth := by
  intro s s' tree hrun
  exact (typeAt_levels _ ctx s s' tree hrun).trans (Nat.sub_le _ _)

theorem types_levels (ctx : SigContext) (count : Nat) :
    SucceedsWith (times (type ctx) count) fun trees =>
      ∀ tree ∈ trees, tree.levels ≤ ctx.maxDepth :=
  succeedsWith_times (type_levels ctx) count

theorem params_levels (ctx : SigContext) (count : Nat) :
    SucceedsWith (params ctx count) fun both =>
      ∀ tree ∈ both.1 ++ both.2, tree.levels ≤ ctx.maxDepth := by
  induction count with
  | zero => exact succeedsWith_pure (by simp)
  | succ count ih =>
    refine SucceedsWith.behind fun next => succeedsWith_ite ?_ ?_
    · exact SucceedsWith.behind fun _ => (types_levels ctx (count + 1)).map fun varargs hall => hall
    · refine (type_levels ctx).bind fun param hparam => ih.map fun both hall => ?_
      exact List.forall_mem_cons.2 ⟨hparam, hall⟩

theorem method_levels (ctx : SigContext) :
    SucceedsWith (method ctx) fun sig =>
      ∀ tree ∈ (Signature.method sig).trees, tree.levels ≤ ctx.maxDepth := by
  rw [method_eq]
  refine SucceedsWith.behind fun head => succeedsWith_ite (succeedsWith_throw _ _) ?_
  refine SucceedsWith.behind fun genericCount => SucceedsWith.behind fun count => ?_
  refine (type_levels ctx).bind fun returnType hreturn => (params_levels ctx count).map ?_
  exact fun both hall => List.forall_mem_cons.2 ⟨hreturn, hall⟩

theorem property_levels (ctx : SigContext) :
    SucceedsWith (property ctx) fun sig =>
      ∀ tree ∈ (Signature.property sig).trees, tree.levels ≤ ctx.maxDepth := by
  refine SucceedsWith.behind fun head => succeedsWith_ite ?_ (succeedsWith_throw _ _)
  refine SucceedsWith.behind fun count => (type_levels ctx).bind fun propertyType hproperty => ?_
  exact (types_levels ctx count).map fun params hall => List.forall_mem_cons.2 ⟨hproperty, hall⟩

theorem field_levels (ctx : SigContext) :
    SucceedsWith (field ctx) fun sig =>
      ∀ tree ∈ (Signature.field sig).trees, tree.levels ≤ ctx.maxDepth := by
  refine SucceedsWith.behind fun head => succeedsWith_ite ?_ (succeedsWith_throw _ _)
  exact (type_levels ctx).map fun tree htree => List.forall_mem_singleton.2 htree

theorem locals_levels (ctx : SigContext) :
    SucceedsWith (locals ctx) fun sig =>
      ∀ tree ∈ (Signature.locals sig).trees, tree.levels ≤ ctx.maxDepth := by
  refine SucceedsWith.behind fun head => succeedsWith_ite ?_ (succeedsWith_throw _ _)
  exact SucceedsWith.behind fun count => (types_levels ctx count).map fun trees hall => hall

theorem methodSpec_levels (ctx : SigContext) :
    SucceedsWith (methodSpec ctx) fun sig =>
      ∀ tree ∈ (Signature.methodSpec sig).trees, tree.levels ≤ ctx.maxDepth := by
  refine SucceedsWith.behind fun head => succeedsWith_ite ?_ (succeedsWith_throw _ _)
  exact SucceedsWith.behind fun count => (types_levels ctx count).map fun trees hall => hall

/-- What is read of a signature has no more levels than the limit allows. -/
theorem decode_levels (ctx : SigContext) (kind : SigKind) :
    SucceedsWith (Signature.decode ctx kind) fun sig =>
      ∀ tree ∈ sig.trees, tree.levels ≤ ctx.maxDepth := by
  cases kind with
  | type => exact (type_levels ctx).map fun tree htree => List.forall_mem_singleton.2 htree
  | method => exact (method_levels ctx).map fun sig hall => hall
  | field => exact (field_levels ctx).map fun sig hall => hall
  | property => exact (property_levels ctx).map fun sig hall => hall
  | locals => exact (locals_levels ctx).map fun sig hall => hall
  | methodSpec => exact (methodSpec_levels ctx).map fun sig hall => hall

/-! ### A higher limit changes nothing else -/

/-- From a fresh start, the second reading does what the first one does, unless that one is stopped
by the limit. -/
structure CutsOff (limit : Nat) (d d' : SigDecoder α) : Prop where
  ok : ∀ c a s, d { cursor := c } = .ok a s → s.depth = 0 ∧ d' { cursor := c } = .ok a s
  error : ∀ c fault s, d { cursor := c } = .error fault s →
    fault = .recursionLimit limit ∨
      ¬ fault.IsLimit ∧ ∃ s', d' { cursor := c } = .error fault s'

variable {limit : Nat}

theorem Plain.cutsOff {d : SigDecoder α} (h : d.Plain) : CutsOff limit d d := by
  constructor
  · intro c a s hrun
    exact ⟨(h.ok _ _ _ _ hrun).1, hrun⟩
  · intro c fault s hrun
    exact .inr ⟨(h.error _ _ _ _ hrun).1, s, hrun⟩

theorem cutsOff_throw {fault : Fault} (h : ¬ fault.IsLimit) :
    CutsOff limit (throw fault : SigDecoder α) (throw fault) := by
  constructor
  · intro c a s hrun
    cases hrun
  · intro c fault' s hrun
    cases hrun
    exact .inr ⟨h, _, rfl⟩

theorem CutsOff.bind {d d' : SigDecoder α} {f f' : α → SigDecoder β} (h : CutsOff limit d d')
    (hrest : ∀ a, CutsOff limit (f a) (f' a)) : CutsOff limit (d >>= f) (d' >>= f') := by
  constructor
  · intro c b s hrun
    obtain ⟨a, ⟨c', _⟩, hd, hf⟩ := bind_eq_ok.1 hrun
    obtain ⟨rfl, hd'⟩ := h.ok _ _ _ hd
    obtain ⟨hdepth, hf'⟩ := (hrest a).ok _ _ _ hf
    exact ⟨hdepth, (bind_of_ok hd').trans hf'⟩
  · intro c fault s hrun
    rcases bind_eq_error.1 hrun with hd | ⟨a, ⟨c', _⟩, hd, hf⟩
    · refine (h.error _ _ _ hd).imp_right fun ⟨hlimit, s', hd'⟩ => ?_
      exact ⟨hlimit, s', bind_of_error hd'⟩
    · obtain ⟨rfl, hd'⟩ := h.ok _ _ _ hd
      refine ((hrest a).error _ _ _ hf).imp_right fun ⟨hlimit, s', hf'⟩ => ?_
      exact ⟨hlimit, s', (bind_of_ok hd').trans hf'⟩

theorem CutsOff.map {d d' : SigDecoder α} (h : CutsOff limit d d') (f : α → β) :
    CutsOff limit (do return f (← d)) (do return f (← d')) :=
  h.bind fun a => (plain_pure (f a)).cutsOff

/-- The same test on both sides. -/
theorem cutsOff_ite {p : Prop} [Decidable p] {d d' e e' : SigDecoder α} (h : CutsOff limit d d')
    (h' : CutsOff limit e e') :
    CutsOff limit (if p then d else e) (if p then d' else e') := by
  by_cases hp : p
  · rwa [if_pos hp, if_pos hp]
  · rwa [if_neg hp, if_neg hp]

theorem cutsOff_times {d d' : SigDecoder α} (h : CutsOff limit d d') (count : Nat) :
    CutsOff limit (times d count) (times d' count) := by
  induction count with
  | zero => exact (plain_pure []).cutsOff
  | succ count ih => exact h.bind fun a => ih.map (a :: ·)

section Headed

variable (ctx : SigContext) {limit : Nat} (hle : ctx.maxDepth ≤ limit)

include hle

theorem type_cutsOff :
    CutsOff ctx.maxDepth (type ctx) (type { ctx with maxDepth := limit }) := by
  have hagrees := typeAt_cutOff hle
    (show Alike ctx { ctx with maxDepth := limit } from ⟨rfl, fun _ _ => rfl⟩)
  constructor
  · intro c tree s hrun
    obtain ⟨hdepth, -, hrun'⟩ := hagrees.ok _ _ _ trivial hrun
    obtain ⟨c', _⟩ := s
    obtain rfl : _ = 0 := hdepth
    exact ⟨rfl, hrun' 0⟩
  · intro c fault s hrun
    rcases hagrees.error _ _ _ trivial hrun with ⟨_, hcut, rfl⟩ | ⟨hlimit, hrun'⟩
    · cases hcut
      exact .inl rfl
    · exact .inr ⟨hlimit, hrun' 0⟩

theorem params_cutsOff (count : Nat) :
    CutsOff ctx.maxDepth (params ctx count) (params { ctx with maxDepth := limit } count) := by
  induction count with
  | zero => exact (plain_pure _).cutsOff
  | succ count ih =>
    refine (plain_lift Decoder.failsWith_peekByte).cutsOff.bind fun next => cutsOff_ite ?_ ?_
    · refine (plain_lift (Decoder.failsWith_skip 1)).cutsOff.bind fun _ => ?_
      exact (cutsOff_times (type_cutsOff ctx hle) (count + 1)).map _
    · exact (type_cutsOff ctx hle).bind fun param => ih.map _

theorem method_cutsOff :
    CutsOff ctx.maxDepth (method ctx) (method { ctx with maxDepth := limit }) := by
  have hinteger : CutsOff ctx.maxDepth compressed compressed := plain_compressed.cutsOff
  rw [method_eq, method_eq]
  refine plain_byte.cutsOff.bind fun head => ?_
  refine cutsOff_ite (cutsOff_throw (Fault.OfData.not_isLimit trivial)) ?_
  refine (cutsOff_ite (plain_pure 0).cutsOff hinteger).bind fun genericCount => ?_
  refine hinteger.bind fun count => (type_cutsOff ctx hle).bind fun returnType => ?_
  exact (params_cutsOff ctx hle count).map _

theorem field_cutsOff :
    CutsOff ctx.maxDepth (field ctx) (field { ctx with maxDepth := limit }) := by
  refine plain_byte.cutsOff.bind fun head => ?_
  exact cutsOff_ite ((type_cutsOff ctx hle).map _)
    (cutsOff_throw (Fault.OfData.not_isLimit trivial))

theorem property_cutsOff :
    CutsOff ctx.maxDepth (property ctx) (property { ctx with maxDepth := limit }) := by
  have htype := type_cutsOff ctx hle
  refine plain_byte.cutsOff.bind fun head => ?_
  refine cutsOff_ite ?_ (cutsOff_throw (Fault.OfData.not_isLimit trivial))
  refine plain_compressed.cutsOff.bind fun count => htype.bind fun propertyType => ?_
  exact (cutsOff_times htype count).map _

/-- A list of types behind its length. -/
theorem counted_cutsOff (f : List TypeSig → α) :
    CutsOff ctx.maxDepth (do return f (← times (type ctx) (← compressed)))
      (do return f (← times (type { ctx with maxDepth := limit }) (← compressed))) :=
  plain_compressed.cutsOff.bind fun count => (cutsOff_times (type_cutsOff ctx hle) count).map f

theorem locals_cutsOff :
    CutsOff ctx.maxDepth (locals ctx) (locals { ctx with maxDepth := limit }) :=
  plain_byte.cutsOff.bind fun _ => cutsOff_ite (counted_cutsOff ctx hle _)
    (cutsOff_throw (Fault.OfData.not_isLimit trivial))

theorem methodSpec_cutsOff :
    CutsOff ctx.maxDepth (methodSpec ctx) (methodSpec { ctx with maxDepth := limit }) :=
  plain_byte.cutsOff.bind fun _ => cutsOff_ite (counted_cutsOff ctx hle _)
    (cutsOff_throw (Fault.OfData.not_isLimit trivial))

/-- A signature of any kind is read as it is under a higher limit, or not at all. -/
theorem decode_cutsOff (kind : SigKind) :
    CutsOff ctx.maxDepth (Signature.decode ctx kind)
      (Signature.decode { ctx with maxDepth := limit } kind) := by
  cases kind with
  | type => exact (type_cutsOff ctx hle).map _
  | method => exact (method_cutsOff ctx hle).map _
  | field => exact (field_cutsOff ctx hle).map _
  | property => exact (property_cutsOff ctx hle).map _
  | locals => exact (locals_cutsOff ctx hle).map _
  | methodSpec => exact (methodSpec_cutsOff ctx hle).map _

end Headed

/-- What a fresh reading ends with: its value and the place where it stops, or a fault. -/
def ending (d : SigDecoder α) (c : Cursor) : Except Fault (α × Cursor) :=
  match d { cursor := c } with
  | .ok a s => .ok (a, s.cursor)
  | .error fault _ => .error fault

theorem ending_eq_ok {d : SigDecoder α} {c stop : Cursor} {a : α} :
    ending d c = .ok (a, stop) ↔ ∃ s, d { cursor := c } = .ok a s ∧ s.cursor = stop := by
  unfold ending
  cases d { cursor := c } <;> simp

theorem ending_eq_error {d : SigDecoder α} {c : Cursor} {fault : Fault} :
    ending d c = .error fault ↔ ∃ s, d { cursor := c } = .error fault s := by
  unfold ending
  cases d { cursor := c } <;> simp

/-- Stopped by the limit, or with the same ending as under a higher limit. -/
theorem CutsOff.ending {d d' : SigDecoder α} (h : CutsOff limit d d') (c : Cursor) :
    d.ending c = .error (.recursionLimit limit) ∨
      d.ending c = d'.ending c ∧ ∀ fault, d.ending c = .error fault → ¬ fault.IsLimit := by
  cases hend : d.ending c with
  | ok result =>
    obtain ⟨a, stop⟩ := result
    obtain ⟨s, hrun, rfl⟩ := ending_eq_ok.1 hend
    refine .inr ⟨(ending_eq_ok.2 ⟨s, (h.ok _ _ _ hrun).2, rfl⟩).symm, ?_⟩
    rintro fault ⟨⟩
  | error fault =>
    obtain ⟨s, hrun⟩ := ending_eq_error.1 hend
    rcases h.error _ _ _ hrun with rfl | ⟨hlimit, hrun'⟩
    · exact .inl rfl
    · refine .inr ⟨(ending_eq_error.2 hrun').symm, ?_⟩
      rintro _ ⟨⟩
      exact hlimit

end SigDecoder

namespace Signature

open SigDecoder

/-- **The nesting limit is a pure cut-off.** Whatever is expanded around it, a fresh reading of any
kind is stopped by the limit or ends as it does under every higher limit, and then with no fault of
the limit. What it accepts has no more levels than the limit allows, those of expansions
included. -/
theorem decode_cutOff (ctx : SigContext) {limit : Nat} (hle : ctx.maxDepth ≤ limit)
    (kind : SigKind) (c : Cursor) :
    ((decode ctx kind).ending c = .error (.recursionLimit ctx.maxDepth) ∨
      (decode ctx kind).ending c = (decode { ctx with maxDepth := limit } kind).ending c ∧
        ∀ fault, (decode ctx kind).ending c = .error fault → ¬ fault.IsLimit) ∧
    ∀ sig stop, (decode ctx kind).ending c = .ok (sig, stop) →
      ∀ tree ∈ sig.trees, tree.levels ≤ ctx.maxDepth := by
  refine ⟨(decode_cutsOff ctx hle kind).ending c, fun sig stop hend => ?_⟩
  obtain ⟨s, hrun, -⟩ := ending_eq_ok.1 hend
  exact decode_levels ctx kind _ s sig hrun

/-- A specification that stands for a pointer to a pointer. -/
def pointers : Resolver where
  isType token := token.value == 0x1B000001
  specBlob? token := if token.value = 0x1B000001 then some #[0x0F, 0x0F, 0x08] else none

/-- A field whose type is modified by the specification of `pointers`: below the modifier, the
expansion takes three levels more. -/
def pointerField : FieldSig where
  fieldType := .modified false
    (.typeSpec ⟨0x1B000001⟩ (.wrapped .ptr (.wrapped .ptr (.primitive .i4)))) (.primitive .i4)

/-- The blob of `pointerField`, and a byte behind it. -/
def pointerBlob : Cursor where
  bytes := #[0x06, 0x20, 0x06, 0x08, 0x41]

theorem decode_cutOff_pointers :
    (decode { resolver := some pointers, maxDepth := 3 } .field).ending pointerBlob =
        .error (.recursionLimit 3) ∧
      (decode { resolver := some pointers, maxDepth := 64 } .field).ending pointerBlob =
        .ok (.field pointerField, pointerBlob.forward 4) ∧
      pointerField.fieldType.levels ≤ 4 := by
  have hfour := decode_cutOff { resolver := some pointers, maxDepth := 4 }
    (show 4 ≤ 64 by decide) .field pointerBlob
  have hend : (decode { resolver := some pointers, maxDepth := 4 } .field).ending pointerBlob =
      .ok (.field pointerField, pointerBlob.forward 4) := rfl
  refine ⟨rfl, ?_, hfour.2 _ _ hend _ (by simp [trees])⟩
  rcases hfour.1 with hstopped | ⟨hsame, -⟩
  · rw [hend] at hstopped
    cases hstopped
  · exact hsame.symm.trans hend

end Signature

end CilMetadata

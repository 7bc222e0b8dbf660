import CilMetadata.Proofs.Signature.Resolution
import CilMetadata.Proofs.Signature.RoundTrip

/-!
# Resolving does not change what a blob says

`Signature.Resolves` carries the relation between a resolved tree and the plain one over to the
headed kinds.

* `Signature.decode_resolves`: a reading with a resolver, of any kind, takes the same bytes as one
  without;
* `Signature.encode_resolves`: where a resolved signature can be written, it has no invalid node,
  and its modifiers are written as the tokens that name them, so that the plain signature is
  written as the same bytes.
-/

namespace CilMetadata

/-- The signature is the plain one with the references in its trees looked up. -/
inductive Signature.Resolves (r : Resolver) (path : List Token) : (sig plain : Signature) → Prop
  | type {tree plain} (resolves : CilMetadata.Resolves r path tree plain) :
    Resolves r path (.type tree) (.type plain)
  | method {sig : MethodSig} {returnType params varargs}
      (returned : CilMetadata.Resolves r path sig.returnType returnType)
      (fixed : ResolvesAll r path sig.params params)
      (behind : ResolvesAll r path sig.varargs varargs) :
    Resolves r path (.method sig) (.method { sig with returnType, params, varargs })
  | field {tree plain} (resolves : CilMetadata.Resolves r path tree plain) :
    Resolves r path (.field ⟨tree⟩) (.field ⟨plain⟩)
  | property {sig : PropertySig} {propertyType params}
      (property : CilMetadata.Resolves r path sig.propertyType propertyType)
      (parameters : ResolvesAll r path sig.params params) :
    Resolves r path (.property sig) (.property { sig with propertyType, params })
  | locals {trees plains} (resolves : ResolvesAll r path trees plains) :
    Resolves r path (.locals ⟨trees⟩) (.locals ⟨plains⟩)
  | methodSpec {trees plains} (resolves : ResolvesAll r path trees plains) :
    Resolves r path (.methodSpec ⟨trees⟩) (.methodSpec ⟨plains⟩)

namespace SigDecoder

/-! ### Reading headed signatures -/

section Headed

variable {r : Resolver} {ctx : SigContext} (hr : ctx.resolver = some r)

include hr

theorem types_resolve (count : Nat) :
    FollowedBy (times (type ctx) count) (times (type { ctx with resolver := none }) count)
      (ResolvesAll r ctx.expanding.active) :=
  (followedBy_times (type_resolves ctx hr) count).mono fun _ _ => resolvesAll_iff.2

/-- Whether variable arguments begin is told by the bytes alone. -/
theorem params_resolve (count : Nat) :
    FollowedBy (params ctx count) (params { ctx with resolver := none } count)
      fun sigs plains => ResolvesAll r ctx.expanding.active sigs.1 plains.1 ∧
        ResolvesAll r ctx.expanding.active sigs.2 plains.2 := by
  induction count with
  | zero => exact followedBy_pure ⟨.nil, .nil⟩
  | succ count ih =>
    refine FollowedBy.behind fun next => followedBy_ite (fun _ => ?_) fun _ => ?_
    · refine FollowedBy.behind fun _ => (types_resolve hr (count + 1)).map fun _ _ hall => ?_
      exact ⟨.nil, hall⟩
    · refine (type_resolves ctx hr).bind fun tree plain htree => ih.bind fun sigs plains hrest => ?_
      exact followedBy_pure ⟨.cons htree hrest.1, hrest.2⟩

theorem method_resolves :
    FollowedBy (method ctx) (method { ctx with resolver := none })
      fun sig plain => Signature.Resolves r ctx.expanding.active (.method sig) (.method plain) := by
  refine FollowedBy.behind fun head => followedBy_ite (fun _ => followedBy_throw _ _ _) fun _ => ?_
  refine followedBy_ite (fun _ => FollowedBy.behind fun genericCount => ?_)
    fun _ => FollowedBy.behind fun genericCount => ?_
  all_goals
    refine FollowedBy.behind fun count => (type_resolves ctx hr).bind fun tree plain htree => ?_
    refine (params_resolve hr count).bind fun sigs plains hsigs => followedBy_pure ?_
    exact .method htree hsigs.1 hsigs.2

theorem field_resolves :
    FollowedBy (field ctx) (field { ctx with resolver := none })
      fun sig plain => Signature.Resolves r ctx.expanding.active (.field sig) (.field plain) := by
  refine FollowedBy.behind fun head => followedBy_ite (fun _ => ?_) fun _ => followedBy_throw _ _ _
  exact (type_resolves ctx hr).map fun tree plain htree => .field htree

theorem property_resolves :
    FollowedBy (property ctx) (property { ctx with resolver := none })
      fun sig plain => Signature.Resolves r ctx.expanding.active (.property sig)
        (.property plain) := by
  refine FollowedBy.behind fun head => followedBy_ite (fun _ => ?_) fun _ => followedBy_throw _ _ _
  refine FollowedBy.behind fun count => (type_resolves ctx hr).bind fun tree plain htree => ?_
  exact (types_resolve hr count).map fun trees plains hall => .property htree hall

theorem locals_resolves :
    FollowedBy (locals ctx) (locals { ctx with resolver := none })
      fun sig plain => Signature.Resolves r ctx.expanding.active (.locals sig) (.locals plain) := by
  refine FollowedBy.behind fun head => followedBy_ite (fun _ => ?_) fun _ => followedBy_throw _ _ _
  refine FollowedBy.behind fun count => ?_
  exact (types_resolve hr count).map fun trees plains hall => .locals hall

theorem methodSpec_resolves :
    FollowedBy (methodSpec ctx) (methodSpec { ctx with resolver := none })
      fun sig plain => Signature.Resolves r ctx.expanding.active (.methodSpec sig)
        (.methodSpec plain) := by
  refine FollowedBy.behind fun head => followedBy_ite (fun _ => ?_) fun _ => followedBy_throw _ _ _
  refine FollowedBy.behind fun count => ?_
  exact (types_resolve hr count).map fun trees plains hall => .methodSpec hall

end Headed

end SigDecoder

/-- **A reading of any kind takes the same bytes with a resolver as without.** -/
theorem Signature.decode_resolves {r : Resolver} (ctx : SigContext) (hr : ctx.resolver = some r)
    (kind : SigKind) :
    FollowedBy (decode ctx kind) (decode { ctx with resolver := none } kind)
      (Signature.Resolves r ctx.expanding.active) := by
  cases kind with
  | type => exact (SigDecoder.type_resolves ctx hr).map fun _ _ => .type
  | method => exact (SigDecoder.method_resolves hr).map fun _ _ => id
  | field => exact (SigDecoder.field_resolves hr).map fun _ _ => id
  | property => exact (SigDecoder.property_resolves hr).map fun _ _ => id
  | locals => exact (SigDecoder.locals_resolves hr).map fun _ _ => id
  | methodSpec => exact (SigDecoder.methodSpec_resolves hr).map fun _ _ => id

/-! ### Writing -/

namespace SigEncoder

variable {r : Resolver} {path : List Token}

/-- Two writers one after the other. -/
theorem followedBy_andThen {e e' : Encoder Unit} {d d' : Encoder Unit}
    (h : FollowedBy e d (· = ·)) (h' : FollowedBy e' d' (· = ·)) :
    FollowedBy (do e; e') (do d; d') (· = ·) :=
  h.bind fun _ _ _ => h'

/-- A modifier that can be written is named by the same token. -/
theorem modifierToken_of_resolves {found named : TypeSig} {token : Token}
    (h : ResolvesModifier r path found named) (htoken : modifierToken found = .ok token) :
    modifierToken named = .ok token := by
  cases h with
  | name => exact htoken
  | expansion => exact htoken
  | invalid => cases htoken
  | unknown => cases htoken
  | loop => cases htoken
  | missing => cases htoken

mutual

/-- Where a tree can be written, the plain tree is written as the same bytes. -/
theorem type_resolves (tree : TypeSig) {plain : TypeSig} (h : Resolves r path tree plain) :
    FollowedBy (type tree) (type plain) (· = ·) := by
  match tree with
  | .primitive type | .sentinel | .generic param | .named form token =>
    cases h
    exact followedBy_refl _
  | .invalid cause => exact followedBy_throw _ _ _
  | .typeSpec token expansion => cases h
  | .wrapped wrapper inner =>
    cases h with
    | wrapped hinner => exact FollowedBy.behind fun _ => type_resolves inner hinner
  | .array base shape =>
    cases h with
    | array hbase =>
      refine FollowedBy.behind fun _ => ?_
      exact followedBy_andThen (type_resolves base hbase) (followedBy_refl _)
  | .applied form definition arguments =>
    cases h with
    | applied hknown hall =>
      refine FollowedBy.behind fun _ => FollowedBy.behind fun _ => FollowedBy.behind fun _ => ?_
      rw [(resolvesAll_iff.1 hall).length_eq]
      exact FollowedBy.behind fun _ => each_resolves arguments hall
  | .modified required found base =>
    cases h with
    | modified hmodifier hbase =>
      refine FollowedBy.behind fun _ => ?_
      cases htoken : modifierToken found with
      | error fault => exact followedBy_throw _ _ _
      | ok token =>
        rw [modifierToken_of_resolves hmodifier htoken]
        exact FollowedBy.behind fun _ => type_resolves base hbase

/-- Where several trees can be written, the plain trees are written as the same bytes. -/
theorem each_resolves (trees : List TypeSig) {plains : List TypeSig}
    (h : ResolvesAll r path trees plains) : FollowedBy (each trees) (each plains) (· = ·) := by
  match trees with
  | [] =>
    cases h
    exact followedBy_refl _
  | tree :: trees =>
    cases h with
    | cons hfirst hrest =>
      exact followedBy_andThen (type_resolves tree hfirst) (each_resolves trees hrest)

end

theorem length_eq_of_resolvesAll {trees plains : List TypeSig}
    (h : ResolvesAll r path trees plains) : trees.length = plains.length :=
  (resolvesAll_iff.1 h).length_eq

theorem method_resolves {sig : MethodSig} {returnType : TypeSig} {params varargs : List TypeSig}
    (hreturn : Resolves r path sig.returnType returnType)
    (hparams : ResolvesAll r path sig.params params)
    (hvarargs : ResolvesAll r path sig.varargs varargs) :
    FollowedBy (method sig) (method { sig with returnType, params, varargs }) (· = ·) := by
  have hempty : sig.varargs.isEmpty = varargs.isEmpty := by
    rw [Bool.eq_iff_iff, List.isEmpty_iff_length_eq_zero, List.isEmpty_iff_length_eq_zero,
      length_eq_of_resolvesAll hvarargs]
  have htail : FollowedBy
      (do count (sig.params.length + sig.varargs.length)
          type sig.returnType
          each sig.params
          if !sig.varargs.isEmpty then
            Encoder.byte Element.sentinel
            each sig.varargs)
      (do count (params.length + varargs.length)
          type returnType
          each params
          if !varargs.isEmpty then
            Encoder.byte Element.sentinel
            each varargs) (· = ·) := by
    rw [length_eq_of_resolvesAll hparams, length_eq_of_resolvesAll hvarargs, hempty]
    refine FollowedBy.behind fun _ => followedBy_andThen (type_resolves _ hreturn) ?_
    refine followedBy_andThen (each_resolves _ hparams) (followedBy_ite (fun _ => ?_) fun _ => ?_)
    · exact FollowedBy.behind fun _ => each_resolves _ hvarargs
    · exact followedBy_refl _
  refine FollowedBy.behind fun _ => followedBy_ite (fun _ => ?_) fun _ => ?_
  · exact FollowedBy.behind fun _ => htail
  · exact htail

theorem types_resolve {trees plains : List TypeSig} (h : ResolvesAll r path trees plains) :
    FollowedBy (types trees) (types plains) (· = ·) := by
  unfold types
  rw [length_eq_of_resolvesAll h]
  exact FollowedBy.behind fun _ => each_resolves trees h

theorem property_resolves {sig : PropertySig} {propertyType : TypeSig} {params : List TypeSig}
    (hproperty : Resolves r path sig.propertyType propertyType)
    (hparams : ResolvesAll r path sig.params params) :
    FollowedBy (property sig) (property { sig with propertyType, params }) (· = ·) := by
  unfold property
  rw [length_eq_of_resolvesAll hparams]
  refine FollowedBy.behind fun _ => FollowedBy.behind fun _ => ?_
  exact followedBy_andThen (type_resolves _ hproperty) (each_resolves _ hparams)

end SigEncoder

namespace Signature

/-- **Where a resolved signature can be written, the plain one is written as the same bytes.** -/
theorem encode_resolves {r : Resolver} {path : List Token} {sig plain : Signature}
    (h : Resolves r path sig plain) : FollowedBy sig.encode plain.encode (· = ·) := by
  cases h with
  | type hresolves => exact SigEncoder.type_resolves _ hresolves
  | method hreturn hparams hvarargs => exact SigEncoder.method_resolves hreturn hparams hvarargs
  | field hresolves => exact FollowedBy.behind fun _ => SigEncoder.type_resolves _ hresolves
  | property hproperty hparams => exact SigEncoder.property_resolves hproperty hparams
  | locals hresolves => exact FollowedBy.behind fun _ => SigEncoder.types_resolve hresolves
  | methodSpec hresolves => exact FollowedBy.behind fun _ => SigEncoder.types_resolve hresolves

/-- **Resolving never changes what a blob says.** Where a reading succeeds, the reading without a
resolver succeeds too and stops at the same place, and whatever the resolved signature is written
as, the plain one is written as the same bytes. -/
theorem decode_transparent (ctx : SigContext) (kind : SigKind) {s s' : SigState} {sig : Signature}
    (h : decode ctx kind s = .ok sig s') :
    ∃ plain, decode { ctx with resolver := none } kind s = .ok plain s' ∧
      ∀ out out', sig.encode out = .ok () out' → plain.encode out = .ok () out' := by
  cases hr : ctx.resolver with
  | none =>
    have hsame : { ctx with resolver := none } = ctx := by rw [← hr]
    exact ⟨sig, hsame ▸ h, fun out out' => id⟩
  | some r =>
    obtain ⟨plain, hplain, hresolves⟩ := decode_resolves ctx hr kind s s' sig h
    refine ⟨plain, hplain, fun out out' hout => ?_⟩
    obtain ⟨⟨⟩, hwritten, -⟩ := encode_resolves hresolves out out' () hout
    exact hwritten

/-- A resolver with one reference and one specification, of arrays of objects. -/
def oneSpec : Resolver where
  isType token := token.value == 0x01000001 || token.value == 0x1B000001
  specBlob? token := if token.value = 0x1B000001 then some #[0x1D, 0x1C] else none

/-- A method whose blob names the specification of `oneSpec` twice, once inside the arguments of a
generic type. -/
def expandedCall : MethodSig where
  returnType := .modified false
    (.typeSpec ⟨0x1B000001⟩ (.wrapped .szArray (.primitive .object))) (.primitive .void)
  params := [
    .named .cls ⟨0x01000001⟩,
    .applied .cls ⟨0x01000001⟩ [.modified false
      (.typeSpec ⟨0x1B000001⟩ (.wrapped .szArray (.primitive .object))) (.primitive .string)]]

/-- The blob of `expandedCall`. -/
def expandedCallBlob : Array UInt8 :=
  #[0x00, 0x02, 0x20, 0x06, 0x01, 0x12, 0x05, 0x15, 0x12, 0x05, 0x01, 0x20, 0x06, 0x0E]

theorem decode_transparent_expandedCall :
    decode { resolver := some oneSpec, maxDepth := 4 } .method
        { cursor := { bytes := expandedCallBlob } } =
      .ok (method expandedCall) { cursor := { bytes := expandedCallBlob, pos := 14 } } ∧
    (method expandedCall).encode.bytes? = .ok expandedCallBlob ∧
    ∃ plain, decode { maxDepth := 4 } .method { cursor := { bytes := expandedCallBlob } } =
        .ok plain { cursor := { bytes := expandedCallBlob, pos := 14 } } ∧
      ∀ out out', (method expandedCall).encode out = .ok () out' →
        plain.encode out = .ok () out' := by
  have hread : decode { resolver := some oneSpec, maxDepth := 4 } .method
      { cursor := { bytes := expandedCallBlob } } =
        .ok (method expandedCall) { cursor := { bytes := expandedCallBlob, pos := 14 } } := by cbv
  have hwrite : (method expandedCall).encode.bytes? = .ok expandedCallBlob := by cbv
  have hplain := decode_transparent { resolver := some oneSpec, maxDepth := 4 } .method hread
  exact ⟨hread, hwrite, hplain⟩

end Signature

end CilMetadata

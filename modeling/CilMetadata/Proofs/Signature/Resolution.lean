import CilMetadata.Proofs.Bytes.Following
import CilMetadata.Proofs.Signature.Levels

/-!
# Reading with and without a resolver

Without a resolver a reading takes every reference as the bytes have it. With one it looks the
references up: what names no existing type becomes an invalid node, and where a modifier names a
specification, the tree of its blob is put in.

* `Says blob plain` says what a blob holds, when no reference is looked up;
* `Resolves r path tree plain` says that `tree` is `plain` with its references looked up through
  `r`, inside the expansions of `path`;
* `typeAt_resolves`: a reading with a resolver gives such a tree of what the reading without one
  gives, and both stop at the same place.
-/

namespace CilMetadata

namespace SigDecoder

theorem followedBy_times {α β : Type} {d : SigDecoder α} {d' : SigDecoder β} {R : α → β → Prop}
    (h : FollowedBy d d' R) (count : Nat) :
    FollowedBy (times d count) (times d' count) (List.Forall₂ R) := by
  induction count with
  | zero => exact followedBy_pure .nil
  | succ count ih => exact h.bind fun a b hab => ih.map fun as bs habs => .cons hab habs

/-! ### Trees -/

/-- The blob holds the tree: a reading without a resolver gives it, at some nesting limit. -/
def Says (blob : Array UInt8) (plain : TypeSig) : Prop :=
  ∃ maxDepth, (type { maxDepth }).value? blob = .ok plain

theorem value?_eq_ok {α : Type} {d : SigDecoder α} {blob : Array UInt8} {a : α} :
    d.value? blob = .ok a ↔ ∃ s, d { cursor := { bytes := blob } } = .ok a s := by
  unfold value?
  cases d { cursor := { bytes := blob } } <;> simp

/-- What a reading without a resolver gives from the start of a blob, the blob holds, whatever
levels are left and in use. -/
theorem says_of_typeAt {levels : Nat} {ctx : SigContext} {s s' : SigState} {plain : TypeSig}
    (hr : ctx.resolver = none) (hstart : s.cursor.pos = 0)
    (h : typeAt levels ctx s = .ok plain s') : Says s.cursor.bytes plain := by
  have alike : Alike ctx { maxDepth := levels } :=
    ⟨hr.symm, fun r hsome => by simp [hr] at hsome⟩
  obtain ⟨-, -, hrun⟩ := (typeAt_cutOff le_rfl alike).ok s s' plain trivial h
  have hcursor : s.cursor = { bytes := s.cursor.bytes } := by rw [← hstart]
  refine ⟨levels, value?_eq_ok.2 ⟨{ cursor := s'.cursor }, ?_⟩⟩
  rw [← hcursor]
  exact hrun 0

/-- A blob holds one tree at most. -/
theorem says_unique {blob : Array UInt8} {plain plain' : TypeSig} (h : Says blob plain)
    (h' : Says blob plain') : plain = plain' := by
  obtain ⟨maxDepth, hplain⟩ := h
  obtain ⟨maxDepth', hplain'⟩ := h'
  wlog hle : maxDepth ≤ maxDepth' generalizing maxDepth maxDepth' plain plain'
  · exact (this _ hplain' _ hplain (Nat.le_of_not_le hle)).symm
  obtain ⟨s, hs⟩ := value?_eq_ok.1 hplain
  obtain ⟨s', hs'⟩ := value?_eq_ok.1 hplain'
  have alike : Alike { maxDepth } { maxDepth := maxDepth' } := ⟨rfl, fun r hsome => by cases hsome⟩
  obtain ⟨-, -, hrun⟩ := (typeAt_cutOff hle alike).ok _ s plain trivial hs
  have hsame := (hrun 0).symm.trans hs'
  cases hsame
  rfl

end SigDecoder

mutual

/-- The tree is the plain one with its references looked up, inside the expansions of `path`. -/
inductive Resolves (r : Resolver) : (path : List Token) → (tree plain : TypeSig) → Prop
  | primitive {path type} : Resolves r path (.primitive type) (.primitive type)
  | sentinel {path} : Resolves r path .sentinel .sentinel
  | generic {path param} : Resolves r path (.generic param) (.generic param)
  | named {path form token} (known : r.isType token = true) :
    Resolves r path (.named form token) (.named form token)
  | unknown {path form token} (unknown : r.isType token = false) :
    Resolves r path (.invalid .invalidCodedIndex) (.named form token)
  | invalid {path cause} : Resolves r path (.invalid cause) (.invalid cause)
  | unknownSpec {path} : Resolves r path (.invalid .invalidCodedIndex) (.invalid .illegalTypeSpec)
  | wrapped {path wrapper tree plain} (inner : Resolves r path tree plain) :
    Resolves r path (.wrapped wrapper tree) (.wrapped wrapper plain)
  | array {path tree plain shape} (base : Resolves r path tree plain) :
    Resolves r path (.array tree shape) (.array plain shape)
  | applied {path form definition trees plains} (known : r.isType definition = true)
      (arguments : ResolvesAll r path trees plains) :
    Resolves r path (.applied form definition trees) (.applied form definition plains)
  | unknownDefinition {path form definition plains} (unknown : r.isType definition = false) :
    Resolves r path (.invalid .invalidCodedIndex) (.applied form definition plains)
  | modified {path required found named tree plain}
      (modifier : ResolvesModifier r path found named) (base : Resolves r path tree plain) :
    Resolves r path (.modified required found tree) (.modified required named plain)

/-- What stands for a modifier. A specification is expanded, but not inside its own expansion, and
not where its blob is missing. -/
inductive ResolvesModifier (r : Resolver) : (path : List Token) → (tree plain : TypeSig) → Prop
  | invalid {path cause} : ResolvesModifier r path (.invalid cause) (.invalid cause)
  | unknown {path token} (unknown : r.isType token = false) :
    ResolvesModifier r path (.invalid .invalidCodedIndex) (.named .cls token)
  | name {path token} (known : r.isType token = true) (notSpec : token.isIn .typeSpec = false) :
    ResolvesModifier r path (.named .cls token) (.named .cls token)
  | loop {path token} (known : r.isType token = true) (spec : token.isIn .typeSpec = true)
      (around : token ∈ path) :
    ResolvesModifier r path (.invalid .metadataLoop) (.named .cls token)
  | missing {path token} (known : r.isType token = true) (spec : token.isIn .typeSpec = true)
      (fresh : token ∉ path) (missing : r.specBlob? token = none) :
    ResolvesModifier r path (.invalid .blobTooShort) (.named .cls token)
  | expansion {path token blob tree plain} (known : r.isType token = true)
      (spec : token.isIn .typeSpec = true) (fresh : token ∉ path)
      (found : r.specBlob? token = some blob) (said : SigDecoder.Says blob plain)
      (inner : Resolves r (token :: path) tree plain) :
    ResolvesModifier r path (.typeSpec token tree) (.named .cls token)

/-- Several trees are the plain ones with their references looked up. -/
inductive ResolvesAll (r : Resolver) : (path : List Token) → (trees plains : List TypeSig) → Prop
  | nil {path} : ResolvesAll r path [] []
  | cons {path tree plain trees plains} (first : Resolves r path tree plain)
      (rest : ResolvesAll r path trees plains) :
    ResolvesAll r path (tree :: trees) (plain :: plains)

end

theorem resolvesAll_iff {r : Resolver} {path : List Token} {trees plains : List TypeSig} :
    ResolvesAll r path trees plains ↔ List.Forall₂ (Resolves r path) trees plains := by
  constructor
  · intro h
    induction trees generalizing plains with
    | nil =>
      cases h
      exact .nil
    | cons tree trees ih =>
      cases h with
      | cons first rest => exact .cons first (ih rest)
  · intro h
    induction h with
    | nil => exact .nil
    | cons first _ ih => exact .cons first ih

namespace SigDecoder

/-! ### References -/

/-- A reference that has been looked up: what names no existing type is invalid. -/
inductive LooksUp (r : Resolver) : (found plain : Except InvalidCause Token) → Prop
  | known {token} (known : r.isType token = true) : LooksUp r (.ok token) (.ok token)
  | unknown {token} (unknown : r.isType token = false) :
    LooksUp r (.error .invalidCodedIndex) (.ok token)
  | invalid {cause} : LooksUp r (.error cause) (.error cause)

variable {r : Resolver}

theorem reference_looksUp : FollowedBy (reference (some r)) (reference none) (LooksUp r) := by
  intro s s' found hrun
  unfold reference at hrun ⊢
  cases hvalue : compressed s with
  | error fault mid =>
    simp only [hvalue, EStateM.Result.ok.injEq] at hrun ⊢
    obtain ⟨rfl, rfl⟩ := hrun
    exact ⟨_, ⟨rfl, rfl⟩, .invalid⟩
  | ok value mid =>
    simp only [hvalue, EStateM.Result.ok.injEq] at hrun ⊢
    obtain ⟨rfl, rfl⟩ := hrun
    refine ⟨_, ⟨rfl, rfl⟩, ?_⟩
    rcases CodedKind.typeDefOrRef.decode value with fault | _ | token
    · exact .invalid
    · exact .invalid
    · by_cases hknown : r.isType token = true
      · simpa [hknown] using LooksUp.known hknown
      · rw [Bool.not_eq_true] at hknown
        simpa [hknown] using LooksUp.unknown hknown

/-- What a reference that may not name a specification gives, looked up. -/
inductive LooksUpPlain (r : Resolver) : (found plain : Except InvalidCause Token) → Prop
  | lookedUp {found plain} (lookedUp : LooksUp r found plain) : LooksUpPlain r found plain
  | unknownSpec : LooksUpPlain r (.error .invalidCodedIndex) (.error .illegalTypeSpec)

theorem plainReference_looksUp :
    FollowedBy (plainReference (some r)) (plainReference none) (LooksUpPlain r) := by
  refine reference_looksUp.bind fun found plain hlookup => ?_
  cases hlookup with
  | @known token hknown =>
    by_cases hspec : token.isIn .typeSpec = true
    · simpa [hspec] using followedBy_pure (.lookedUp .invalid)
    · simpa [hspec] using followedBy_pure (.lookedUp (.known hknown))
  | @unknown token hunknown =>
    by_cases hspec : token.isIn .typeSpec = true
    · simpa [hspec] using followedBy_pure .unknownSpec
    · simpa [hspec] using followedBy_pure (.lookedUp (.unknown hunknown))
  | invalid => exact followedBy_pure (.lookedUp .invalid)

theorem namedType_resolves {path : List Token} (form : NamedForm) :
    FollowedBy (namedType (some r) form) (namedType none form) (Resolves r path) := by
  refine plainReference_looksUp.bind fun found plain hlookup => ?_
  cases hlookup with
  | lookedUp hlookup =>
    cases hlookup with
    | known hknown => exact followedBy_pure (.named hknown)
    | unknown hunknown => exact followedBy_pure (.unknown hunknown)
    | invalid => exact followedBy_pure .invalid
  | unknownSpec => exact followedBy_pure .unknownSpec

/-! ### Nodes

A reading with a resolver is compared with the same reading without one; `ih` is the comparison one
level down. -/

section Nodes

variable {levels : Nat} {ctx : SigContext}
  (ih : ∀ ctx : SigContext, ctx.resolver = some r → FollowedBy (typeAt levels ctx)
    (typeAt levels { ctx with resolver := none }) (Resolves r ctx.expanding.active))
  (hr : ctx.resolver = some r)

include ih hr

theorem modifierType_resolves {token : Token} (known : r.isType token = true) :
    FollowedBy (modifierType ctx (typeAt levels) token)
      (modifierType { ctx with resolver := none } (typeAt levels) token)
      (ResolvesModifier r ctx.expanding.active) := by
  have hplain : modifierType { ctx with resolver := none } (typeAt levels) token =
      pure (.named .cls token) := rfl
  rw [hplain]
  simp only [modifierType, hr]
  by_cases hspec : token.isIn .typeSpec = true
  · rw [if_pos hspec]
    by_cases haround : token ∈ ctx.expanding.active
    · rw [if_pos (Expansions.contains_iff.2 haround)]
      exact followedBy_pure (.loop known hspec haround)
    · rw [if_neg (fun hin => haround (Expansions.contains_iff.1 hin))]
      cases hblob : r.specBlob? token with
      | none => exact followedBy_pure (.missing known hspec haround hblob)
      | some blob =>
        intro s s' tree hrun
        obtain ⟨expansion, mid, hinside, hvalue⟩ := bind_eq_ok.1 hrun
        cases hvalue
        -- The blob is read in a place of its own, and the outer reading stays where it is.
        unfold inside at hinside
        split at hinside
        case h_2 => cases hinside
        case h_1 hnested =>
          cases hinside
          obtain ⟨plain, hsays, hresolves⟩ :=
            ih { ctx with resolver := some r, expanding := ctx.expanding.enter token } rfl _ _ _
              hnested
          have hsaid := says_of_typeAt (s := { s with cursor := { bytes := blob } }) rfl rfl hsays
          refine ⟨_, rfl, .expansion known hspec haround hblob hsaid ?_⟩
          rwa [← Expansions.active_enter haround]
  · rw [if_neg hspec]
    exact followedBy_pure (.name known (by simpa using hspec))

theorem modifiedType_resolves (required : Bool) :
    FollowedBy (modifiedType ctx (typeAt levels) required)
      (modifiedType { ctx with resolver := none } (typeAt levels) required)
      (Resolves r ctx.expanding.active) := by
  unfold modifiedType
  rw [hr]
  refine reference_looksUp.bind fun found plain hlookup => ?_
  cases hlookup with
  | @known token hknown =>
    refine (modifierType_resolves ih hr hknown).bind fun modifier named hmodifier => ?_
    exact (ih ctx hr).map fun tree plain htree => .modified hmodifier htree
  | @unknown token hunknown =>
    exact (ih ctx hr).map fun tree plain htree => .modified (.unknown hunknown) htree
  | @invalid cause =>
    cases cause with
    | blobTooShort => exact followedBy_pure .invalid
    | _ => exact (ih ctx hr).map fun tree plain htree => .modified .invalid htree

theorem appliedType_resolves :
    FollowedBy (appliedType ctx (typeAt levels))
      (appliedType { ctx with resolver := none } (typeAt levels))
      (Resolves r ctx.expanding.active) := by
  refine FollowedBy.behind fun kind => ?_
  cases NamedForm.ofElement? kind with
  | none => exact followedBy_throw _ _ _
  | some form =>
    rw [hr]
    refine plainReference_looksUp.bind fun found plain hlookup => ?_
    have harguments (count : Nat) := followedBy_times (ih ctx hr) count
    -- The arguments are read even where the definition is invalid.
    cases hlookup with
    | lookedUp hlookup =>
      cases hlookup with
      | known hknown =>
        refine FollowedBy.behind fun count => (harguments count).map fun trees plains hall => ?_
        exact .applied hknown (resolvesAll_iff.2 hall)
      | unknown hunknown =>
        refine FollowedBy.behind fun count => (harguments count).map fun trees plains _ => ?_
        exact .unknownDefinition hunknown
      | @invalid cause =>
        cases cause with
        | blobTooShort => exact followedBy_pure .invalid
        | _ => exact FollowedBy.behind fun count => (harguments count).map fun _ _ _ => .invalid
    | unknownSpec =>
      exact FollowedBy.behind fun count => (harguments count).map fun _ _ _ => .unknownSpec

theorem typeAfter_resolves (offset : Nat) (element : UInt8) :
    FollowedBy (typeAfter ctx (typeAt levels) offset element)
      (typeAfter { ctx with resolver := none } (typeAt levels) offset element)
      (Resolves r ctx.expanding.active) := by
  cases starts element with
  | primitive type =>
    rw [typeAfter_primitive, typeAfter_primitive]
    exact followedBy_pure .primitive
  | wrapped wrapper =>
    rw [typeAfter_wrapped, typeAfter_wrapped]
    exact (ih ctx hr).map fun _ _ hinner => .wrapped hinner
  | named form =>
    rw [typeAfter_named, typeAfter_named, hr]
    exact namedType_resolves form
  | sentinel => exact followedBy_pure .sentinel
  | generic kind =>
    rw [typeAfter_generic, typeAfter_generic]
    exact FollowedBy.behind fun index => followedBy_pure .generic
  | array =>
    rw [typeAfter_array, typeAfter_array]
    refine (ih ctx hr).bind fun tree plain hbase => FollowedBy.behind fun shape => ?_
    exact followedBy_pure (.array hbase)
  | applied => exact appliedType_resolves ih hr
  | modified required =>
    rw [typeAfter_modified, typeAfter_modified]
    exact modifiedType_resolves ih hr required
  | nothing hrefused =>
    rw [hrefused]
    exact followedBy_throw _ _ _

end Nodes

/-- **A reading with a resolver follows the bytes.** It gives what the reading without one gives,
with the references looked up, and stops at the same place. -/
theorem typeAt_resolves (levels : Nat) (ctx : SigContext) (hr : ctx.resolver = some r) :
    FollowedBy (typeAt levels ctx) (typeAt levels { ctx with resolver := none })
      (Resolves r ctx.expanding.active) := by
  induction levels generalizing ctx with
  | zero =>
    intro s s' tree hrun
    cases hrun
  | succ levels ih =>
    refine FollowedBy.behind fun offset => FollowedBy.behind fun element => ?_
    exact typeAfter_resolves ih hr offset element

theorem type_resolves (ctx : SigContext) (hr : ctx.resolver = some r) :
    FollowedBy (type ctx) (type { ctx with resolver := none })
      (Resolves r ctx.expanding.active) :=
  fun s => typeAt_resolves (ctx.maxDepth - s.depth) ctx hr s

end SigDecoder

end CilMetadata

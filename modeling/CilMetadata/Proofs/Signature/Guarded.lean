import CilMetadata.Proofs.Signature.Levels
import CilMetadata.Signature.Any

/-!
# A parser that keeps its own books

A reading of signatures is given the specifications around it, and the number of levels left. Here
a parser keeps both itself: it enters a specification before its blob is read and leaves it
afterwards, and it raises a counter for every type and lowers it again.

* `SigParser` is such a parser, `Parsing` a step of it;
* `Parsing.expand` and `Parsing.counted` are the two places that change the books;
* `Parsing.signature` parses a signature of any kind;
* `Threads` compares a step with a reading, and says what is left in the books;
  `signature_threads` is the comparison for whole signatures.
-/

namespace CilMetadata

/-- A parser of signatures: the cursor, the counter of levels, and the specifications that are being
expanded. -/
structure SigParser extends SigState where
  expanding : Expansions := {}
  deriving Repr, Inhabited

/-- A step of a parser. -/
abbrev Parsing := EStateM Fault SigParser

namespace Parsing

variable {α β : Type}

/-! ### Steps -/

/-- A reading that needs neither levels nor expansions. -/
def lift (d : SigDecoder α) : Parsing α := fun p =>
  match d p.toSigState with
  | .ok a s => .ok a { p with toSigState := s }
  | .error fault s => .error fault { p with toSigState := s }

/-- The same step `n` times. -/
def times (d : Parsing α) : (n : Nat) → Parsing (List α)
  | 0 => return []
  | n + 1 => return (← d) :: (← d.times n)

/-- Enter a specification; whether it was not being expanded before. -/
def enter (token : Token) : Parsing Bool := fun p =>
  .ok (!p.expanding.contains token) { p with expanding := p.expanding.enter token }

/-- Leave a specification. -/
def leave (token : Token) : Parsing Unit := modify fun p =>
  { p with expanding := p.expanding.leave token }

/-- The type in the blob of a specification that has been entered; of the parser that goes through
the blob nothing remains but the specifications. -/
def expand (token : Token) (blob : Array UInt8) (nested : Parsing TypeSig) : Parsing TypeSig :=
  fun p =>
    match nested { p with cursor := { bytes := blob } } with
    | .ok tree p' => .ok (.typeSpec token tree) { p with expanding := p'.expanding.leave token }
    | .error fault p' => .error fault { p with expanding := p'.expanding.leave token }

/-- A step with the counter raised. It is lowered again at the end, but not if it has been raised
past the limit. -/
def counted (maxDepth : Nat) (d : Parsing α) : Parsing α := fun p =>
  let deeper := { p with depth := p.depth + 1 }
  if maxDepth < deeper.depth then .error (.recursionLimit maxDepth) deeper
  else
    match d deeper with
    | .ok a p' => .ok a { p' with depth := p'.depth - 1 }
    | .error fault p' => .error fault { p' with depth := p'.depth - 1 }

/-! ### Types -/

section Nodes

variable (resolver : Option Resolver) (nested : Parsing TypeSig)

/-- The type that a modifier's reference stands for; specifications are expanded. -/
def modifierType (token : Token) : Parsing TypeSig :=
  match resolver with
  | none => return .named .cls token
  | some r =>
    if token.isIn .typeSpec then do
      if ← enter token then
        match r.specBlob? token with
        | none =>
          leave token
          return .invalid .blobTooShort
        | some blob => expand token blob nested
      else return .invalid .metadataLoop
    else return .named .cls token

/-- A type under a modifier, after the modifier's element byte. -/
def modifiedType (required : Bool) : Parsing TypeSig := do
  match ← lift (SigDecoder.reference resolver) with
  | .error .blobTooShort => return .invalid .blobTooShort
  | .error cause => return .modified required (.invalid cause) (← nested)
  | .ok token =>
    let modifier ← modifierType resolver nested token
    return .modified required modifier (← nested)

/-- A generic type with its arguments, after the element byte. -/
def appliedType : Parsing TypeSig := do
  let kind ← lift SigDecoder.byte
  match NamedForm.ofElement? kind with
  | none => throw (.malformed (.instanceKind kind))
  | some form =>
    match ← lift (SigDecoder.plainReference resolver) with
    | .error .blobTooShort => return .invalid .blobTooShort
    | .error cause =>
      let _ ← times nested (← lift SigDecoder.compressed)
      return .invalid cause
    | .ok definition =>
      return .applied form definition (← times nested (← lift SigDecoder.compressed))

/-- A type whose element byte has been read at `offset`. -/
def typeAfter (offset : Nat) (element : UInt8) : Parsing TypeSig :=
  match Primitive.ofElement? element with
  | some type => return .primitive type
  | none =>
    match Wrapper.ofElement? element with
    | some wrapper => return .wrapped wrapper (← nested)
    | none =>
      match NamedForm.ofElement? element with
      | some form => lift (SigDecoder.namedType resolver form)
      | none =>
        if element = Element.sentinel then return .sentinel
        else if element = GenericKind.type.element then
          return .generic ⟨.type, ← lift SigDecoder.compressed⟩
        else if element = GenericKind.method.element then
          return .generic ⟨.method, ← lift SigDecoder.compressed⟩
        else if element = Element.array then
          return .array (← nested) (← lift SigDecoder.arrayShape)
        else if element = Element.applied then appliedType resolver nested
        else if element = Element.requiredModifier then modifiedType resolver nested true
        else if element = Element.optionalModifier then modifiedType resolver nested false
        else if element = Element.functionPointer then
          throw (.notImplemented "function pointer signatures")
        else throw (.malformed (.elementType element offset))

end Nodes

/-! ### Headed signatures -/

section Headed

variable (resolver : Option Resolver) (maxDepth : Nat)

/-- A type; the counter gives out before the steps do. -/
def typeWithin : (steps : Nat) → Parsing TypeSig
  | 0 => throw (.recursionLimit maxDepth)
  | steps + 1 => counted maxDepth do
    let offset ← lift (SigDecoder.lift Decoder.position)
    let element ← lift SigDecoder.byte
    typeAfter resolver (typeWithin steps) offset element

/-- A type. -/
def type : Parsing TypeSig := typeWithin resolver maxDepth (maxDepth + 1)

/-- Parse parameters until `count` have been parsed; those behind a sentinel are variable ones. -/
def params : (count : Nat) → Parsing (List TypeSig × List TypeSig)
  | 0 => return ([], [])
  | count + 1 => do
    if (← lift (SigDecoder.lift Decoder.peekByte)) = Element.sentinel then
      lift (SigDecoder.lift (Decoder.skip 1))
      return ([], ← times (type resolver maxDepth) (count + 1))
    else
      let param ← type resolver maxDepth
      let (fixed, varargs) ← params count
      return (param :: fixed, varargs)

/-- The signature of a method. -/
def method : Parsing MethodSig := do
  let head ← lift SigDecoder.byte
  let convention := head &&& Header.conventionMask
  if Header.lastConvention < convention then throw (.malformed (.callingConvention head))
  else
    let genericCount ←
      if head &&& Header.genericBit = 0 then pure 0 else lift SigDecoder.compressed
    let count ← lift SigDecoder.compressed
    let returnType ← type resolver maxDepth
    let (fixed, varargs) ← params resolver maxDepth count
    return {
      convention, genericCount, returnType, varargs
      hasThis := head &&& Header.thisBit != 0
      explicitThis := head &&& Header.explicitThisBit != 0
      params := fixed }

/-- The signature of a field. -/
def field : Parsing FieldSig := do
  let head ← lift SigDecoder.byte
  if head = Header.field then return { fieldType := ← type resolver maxDepth }
  else throw (.malformed (.fieldHeader head))

/-- The signature of a property. -/
def property : Parsing PropertySig := do
  let head ← lift SigDecoder.byte
  if head &&& Header.conventionMask = Header.property then
    let count ← lift SigDecoder.compressed
    let propertyType ← type resolver maxDepth
    return { hasThis := head &&& Header.thisBit != 0, propertyType
             params := ← times (type resolver maxDepth) count }
  else throw (.malformed (.propertyHeader head))

/-- The types of local variables. -/
def locals : Parsing LocalsSig := do
  let head ← lift SigDecoder.byte
  if head = Header.locals then
    return { locals := ← times (type resolver maxDepth) (← lift SigDecoder.compressed) }
  else throw (.malformed (.localsHeader head))

/-- The arguments of a generic method. -/
def methodSpec : Parsing MethodSpecSig := do
  let head ← lift SigDecoder.byte
  if head = Header.methodSpec then
    return { arguments := ← times (type resolver maxDepth) (← lift SigDecoder.compressed) }
  else throw (.malformed (.methodSpecHeader head))

/-- A signature of the given kind. -/
def signature : SigKind → Parsing Signature
  | .type => return .type (← type resolver maxDepth)
  | .method => return .method (← method resolver maxDepth)
  | .field => return .field (← field resolver maxDepth)
  | .property => return .property (← property resolver maxDepth)
  | .locals => return .locals (← locals resolver maxDepth)
  | .methodSpec => return .methodSpec (← methodSpec resolver maxDepth)

end Headed

end Parsing

theorem Expansions.leave_enter {set : Expansions} {token : Token} (h : token ∉ set.active) :
    (set.enter token).leave token = set := by
  have hkept : set.active.filter (· != token) = set.active :=
    List.filter_eq_self.2 fun other hother => by
      simpa using fun hsame : other = token => h (hsame ▸ hother)
  rw [leave, active_enter h, List.filter_cons_of_neg (by simp), hkept]

theorem Expansions.not_mem {set : Expansions} {token : Token} (h : set.contains token = false) :
    token ∉ set.active := by
  simpa [contains] using h

/-! ### Readings that keep no books -/

namespace SigDecoder

variable {α β : Type}

/-- The reading takes no notice of the levels in use, and does not run out of them. -/
structure Plain (d : SigDecoder α) : Prop where
  ok : ∀ c depth a s, d { cursor := c, depth } = .ok a s →
    s.depth = depth ∧ ∀ depth', d { cursor := c, depth := depth' } =
      .ok a { cursor := s.cursor, depth := depth' }
  error : ∀ c depth fault s, d { cursor := c, depth } = .error fault s →
    ¬ fault.IsLimit ∧ s.depth = depth ∧ ∀ depth', d { cursor := c, depth := depth' } =
      .error fault { cursor := s.cursor, depth := depth' }

theorem plain_lift {d : Decoder α} (h : FailsWith d Fault.OfData) : Plain (lift d) := by
  constructor
  · intro c depth a s hrun
    unfold lift at hrun ⊢
    cases hd : d c with
    | ok b c' =>
      simp only [hd] at hrun ⊢
      cases hrun
      exact ⟨rfl, fun _ => rfl⟩
    | error fault c' =>
      simp only [hd] at hrun
      cases hrun
  · intro c depth fault s hrun
    unfold lift at hrun ⊢
    cases hd : d c with
    | ok b c' =>
      simp only [hd] at hrun
      cases hrun
    | error fault' c' =>
      simp only [hd] at hrun ⊢
      cases hrun
      exact ⟨(h _ _ _ hd).not_isLimit, rfl, fun _ => rfl⟩

theorem plain_pure (a : α) : Plain (pure a : SigDecoder α) := by
  constructor
  · intro c depth b s hrun
    cases hrun
    exact ⟨rfl, fun _ => rfl⟩
  · intro c depth fault s hrun
    cases hrun

theorem Plain.bind {d : SigDecoder α} {f : α → SigDecoder β} (h : Plain d)
    (hrest : ∀ a, Plain (f a)) : Plain (d >>= f) := by
  constructor
  · intro c depth b s hrun
    obtain ⟨a, ⟨c', _⟩, hd, hf⟩ := bind_eq_ok.1 hrun
    obtain ⟨rfl, hd'⟩ := h.ok _ _ _ _ hd
    obtain ⟨hdepth, hf'⟩ := (hrest a).ok _ _ _ _ hf
    exact ⟨hdepth, fun depth' => bind_eq_ok.2 ⟨a, _, hd' depth', hf' depth'⟩⟩
  · intro c depth fault s hrun
    rcases bind_eq_error.1 hrun with hd | ⟨a, ⟨c', _⟩, hd, hf⟩
    · obtain ⟨hlimit, hdepth, hd'⟩ := h.error _ _ _ _ hd
      exact ⟨hlimit, hdepth, fun depth' => bind_of_error (hd' depth')⟩
    · obtain ⟨rfl, hd'⟩ := h.ok _ _ _ _ hd
      obtain ⟨hlimit, hdepth, hf'⟩ := (hrest a).error _ _ _ _ hf
      exact ⟨hlimit, hdepth, fun depth' => (bind_of_ok (hd' depth')).trans (hf' depth')⟩

theorem plain_times {d : SigDecoder α} (h : Plain d) (count : Nat) : Plain (times d count) := by
  induction count with
  | zero => exact plain_pure []
  | succ count ih => exact h.bind fun a => ih.bind fun rest => plain_pure (a :: rest)

theorem plain_byte : Plain byte := plain_lift Decoder.failsWith_byte

theorem plain_compressed : Plain compressed := plain_lift Decoder.advances_compressed.fails

theorem plain_reference (resolver : Option Resolver) : Plain (reference resolver) := by
  have hinteger := plain_compressed
  constructor
  · intro c depth found s hrun
    unfold reference at hrun ⊢
    cases hvalue : compressed { cursor := c, depth } with
    | ok value s' =>
      obtain ⟨hdepth, hvalue'⟩ := hinteger.ok _ _ _ _ hvalue
      simp only [hvalue] at hrun
      cases hrun
      exact ⟨hdepth, fun depth' => by simp only [hvalue' depth']⟩
    | error fault s' =>
      obtain ⟨-, hdepth, hvalue'⟩ := hinteger.error _ _ _ _ hvalue
      simp only [hvalue] at hrun
      cases hrun
      exact ⟨hdepth, fun depth' => by simp only [hvalue' depth']⟩
  · intro c depth fault s hrun
    unfold reference at hrun
    cases hvalue : compressed { cursor := c, depth } with
    | ok value s' =>
      simp only [hvalue] at hrun
      cases hrun
    | error fault' s' =>
      simp only [hvalue] at hrun
      cases hrun

theorem plain_plainReference (resolver : Option Resolver) : Plain (plainReference resolver) := by
  refine (plain_reference resolver).bind fun found => ?_
  rcases found with cause | token
  · exact plain_pure _
  · dsimp only
    split_ifs
    · exact plain_pure _
    · exact plain_pure _

theorem plain_namedType (resolver : Option Resolver) (form : NamedForm) :
    Plain (namedType resolver form) := by
  refine (plain_plainReference resolver).bind fun found => ?_
  rcases found with cause | token
  · exact plain_pure _
  · exact plain_pure _

theorem plain_arrayShape : Plain arrayShape := by
  refine plain_compressed.bind fun rank => plain_compressed.bind fun sizeCount => ?_
  refine (plain_times plain_compressed sizeCount).bind fun sizes => ?_
  refine plain_compressed.bind fun boundCount => ?_
  have hbound : Plain (lift Decoder.compressedSigned) :=
    plain_lift Decoder.advances_compressedSigned.fails
  exact (plain_times hbound boundCount).bind fun bounds => plain_pure _

end SigDecoder

/-! ### Readings of other blobs -/

namespace SigDecoder

variable {α : Type} {d : SigDecoder α} {blob : Array UInt8} {s s' : SigState}

theorem inside_eq_ok {a : α} (h : inside blob d s = .ok a s') :
    s' = s ∧ ∃ t, d { s with cursor := { bytes := blob } } = .ok a t := by
  unfold inside at h
  split at h
  case h_1 t hd =>
    cases h
    exact ⟨rfl, t, hd⟩
  case h_2 => cases h

theorem inside_eq_error {fault : Fault} (h : inside blob d s = .error fault s') :
    s' = s ∧ ∃ t, d { s with cursor := { bytes := blob } } = .error fault t := by
  unfold inside at h
  split at h
  case h_1 => cases h
  case h_2 t hd =>
    cases h
    exact ⟨rfl, t, hd⟩

end SigDecoder

/-! ### The comparison -/

namespace Parsing

variable {α β : Type}

/-- How many levels a failure leaves in use: one if the levels gave out in the outermost blob.
Inside the blob of a specification, which takes a resolver, they are counted by another parser. -/
inductive Leaks (resolver : Option Resolver) : Fault → Nat → Prop
  | nothing {fault : Fault} (other : ¬ fault.IsLimit) : Leaks resolver fault 0
  | inside (limit : Nat) (resolves : resolver ≠ none) :
    Leaks resolver (.recursionLimit limit) 0
  | outermost (limit : Nat) : Leaks resolver (.recursionLimit limit) 1

/-- What a parser in another blob leaves in use is forgotten. -/
theorem Leaks.settled {resolver : Option Resolver} {fault : Fault} {leak : Nat}
    (h : Leaks resolver fault leak) (hresolver : resolver ≠ none) : Leaks resolver fault 0 := by
  cases h with
  | nothing other => exact .nothing other
  | inside limit => exact .inside limit hresolver
  | outermost limit => exact .inside limit hresolver

/-- With the counter at `depth`, and whatever is being expanded, the step does what the reading does
with `base` levels in use. Afterwards the same specifications are being expanded, and the counter
is back at `depth` but for the level that a failure leaves in use. -/
structure Threads (resolver : Option Resolver) (depth base : Nat) (d : Parsing α)
    (d' : Expansions → SigDecoder α) : Prop where
  ok : ∀ c expanding a s, d' expanding { cursor := c, depth := base } = .ok a s →
    s.depth = base ∧
      d { cursor := c, depth, expanding } = .ok a { cursor := s.cursor, depth, expanding }
  error : ∀ c expanding fault s, d' expanding { cursor := c, depth := base } = .error fault s →
    ∃ leak, Leaks resolver fault leak ∧ s.depth = base + leak ∧
      d { cursor := c, depth, expanding } =
        .error fault { cursor := s.cursor, depth := depth + leak, expanding }

variable {resolver : Option Resolver} {depth base : Nat}

theorem threads_lift {d : SigDecoder α} (h : d.Plain) :
    Threads resolver depth base (lift d) fun _ => d := by
  constructor
  · intro c expanding a s hrun
    obtain ⟨hdepth, hd⟩ := h.ok _ _ _ _ hrun
    exact ⟨hdepth, by simp only [lift, hd depth]⟩
  · intro c expanding fault s hrun
    obtain ⟨hlimit, hdepth, hd⟩ := h.error _ _ _ _ hrun
    exact ⟨0, .nothing hlimit, hdepth, by simp only [lift, hd depth, Nat.add_zero]⟩

theorem threads_pure (a : α) : Threads resolver depth base (pure a) fun _ => pure a := by
  constructor
  · intro c expanding b s hrun
    cases hrun
    exact ⟨rfl, rfl⟩
  · intro c expanding fault s hrun
    cases hrun

theorem threads_throw {fault : Fault} (h : ¬ fault.IsLimit) :
    Threads resolver depth base (throw fault : Parsing α) fun _ => throw fault := by
  constructor
  · intro c expanding a s hrun
    cases hrun
  · intro c expanding fault' s hrun
    cases hrun
    exact ⟨0, .nothing h, rfl, rfl⟩

theorem Threads.bind {d : Parsing α} {d' : Expansions → SigDecoder α} {f : α → Parsing β}
    {f' : Expansions → α → SigDecoder β} (h : Threads resolver depth base d d')
    (hrest : ∀ a, Threads resolver depth base (f a) fun expanding => f' expanding a) :
    Threads resolver depth base (d >>= f) fun expanding => d' expanding >>= f' expanding := by
  constructor
  · intro c expanding b s hrun
    obtain ⟨a, ⟨c', _⟩, hd', hf'⟩ := bind_eq_ok.1 hrun
    obtain ⟨rfl, hd⟩ := h.ok _ _ _ _ hd'
    obtain ⟨hdepth, hf⟩ := (hrest a).ok _ _ _ _ hf'
    exact ⟨hdepth, (bind_of_ok hd).trans hf⟩
  · intro c expanding fault s hrun
    rcases bind_eq_error.1 hrun with hd' | ⟨a, ⟨c', _⟩, hd', hf'⟩
    · obtain ⟨leak, hleak, hdepth, hd⟩ := h.error _ _ _ _ hd'
      exact ⟨leak, hleak, hdepth, bind_of_error hd⟩
    · obtain ⟨rfl, hd⟩ := h.ok _ _ _ _ hd'
      obtain ⟨leak, hleak, hdepth, hf⟩ := (hrest a).error _ _ _ _ hf'
      exact ⟨leak, hleak, hdepth, (bind_of_ok hd).trans hf⟩

theorem Threads.map {d : Parsing α} {d' : Expansions → SigDecoder α}
    (h : Threads resolver depth base d d') (f : α → β) :
    Threads resolver depth base (do return f (← d)) fun expanding =>
      do return f (← d' expanding) :=
  h.bind fun a => threads_pure (f a)

/-- The same test on both sides. -/
theorem threads_ite {p : Prop} [Decidable p] {d e : Parsing α} {d' e' : Expansions → SigDecoder α}
    (h : Threads resolver depth base d d') (h' : Threads resolver depth base e e') :
    Threads resolver depth base (if p then d else e) fun expanding =>
      if p then d' expanding else e' expanding := by
  by_cases hp : p
  · simpa only [if_pos hp] using h
  · simpa only [if_neg hp] using h'

theorem threads_times {d : Parsing α} {d' : Expansions → SigDecoder α}
    (h : Threads resolver depth base d d') (count : Nat) :
    Threads resolver depth base (times d count) fun expanding => (d' expanding).times count := by
  induction count with
  | zero => exact threads_pure []
  | succ count ih => exact h.bind fun a => ih.map (a :: ·)

/-! ### Types -/

/-- A specification that is not being expanded is entered, its blob is read, and it is left. -/
theorem modifierType_fresh {r : Resolver} {token : Token} {blob : Array UInt8} (p : SigParser)
    (hspec : token.isIn .typeSpec = true) (hfresh : p.expanding.contains token = false)
    (hblob : r.specBlob? token = some blob) (nested : Parsing TypeSig) :
    modifierType (some r) nested token p =
      expand token blob nested { p with expanding := p.expanding.enter token } := by
  have henter : enter token p = .ok true { p with expanding := p.expanding.enter token } := by
    simp only [enter, hfresh, Bool.not_false]
  simp only [modifierType, if_pos hspec, bind_of_ok henter, hblob, if_true]

theorem modifierType_entered {r : Resolver} {token : Token} (p : SigParser)
    (hspec : token.isIn .typeSpec = true) (haround : p.expanding.contains token = true)
    (nested : Parsing TypeSig) :
    modifierType (some r) nested token p = .ok (.invalid .metadataLoop) p := by
  have henter : enter token p = .ok false p := by
    simp only [enter, haround, Bool.not_true, Expansions.enter, if_true]
  simp only [modifierType, if_pos hspec, bind_of_ok henter, if_neg Bool.false_ne_true]
  rfl

theorem modifierType_missing {r : Resolver} {token : Token} (p : SigParser)
    (hspec : token.isIn .typeSpec = true) (hfresh : p.expanding.contains token = false)
    (hblob : r.specBlob? token = none) (nested : Parsing TypeSig) :
    modifierType (some r) nested token p = .ok (.invalid .blobTooShort) p := by
  have henter : enter token p = .ok true { p with expanding := p.expanding.enter token } := by
    simp only [enter, hfresh, Bool.not_false]
  have hleave : leave token { p with expanding := p.expanding.enter token } =
      .ok () { p with expanding := (p.expanding.enter token).leave token } := rfl
  rw [Expansions.leave_enter (Expansions.not_mem hfresh)] at hleave
  simp only [modifierType, if_pos hspec, bind_of_ok henter, hblob, if_true, bind_of_ok hleave]
  rfl

section Nodes

variable {maxDepth : Nat} {nested : Parsing TypeSig} {nested' : SigContext → SigDecoder TypeSig}
  (hnested : Threads resolver depth base nested fun expanding =>
    nested' { resolver, maxDepth, expanding })

include hnested

/-- A modifier leaves the specifications as they were, whatever comes of the blobs. -/
theorem modifierType_threads (token : Token) :
    Threads resolver depth base (modifierType resolver nested token) fun expanding =>
      SigDecoder.modifierType { resolver, maxDepth, expanding } nested' token := by
  cases hr : resolver with
  | none => exact threads_pure _
  | some r =>
    rw [hr] at hnested
    unfold SigDecoder.modifierType
    dsimp only
    by_cases hspec : token.isIn .typeSpec = true
    case neg =>
      simp only [modifierType, if_neg hspec]
      exact threads_pure _
    simp only [if_pos hspec]
    constructor
    · intro c expanding tree s hrun
      cases haround : expanding.contains token with
      | true =>
        simp only [haround, if_true] at hrun
        cases hrun
        exact ⟨rfl, modifierType_entered _ hspec haround nested⟩
      | false =>
        simp only [haround, Bool.false_eq_true, if_false] at hrun
        cases hblob : r.specBlob? token with
        | none =>
          rw [hblob] at hrun
          cases hrun
          exact ⟨rfl, modifierType_missing _ hspec haround hblob nested⟩
        | some blob =>
          rw [hblob] at hrun
          obtain ⟨inner, mid, hinside, hpure⟩ := bind_eq_ok.1 hrun
          obtain ⟨rfl, t, hread⟩ := SigDecoder.inside_eq_ok hinside
          cases hpure
          obtain ⟨-, hparse⟩ := hnested.ok _ _ _ _ hread
          refine ⟨rfl, ?_⟩
          rw [modifierType_fresh _ hspec haround hblob nested]
          simp only [expand, hparse, Expansions.leave_enter (Expansions.not_mem haround)]
    · intro c expanding fault s hrun
      cases haround : expanding.contains token with
      | true =>
        simp only [haround, if_true] at hrun
        cases hrun
      | false =>
        simp only [haround, Bool.false_eq_true, if_false] at hrun
        cases hblob : r.specBlob? token with
        | none =>
          rw [hblob] at hrun
          cases hrun
        | some blob =>
          rw [hblob] at hrun
          rcases bind_eq_error.1 hrun with hinside | ⟨_, _, -, hpure⟩
          case inr => cases hpure
          obtain ⟨rfl, t, hread⟩ := SigDecoder.inside_eq_error hinside
          obtain ⟨leak, hleak, -, hparse⟩ := hnested.error _ _ _ _ hread
          refine ⟨0, hleak.settled (Option.some_ne_none r), rfl, ?_⟩
          rw [modifierType_fresh _ hspec haround hblob nested]
          simp only [expand, hparse, Expansions.leave_enter (Expansions.not_mem haround),
            Nat.add_zero]

theorem modifiedType_threads (required : Bool) :
    Threads resolver depth base (modifiedType resolver nested required) fun expanding =>
      SigDecoder.modifiedType { resolver, maxDepth, expanding } nested' required := by
  refine (threads_lift (SigDecoder.plain_reference resolver)).bind fun found => ?_
  rcases found with cause | token
  · cases cause with
    | blobTooShort => exact threads_pure _
    | _ => exact hnested.map _
  · exact (modifierType_threads hnested token).bind fun modifier => hnested.map _

theorem appliedType_threads :
    Threads resolver depth base (appliedType resolver nested) fun expanding =>
      SigDecoder.appliedType { resolver, maxDepth, expanding } nested' := by
  have hinteger : Threads resolver depth base (lift SigDecoder.compressed) fun _ =>
    SigDecoder.compressed := threads_lift SigDecoder.plain_compressed
  have harguments (count : Nat) := threads_times hnested count
  refine (threads_lift SigDecoder.plain_byte).bind fun kind => ?_
  dsimp only
  cases NamedForm.ofElement? kind with
  | none => exact threads_throw (Fault.OfData.not_isLimit trivial)
  | some form =>
    refine (threads_lift (SigDecoder.plain_plainReference resolver)).bind fun found => ?_
    rcases found with cause | definition
    · cases cause with
      | blobTooShort => exact threads_pure _
      | _ => exact hinteger.bind fun count => (harguments count).map _
    · exact hinteger.bind fun count => (harguments count).map _

theorem typeAfter_threads (offset : Nat) (element : UInt8) :
    Threads resolver depth base (typeAfter resolver nested offset element) fun expanding =>
      SigDecoder.typeAfter { resolver, maxDepth, expanding } nested' offset element := by
  have hinteger : Threads resolver depth base (lift SigDecoder.compressed) fun _ =>
    SigDecoder.compressed := threads_lift SigDecoder.plain_compressed
  unfold typeAfter SigDecoder.typeAfter
  cases Primitive.ofElement? element with
  | some type => exact threads_pure _
  | none =>
    cases Wrapper.ofElement? element with
    | some wrapper => exact hnested.map _
    | none =>
      cases NamedForm.ofElement? element with
      | some form => exact threads_lift (SigDecoder.plain_namedType resolver form)
      | none =>
        dsimp only
        refine threads_ite (threads_pure _) ?_
        refine threads_ite (hinteger.map _) ?_
        refine threads_ite (hinteger.map _) ?_
        refine threads_ite
          (hnested.bind fun _ => (threads_lift SigDecoder.plain_arrayShape).map _) ?_
        refine threads_ite (appliedType_threads hnested) ?_
        refine threads_ite (modifiedType_threads hnested true) ?_
        refine threads_ite (modifiedType_threads hnested false) ?_
        refine threads_ite (threads_throw ?_) (threads_throw ?_)
        · rintro ⟨limit, hlimit⟩
          cases hlimit
        · exact Fault.OfData.not_isLimit trivial

end Nodes

/-- A counted step lowers the counter again, whether it succeeds or fails. -/
theorem counted_threads {maxDepth : Nat} {d : Parsing α} {d' : Expansions → SigDecoder α}
    (hlevel : depth + 1 ≤ maxDepth) (h : Threads resolver (depth + 1) base d d') :
    Threads resolver depth base (counted maxDepth d) d' := by
  constructor
  · intro c expanding a s hrun
    obtain ⟨hdepth, hd⟩ := h.ok _ _ _ _ hrun
    refine ⟨hdepth, ?_⟩
    simp only [counted, if_neg (Nat.not_lt.2 hlevel), hd, Nat.add_sub_cancel]
  · intro c expanding fault s hrun
    obtain ⟨leak, hleak, hdepth, hd⟩ := h.error _ _ _ _ hrun
    refine ⟨leak, hleak, hdepth, ?_⟩
    simp only [counted, if_neg (Nat.not_lt.2 hlevel), hd]
    rw [Nat.add_right_comm, Nat.add_sub_cancel]

/-- With enough steps for the counter to give out, a type is parsed as it is read with the levels
that the counter leaves. -/
theorem typeWithin_threads (resolver : Option Resolver) (maxDepth : Nat) {steps depth : Nat}
    (hsteps : 0 < steps) (henough : maxDepth < depth + steps) (base : Nat) :
    Threads resolver depth base (typeWithin resolver maxDepth steps) fun expanding =>
      SigDecoder.typeAt (maxDepth - depth) { resolver, maxDepth, expanding } := by
  induction steps generalizing depth with
  | zero => exact absurd hsteps (Nat.lt_irrefl 0)
  | succ steps ih =>
    by_cases hlevel : depth + 1 ≤ maxDepth
    · obtain ⟨levels, hlevels⟩ := Nat.exists_eq_add_of_le hlevel
      have hhere : maxDepth - depth = levels + 1 := by omega
      have hbelow : maxDepth - (depth + 1) = levels := by omega
      have hnested := @ih (depth + 1) (by omega) (by omega)
      rw [hbelow] at hnested
      rw [hhere]
      refine counted_threads hlevel ?_
      refine (threads_lift (SigDecoder.plain_lift Decoder.failsWith_position)).bind
        fun offset => ?_
      exact (threads_lift SigDecoder.plain_byte).bind fun element =>
        typeAfter_threads hnested offset element
    · -- No level is left, here and there.
      have hnone : maxDepth - depth = 0 := by omega
      rw [hnone]
      constructor
      · intro c expanding tree s hrun
        cases hrun
      · intro c expanding fault s hrun
        cases hrun
        refine ⟨1, .outermost maxDepth, rfl, ?_⟩
        simp only [typeWithin, counted, if_pos (Nat.lt_of_not_le hlevel)]

/-! ### Headed signatures -/

section Headed

variable (resolver : Option Resolver) (maxDepth depth : Nat)

theorem type_threads :
    Threads resolver depth depth (type resolver maxDepth) fun expanding =>
      SigDecoder.type { resolver, maxDepth, expanding } := by
  have hlast : maxDepth < depth + (maxDepth + 1) := by omega
  have hwithin := typeWithin_threads resolver maxDepth (Nat.succ_pos maxDepth) hlast depth
  exact ⟨hwithin.ok, hwithin.error⟩

theorem params_threads (count : Nat) :
    Threads resolver depth depth (params resolver maxDepth count) fun expanding =>
      SigDecoder.params { resolver, maxDepth, expanding } count := by
  have htype := type_threads resolver maxDepth depth
  induction count with
  | zero => exact threads_pure _
  | succ count ih =>
    refine (threads_lift (SigDecoder.plain_lift Decoder.failsWith_peekByte)).bind fun next => ?_
    refine threads_ite ?_ ?_
    · refine (threads_lift (SigDecoder.plain_lift (Decoder.failsWith_skip 1))).bind fun _ => ?_
      exact (threads_times htype (count + 1)).map _
    · exact htype.bind fun param => ih.map _

theorem method_threads :
    Threads resolver depth depth (method resolver maxDepth) fun expanding =>
      SigDecoder.method { resolver, maxDepth, expanding } := by
  have hinteger : Threads resolver depth depth (lift SigDecoder.compressed) fun _ =>
    SigDecoder.compressed := threads_lift SigDecoder.plain_compressed
  have hparams (count : Nat) := params_threads resolver maxDepth depth count
  refine (threads_lift SigDecoder.plain_byte).bind fun head => ?_
  refine threads_ite (threads_throw (Fault.OfData.not_isLimit trivial)) ?_
  refine threads_ite ((threads_pure 0).bind fun genericCount => ?_)
    (hinteger.bind fun genericCount => ?_)
  · exact hinteger.bind fun count => (type_threads resolver maxDepth depth).bind fun returnType =>
      (hparams count).map _
  · exact hinteger.bind fun count => (type_threads resolver maxDepth depth).bind fun returnType =>
      (hparams count).map _

theorem field_threads :
    Threads resolver depth depth (field resolver maxDepth) fun expanding =>
      SigDecoder.field { resolver, maxDepth, expanding } := by
  refine (threads_lift SigDecoder.plain_byte).bind fun head => ?_
  exact threads_ite ((type_threads resolver maxDepth depth).map _)
    (threads_throw (Fault.OfData.not_isLimit trivial))

theorem property_threads :
    Threads resolver depth depth (property resolver maxDepth) fun expanding =>
      SigDecoder.property { resolver, maxDepth, expanding } := by
  have htype := type_threads resolver maxDepth depth
  refine (threads_lift SigDecoder.plain_byte).bind fun head => ?_
  refine threads_ite ?_ (threads_throw (Fault.OfData.not_isLimit trivial))
  refine (threads_lift SigDecoder.plain_compressed).bind fun count => ?_
  exact htype.bind fun propertyType => (threads_times htype count).map _

theorem locals_threads :
    Threads resolver depth depth (locals resolver maxDepth) fun expanding =>
      SigDecoder.locals { resolver, maxDepth, expanding } := by
  have htype := type_threads resolver maxDepth depth
  refine (threads_lift SigDecoder.plain_byte).bind fun head => ?_
  refine threads_ite ?_ (threads_throw (Fault.OfData.not_isLimit trivial))
  refine (threads_lift SigDecoder.plain_compressed).bind fun count => ?_
  exact (threads_times htype count).map _

theorem methodSpec_threads :
    Threads resolver depth depth (methodSpec resolver maxDepth) fun expanding =>
      SigDecoder.methodSpec { resolver, maxDepth, expanding } := by
  have htype := type_threads resolver maxDepth depth
  refine (threads_lift SigDecoder.plain_byte).bind fun head => ?_
  refine threads_ite ?_ (threads_throw (Fault.OfData.not_isLimit trivial))
  refine (threads_lift SigDecoder.plain_compressed).bind fun count => ?_
  exact (threads_times htype count).map _

/-- **A parser does what the reading does**, and keeps its books but for a level that it may leave
in use when it runs out of them. -/
theorem signature_threads (kind : SigKind) :
    Threads resolver depth depth (signature resolver maxDepth kind) fun expanding =>
      Signature.decode { resolver, maxDepth, expanding } kind := by
  cases kind with
  | type => exact (type_threads resolver maxDepth depth).map _
  | method => exact (method_threads resolver maxDepth depth).map _
  | field => exact (field_threads resolver maxDepth depth).map _
  | property => exact (property_threads resolver maxDepth depth).map _
  | locals => exact (locals_threads resolver maxDepth depth).map _
  | methodSpec => exact (methodSpec_threads resolver maxDepth depth).map _

end Headed

end Parsing

end CilMetadata

import CilMetadata.Proofs.Bytes.Minimal
import CilMetadata.Proofs.Signature.Depth

/-!
# What the bytes of a signature say

The grammar of signature blobs as a relation: `TypeSig.Spells bytes codes sig` says that the bytes
spell the tree, and that `codes` are the coded values of its references, in their order. A tree has
many spellings, since compressed integers come in several widths and the first byte of a method or
a property has bits without meaning; the grammar does not say which one is written.

* `TypeSig.Spells` and `SpellsAll` are the grammar of types, `Signature.Spells` that of the kinds;
* `CodedWithin bytes code`: the coded value is somewhere in the bytes, as those of a spelling are
  (`Signature.Spells.codedWithin`);
* `SigDecoder.Takes d post`: whenever `d` succeeds, it stops right behind bytes that lay ahead, and
  `post` relates these bytes to the value;
* `takes_decode`: what is read without a resolver is spelled by the bytes that are taken, unless a
  node of it is invalid.
-/

namespace CilMetadata

/-! ### The grammar of types -/

/-- The bytes are a reference to the token, by the coded value `code`. -/
structure SpellsReference (bytes : List UInt8) (code : Nat) (token : Token) : Prop where
  compressed : IsCompressed bytes code
  decoded : CodedKind.typeDefOrRef.decode code = .ok (some token)

/-- The bytes are the numbers, one after the other, each of them spelled as `one` says. -/
inductive SpellsEach {α : Type} (one : List UInt8 → α → Prop) : List UInt8 → List α → Prop
  | nil : SpellsEach one [] []
  | cons {first rest item items} (h : one first item) (hrest : SpellsEach one rest items) :
    SpellsEach one (first ++ rest) (item :: items)

/-- The bytes are the shape of an array. -/
inductive SpellsShape : List UInt8 → ArrayShape → Prop
  | mk {rank sizeCount sizes boundCount bounds shape}
      (hrank : IsCompressed rank shape.rank)
      (hsizeCount : IsCompressed sizeCount shape.sizes.length)
      (hsizes : SpellsEach IsCompressed sizes shape.sizes)
      (hboundCount : IsCompressed boundCount shape.lowerBounds.length)
      (hbounds : SpellsEach IsCompressedSigned bounds shape.lowerBounds) :
    SpellsShape (rank ++ (sizeCount ++ (sizes ++ (boundCount ++ bounds)))) shape

namespace TypeSig

mutual

/-- The bytes spell the tree; `codes` are the coded values of its references. -/
inductive Spells : (bytes : List UInt8) → (codes : List Nat) → TypeSig → Prop
  | primitive (type : Primitive) : Spells [type.element] [] (.primitive type)
  | sentinel : Spells [Element.sentinel] [] .sentinel
  | named {bytes code token} (form : NamedForm) (h : SpellsReference bytes code token)
      (plain : token.isIn .typeSpec = false) :
    Spells (form.element :: bytes) [code] (.named form token)
  | wrapped {bytes codes inner} (wrapper : Wrapper) (h : Spells bytes codes inner) :
    Spells (wrapper.element :: bytes) codes (.wrapped wrapper inner)
  | array {bytes codes base shape shapeBytes} (h : Spells bytes codes base)
      (hshape : SpellsShape shapeBytes shape) :
    Spells (Element.array :: (bytes ++ shapeBytes)) codes (.array base shape)
  | generic {bytes index} (kind : GenericKind) (h : IsCompressed bytes index) :
    Spells (kind.element :: bytes) [] (.generic ⟨kind, index⟩)
  | applied {bytes code definition count arguments argumentBytes codes} (form : NamedForm)
      (h : SpellsReference bytes code definition) (plain : definition.isIn .typeSpec = false)
      (hcount : IsCompressed count arguments.length)
      (harguments : SpellsAll argumentBytes codes arguments) :
    Spells (Element.applied :: form.element :: (bytes ++ (count ++ argumentBytes))) (code :: codes)
      (.applied form definition arguments)
  | modified {bytes code token baseBytes codes base} (required : Bool)
      (h : SpellsReference bytes code token) (hbase : Spells baseBytes codes base) :
    Spells (Element.modifier required :: (bytes ++ baseBytes)) (code :: codes)
      (.modified required (.named .cls token) base)

/-- The bytes spell the trees, one after the other. -/
inductive SpellsAll : (bytes : List UInt8) → (codes : List Nat) → List TypeSig → Prop
  | nil : SpellsAll [] [] []
  | cons {first rest codes restCodes sig sigs} (h : Spells first codes sig)
      (hrest : SpellsAll rest restCodes sigs) :
    SpellsAll (first ++ rest) (codes ++ restCodes) (sig :: sigs)

end

/-- The bytes spell the tree, unless a node of it is invalid. -/
def SpellsValid (bytes : List UInt8) (sig : TypeSig) : Prop :=
  sig.invalidCause? = none → ∃ codes, Spells bytes codes sig

end TypeSig

open TypeSig

/-! ### The grammar of signatures -/

/-- The bytes are the number of generic parameters, which is there if the first byte of the method
says so. It may be zero all the same. -/
def SpellsGenericCount (head : UInt8) (bytes : List UInt8) (count : Nat) : Prop :=
  if head &&& Header.genericBit = 0 then bytes = [] ∧ count = 0 else IsCompressed bytes count

/-- The bytes spell the fixed parameters and, behind a sentinel, the variable ones. -/
inductive SpellsParams : (bytes : List UInt8) → (codes : List Nat) →
    (fixed varargs : List TypeSig) → Prop
  | nil : SpellsParams [] [] [] []
  | sentinel {bytes codes varargs} (some : varargs ≠ []) (h : SpellsAll bytes codes varargs) :
    SpellsParams (Element.sentinel :: bytes) codes [] varargs
  | cons {first rest codes restCodes param fixed varargs} (h : Spells first codes param)
      (fixedParam : param ≠ .sentinel) (hrest : SpellsParams rest restCodes fixed varargs) :
    SpellsParams (first ++ rest) (codes ++ restCodes) (param :: fixed) varargs

/-- The bytes spell the signature; `codes` are the coded values of its references. -/
inductive Signature.Spells : (bytes : List UInt8) → (codes : List Nat) → Signature → Prop
  | type {bytes codes sig} (h : TypeSig.Spells bytes codes sig) : Spells bytes codes (.type sig)
  | method {head generic genericCount count returnBytes returnCodes returnType paramBytes
      paramCodes fixed varargs} (hhead : head &&& Header.conventionMask ≤ Header.lastConvention)
      (hgeneric : SpellsGenericCount head generic genericCount)
      (hcount : IsCompressed count (fixed.length + varargs.length))
      (hreturn : TypeSig.Spells returnBytes returnCodes returnType)
      (hparams : SpellsParams paramBytes paramCodes fixed varargs) :
    Spells (head :: (generic ++ (count ++ (returnBytes ++ paramBytes)))) (returnCodes ++ paramCodes)
      (.method {
        convention := head &&& Header.conventionMask
        hasThis := head &&& Header.thisBit != 0
        explicitThis := head &&& Header.explicitThisBit != 0
        genericCount, returnType, params := fixed, varargs })
  | field {bytes codes fieldType} (h : TypeSig.Spells bytes codes fieldType) :
    Spells (Header.field :: bytes) codes (.field { fieldType })
  | property {head count typeBytes typeCodes propertyType paramBytes paramCodes params}
      (hhead : head &&& Header.conventionMask = Header.property)
      (hcount : IsCompressed count params.length)
      (htype : TypeSig.Spells typeBytes typeCodes propertyType)
      (hparams : SpellsAll paramBytes paramCodes params) :
    Spells (head :: (count ++ (typeBytes ++ paramBytes))) (typeCodes ++ paramCodes)
      (.property { hasThis := head &&& Header.thisBit != 0, propertyType, params })
  | locals {count bytes codes locals} (hcount : IsCompressed count locals.length)
      (h : SpellsAll bytes codes locals) :
    Spells (Header.locals :: (count ++ bytes)) codes (.locals { locals })
  | methodSpec {count bytes codes arguments} (hcount : IsCompressed count arguments.length)
      (h : SpellsAll bytes codes arguments) :
    Spells (Header.methodSpec :: (count ++ bytes)) codes (.methodSpec { arguments })

/-- The bytes spell the signature, unless a node of it is invalid. -/
def Signature.SpellsValid (bytes : List UInt8) (sig : Signature) : Prop :=
  (∀ tree ∈ sig.trees, tree.invalidCause? = none) → ∃ codes, Spells bytes codes sig

/-! ### Where the references are -/

/-- Some of the bytes, next to each other, are the coded value. -/
def CodedWithin (bytes : List UInt8) (code : Nat) : Prop :=
  ∃ part, part <:+: bytes ∧ IsCompressed part code

theorem CodedWithin.mono {bytes more : List UInt8} {code : Nat} (h : CodedWithin bytes code)
    (hwithin : bytes <:+: more) : CodedWithin more code := by
  obtain ⟨part, hpart, hcompressed⟩ := h
  exact ⟨part, hpart.trans hwithin, hcompressed⟩

/-- The coded values of what is spelled one after the other. -/
theorem CodedWithin.append {first rest : List UInt8} {codes restCodes : List Nat}
    (h : ∀ code ∈ codes, CodedWithin first code)
    (hrest : ∀ code ∈ restCodes, CodedWithin rest code) :
    ∀ code ∈ codes ++ restCodes, CodedWithin (first ++ rest) code :=
  List.forall_mem_append.2
    ⟨fun code hcode => (h code hcode).mono (List.prefix_append _ _).isInfix,
      fun code hcode => (hrest code hcode).mono (List.suffix_append _ _).isInfix⟩

/-- The coded values behind other bytes. -/
theorem CodedWithin.behind {bytes : List UInt8} {codes : List Nat} (head : List UInt8)
    (h : ∀ code ∈ codes, CodedWithin bytes code) :
    ∀ code ∈ codes, CodedWithin (head ++ bytes) code :=
  fun code hcode => (h code hcode).mono (List.suffix_append _ _).isInfix

theorem SpellsReference.codedWithin {bytes : List UInt8} {code : Nat} {token : Token}
    (h : SpellsReference bytes code token) : ∀ code' ∈ [code], CodedWithin bytes code' :=
  List.forall_mem_singleton.2 ⟨bytes, List.infix_rfl, h.compressed⟩

namespace TypeSig

mutual

/-- The coded values of a spelled tree are among its bytes. -/
theorem codedWithin_of_spells (sig : TypeSig) {bytes : List UInt8} {codes : List Nat}
    (h : Spells bytes codes sig) : ∀ code ∈ codes, CodedWithin bytes code := by
  match sig, h with
  | _, .primitive _ => simp
  | _, .sentinel => simp
  | _, .generic _ _ => simp
  | _, .named form href _ => exact CodedWithin.behind [_] href.codedWithin
  | .wrapped _ inner, .wrapped _ hinner =>
    exact CodedWithin.behind [_] (codedWithin_of_spells inner hinner)
  | .array base _, .array hbase _ =>
    intro code hcode
    have hwithin := codedWithin_of_spells base hbase code hcode
    exact hwithin.mono ⟨[_], _, rfl⟩
  | .applied _ _ arguments, .applied _ href _ _ harguments =>
    have hall := codedWithin_of_spellsAll arguments harguments
    exact CodedWithin.behind [_, _]
      (CodedWithin.append href.codedWithin (CodedWithin.behind _ hall))
  | .modified _ _ base, .modified _ href hbase =>
    exact CodedWithin.behind [_]
      (CodedWithin.append href.codedWithin (codedWithin_of_spells base hbase))

/-- The coded values of spelled trees are among their bytes. -/
theorem codedWithin_of_spellsAll (sigs : List TypeSig) {bytes : List UInt8} {codes : List Nat}
    (h : SpellsAll bytes codes sigs) : ∀ code ∈ codes, CodedWithin bytes code := by
  match sigs, h with
  | [], .nil => simp
  | sig :: rest, .cons hsig hrest =>
    exact CodedWithin.append (codedWithin_of_spells sig hsig) (codedWithin_of_spellsAll rest hrest)

end

end TypeSig

theorem SpellsParams.codedWithin {bytes : List UInt8} {codes : List Nat}
    {fixed varargs : List TypeSig} (h : SpellsParams bytes codes fixed varargs) :
    ∀ code ∈ codes, CodedWithin bytes code := by
  induction h with
  | nil => simp
  | sentinel _ h => exact CodedWithin.behind [_] (codedWithin_of_spellsAll _ h)
  | cons h _ _ ih => exact CodedWithin.append (codedWithin_of_spells _ h) ih

/-- The coded values of a spelled signature are among its bytes. -/
theorem Signature.Spells.codedWithin {sig : Signature} {bytes : List UInt8} {codes : List Nat}
    (h : Spells bytes codes sig) : ∀ code ∈ codes, CodedWithin bytes code := by
  cases h with
  | type h => exact codedWithin_of_spells _ h
  | field h => exact CodedWithin.behind [_] (codedWithin_of_spells _ h)
  | locals _ h => exact CodedWithin.behind (_ :: _) (codedWithin_of_spellsAll _ h)
  | methodSpec _ h => exact CodedWithin.behind (_ :: _) (codedWithin_of_spellsAll _ h)
  | property _ _ htype hparams =>
    exact CodedWithin.behind (_ :: _)
      (CodedWithin.append (codedWithin_of_spells _ htype) (codedWithin_of_spellsAll _ hparams))
  | method _ _ _ hreturn hparams =>
    have hbody := CodedWithin.append (codedWithin_of_spells _ hreturn) hparams.codedWithin
    exact CodedWithin.behind (_ :: _) (CodedWithin.behind _ hbody)

namespace SigDecoder

variable {α β : Type}

/-! ### What a reading takes -/

/-- Whenever the reading succeeds, it stops right behind bytes that lay ahead, and these are related
to its value. -/
def Takes (d : SigDecoder α) (post : List UInt8 → α → Prop) : Prop :=
  ∀ s s' a, d s = .ok a s' →
    ∃ bytes, bytes <+: s.cursor.rest ∧ s'.cursor = s.cursor.forward bytes.length ∧ post bytes a

theorem Takes.mono {d : SigDecoder α} {post post' : List UInt8 → α → Prop} (h : Takes d post)
    (himp : ∀ bytes a, post bytes a → post' bytes a) : Takes d post' := by
  intro s s' a hrun
  obtain ⟨bytes, hahead, hstop, hpost⟩ := h s s' a hrun
  exact ⟨bytes, hahead, hstop, himp bytes a hpost⟩

theorem takes_pure {a : α} {post : List UInt8 → α → Prop} (h : post [] a) :
    Takes (pure a) post := by
  intro s s' b hrun
  cases hrun
  exact ⟨[], List.nil_prefix, rfl, h⟩

theorem takes_throw (fault : Fault) (post : List UInt8 → α → Prop) : Takes (throw fault) post := by
  intro s s' a hrun
  cases hrun

theorem Takes.bind {d : SigDecoder α} {f : α → SigDecoder β} {first : List UInt8 → α → Prop}
    {post : List UInt8 → β → Prop} (h : Takes d first)
    (hrest : ∀ head a, first head a → Takes (f a) fun tail b => post (head ++ tail) b) :
    Takes (d >>= f) post := by
  intro s s' b hrun
  obtain ⟨a, mid, hd, hf⟩ := bind_eq_ok.1 hrun
  obtain ⟨head, hhead, hmid, hpost⟩ := h s mid a hd
  obtain ⟨tail, htail, hstop, hpost'⟩ := hrest head a hpost mid s' b hf
  refine ⟨head ++ tail, ?_, by simp [hstop, hmid], hpost'⟩
  obtain ⟨behind, hbehind⟩ := hhead
  rw [hmid, Cursor.rest_forward, ← hbehind, List.drop_left] at htail
  rw [← hbehind]
  exact (List.prefix_append_right_inj head).2 htail

/-- A reading whose value is changed afterwards. -/
theorem Takes.map {d : SigDecoder α} {f : α → β} {post : List UInt8 → β → Prop}
    (h : Takes d fun bytes a => post bytes (f a)) : Takes (do return f (← d)) post :=
  h.bind fun head a hpost => takes_pure (by simpa using hpost)

theorem takes_ite {p : Prop} [Decidable p] {d d' : SigDecoder α} {post : List UInt8 → α → Prop}
    (h : p → Takes d post) (h' : ¬ p → Takes d' post) : Takes (if p then d else d') post := by
  by_cases hp : p
  · rw [if_pos hp]
    exact h hp
  · rw [if_neg hp]
    exact h' hp

theorem takes_lift {d : Decoder α} {post : List UInt8 → α → Prop}
    (h : ∀ n, Decoder.TakesAt n d post) : Takes (lift d) post := by
  intro s s' a hrun
  unfold lift at hrun
  cases hd : d s.cursor with
  | ok b c =>
    rw [hd] at hrun
    cases hrun
    exact h s.cursor.pos s.cursor c a rfl hd
  | error fault c =>
    rw [hd] at hrun
    cases hrun

/-- A byte and what follows it. -/
theorem takes_behindByte {f : UInt8 → SigDecoder α} {post : List UInt8 → α → Prop}
    (h : ∀ b, Takes (f b) fun bytes a => post (b :: bytes) a) : Takes (byte >>= f) post := by
  refine (takes_lift Decoder.takesAt_byte).bind ?_
  rintro _ b rfl
  exact h b

theorem takes_position : Takes (lift Decoder.position) fun bytes _ => bytes = [] := by
  refine takes_lift fun n c c' offset _ hrun => ?_
  cases hrun
  exact ⟨[], List.nil_prefix, rfl, rfl⟩

theorem takes_skip (size : Nat) :
    Takes (lift (Decoder.skip size)) fun bytes _ => bytes.length = size := by
  refine takes_lift fun n c c' _ _ hrun => ?_
  unfold Decoder.skip at hrun
  split_ifs at hrun with hfits
  cases hrun
  have hlength : (c.rest.take size).length = size := by
    rw [List.length_take, Cursor.length_rest, Cursor.remaining]
    omega
  exact ⟨c.rest.take size, List.take_prefix _ _, by rw [hlength], hlength⟩

theorem takes_compressed : Takes compressed IsCompressed := takes_lift Decoder.takesAt_compressed

/-- What is looked at is the first byte of what is taken afterwards. -/
theorem takes_peek {f : UInt8 → SigDecoder α} {post : List UInt8 → α → Prop}
    (h : ∀ next, Takes (f next) fun bytes a => bytes.head? ∈ [none, some next] → post bytes a) :
    Takes (lift Decoder.peekByte >>= f) post := by
  intro s s' a hrun
  obtain ⟨next, mid, hpeek, hf⟩ := bind_eq_ok.1 hrun
  unfold lift Decoder.peekByte at hpeek
  cases hnext : s.cursor.bytes[s.cursor.pos]? with
  | none =>
    rw [hnext] at hpeek
    cases hpeek
  | some other =>
    rw [hnext] at hpeek
    cases hpeek
    obtain ⟨bytes, hahead, hstop, hpost⟩ := h next _ s' a hf
    refine ⟨bytes, hahead, hstop, hpost ?_⟩
    have hhead : s.cursor.rest.head? = some next := by simpa [Cursor.rest] using hnext
    obtain ⟨tail, htail⟩ := hahead
    cases bytes with
    | nil => simp
    | cons b rest =>
      rw [← htail] at hhead
      simpa using hhead

/-- Items that are spelled by what is taken for them. -/
theorem takes_times {d : SigDecoder α} {one : List UInt8 → α → Prop} (h : Takes d one)
    (count : Nat) :
    Takes (times d count) fun bytes items => items.length = count ∧ SpellsEach one bytes items := by
  induction count with
  | zero => exact takes_pure ⟨rfl, .nil⟩
  | succ count ih =>
    refine h.bind fun head item hitem => Takes.map (ih.mono ?_)
    rintro tail items ⟨hlength, hitems⟩
    exact ⟨by rw [List.length_cons, hlength], .cons hitem hitems⟩

/-! ### References -/

theorem takes_reference :
    Takes (reference none) fun bytes found =>
      ∀ token, found = .ok token → ∃ code, SpellsReference bytes code token := by
  intro s s' found hrun
  unfold reference at hrun
  cases hvalue : compressed s with
  | error fault mid =>
    obtain rfl := state_of_compressed_error hvalue
    rw [hvalue] at hrun
    cases hrun
    exact ⟨[], List.nil_prefix, rfl, by simp⟩
  | ok value mid =>
    obtain ⟨bytes, hahead, hstop, hcompressed⟩ := takes_compressed s mid value hvalue
    rw [hvalue] at hrun
    cases hrun
    refine ⟨bytes, hahead, hstop, fun token htoken => ⟨value, hcompressed, ?_⟩⟩
    cases hdecode : CodedKind.typeDefOrRef.decode value with
    | error fault => simp [hdecode] at htoken
    | ok found =>
      cases found with
      | none => simp [hdecode] at htoken
      | some other =>
        simp only [hdecode, Option.all_none, if_true, Except.ok.injEq] at htoken
        rw [htoken]

theorem takes_plainReference :
    Takes (plainReference none) fun bytes found => ∀ token, found = .ok token →
      ∃ code, SpellsReference bytes code token ∧ token.isIn .typeSpec = false := by
  refine takes_reference.bind fun bytes found hfound => ?_
  rcases found with cause | token
  · exact takes_pure (by simp)
  · refine takes_ite (fun _ => takes_pure (by simp)) fun hplain => takes_pure ?_
    rintro _ ⟨⟩
    obtain ⟨code, hcode⟩ := hfound token rfl
    exact ⟨code, by rwa [List.append_nil], by simpa using hplain⟩

/-! ### Nodes -/

theorem firstInvalid?_eq_none_iff {sigs : List TypeSig} :
    firstInvalid? sigs = none ↔ ∀ sig ∈ sigs, sig.invalidCause? = none := by
  induction sigs with
  | nil => simp [firstInvalid?]
  | cons sig rest ih => simp [firstInvalid?, ih]

theorem takes_namedType (form : NamedForm) :
    Takes (namedType none form) fun bytes sig => SpellsValid (form.element :: bytes) sig := by
  refine takes_plainReference.bind fun bytes found hfound => ?_
  rcases found with cause | token
  · refine takes_pure fun hvalid => ?_
    cases hvalid
  · refine takes_pure fun _ => ?_
    obtain ⟨code, hcode, hplain⟩ := hfound token rfl
    rw [List.append_nil]
    exact ⟨[code], .named form hcode hplain⟩

theorem takes_arrayShape : Takes arrayShape SpellsShape := by
  refine takes_compressed.bind fun rank _ hrank => ?_
  refine takes_compressed.bind fun sizeCount _ hsizeCount => ?_
  refine (takes_times takes_compressed _).bind fun sizes _ ⟨hsizeLength, hsizes⟩ => ?_
  refine takes_compressed.bind fun boundCount _ hboundCount => ?_
  refine Takes.map ((takes_times (takes_lift Decoder.takesAt_compressedSigned) _).mono ?_)
  rintro bounds _ ⟨hboundLength, hbounds⟩
  exact .mk hrank (hsizeLength ▸ hsizeCount) hsizes (hboundLength ▸ hboundCount) hbounds

/-- Several trees, none of them with an invalid node. -/
theorem takes_types {d : SigDecoder TypeSig} (h : Takes d SpellsValid) (count : Nat) :
    Takes (times d count) fun bytes sigs => sigs.length = count ∧
      ((∀ sig ∈ sigs, sig.invalidCause? = none) → ∃ codes, SpellsAll bytes codes sigs) := by
  refine (takes_times h count).mono ?_
  rintro bytes sigs ⟨hlength, hsigs⟩
  refine ⟨hlength, fun hvalid => ?_⟩
  clear hlength
  induction hsigs with
  | nil => exact ⟨[], .nil⟩
  | cons hsig _ ih =>
    obtain ⟨hone, hrest⟩ := List.forall_mem_cons.1 hvalid
    obtain ⟨codes, hcodes⟩ := hsig hone
    obtain ⟨restCodes, hrestCodes⟩ := ih hrest
    exact ⟨codes ++ restCodes, .cons hcodes hrestCodes⟩

section Nodes

variable {ctx : SigContext} (plain : ctx.resolver = none)
  {nested : SigContext → SigDecoder TypeSig} (hnested : Takes (nested ctx) SpellsValid)

include plain hnested

theorem takes_appliedType :
    Takes (appliedType ctx nested) fun bytes sig => SpellsValid (Element.applied :: bytes) sig := by
  unfold appliedType
  rw [plain]
  refine takes_behindByte fun kind => ?_
  cases hform : NamedForm.ofElement? kind with
  | none => exact takes_throw _ _
  | some form =>
    obtain rfl := NamedForm.element_of_ofElement? hform
    refine takes_plainReference.bind fun bytes found hfound => ?_
    have hinvalid (cause : InvalidCause) (bytes : List UInt8) :
        SpellsValid bytes (.invalid cause) := by
      intro hvalid
      cases hvalid
    rcases found with cause | definition
    · cases cause with
      | blobTooShort => exact takes_pure (hinvalid _ _)
      | _ =>
        exact takes_compressed.bind fun _ count _ =>
          Takes.map ((takes_types hnested count).mono fun _ _ _ => hinvalid _ _)
    · obtain ⟨code, hcode, hplain⟩ := hfound definition rfl
      refine takes_compressed.bind fun countBytes count hcount => ?_
      refine Takes.map ((takes_types hnested count).mono ?_)
      rintro argumentBytes arguments ⟨rfl, harguments⟩ hvalid
      obtain ⟨codes, hcodes⟩ := harguments (firstInvalid?_eq_none_iff.1 hvalid)
      exact ⟨code :: codes, .applied form hcode hplain hcount hcodes⟩

theorem takes_modifiedType (required : Bool) :
    Takes (modifiedType ctx nested required) fun bytes sig =>
      SpellsValid (Element.modifier required :: bytes) sig := by
  unfold modifiedType
  rw [plain]
  refine takes_reference.bind fun bytes found hfound => ?_
  rcases found with cause | token
  · cases cause with
    | blobTooShort =>
      refine takes_pure fun hvalid => ?_
      cases hvalid
    | _ =>
      refine Takes.map (hnested.mono fun _ _ _ hvalid => ?_)
      cases hvalid
  · obtain ⟨code, hcode⟩ := hfound token rfl
    simp only [modifierType, plain, pure_bind]
    refine Takes.map (hnested.mono fun baseBytes base hbase hvalid => ?_)
    obtain ⟨codes, hcodes⟩ := hbase (by simpa [TypeSig.invalidCause?] using hvalid)
    exact ⟨code :: codes, .modified required hcode hcodes⟩

theorem takes_typeAfter (offset : Nat) (element : UInt8) :
    Takes (typeAfter ctx nested offset element) fun bytes sig =>
      SpellsValid (element :: bytes) sig := by
  cases starts element with
  | primitive type =>
    rw [typeAfter_primitive]
    exact takes_pure fun _ => ⟨[], .primitive type⟩
  | wrapped wrapper =>
    rw [typeAfter_wrapped]
    refine Takes.map (hnested.mono fun bytes inner hinner hvalid => ?_)
    obtain ⟨codes, hcodes⟩ := hinner hvalid
    exact ⟨codes, .wrapped wrapper hcodes⟩
  | named form =>
    rw [typeAfter_named, plain]
    exact takes_namedType form
  | sentinel => exact takes_pure fun _ => ⟨[], .sentinel⟩
  | generic kind =>
    rw [typeAfter_generic]
    exact Takes.map (takes_compressed.mono fun bytes index hindex _ => ⟨[], .generic kind hindex⟩)
  | array =>
    rw [typeAfter_array]
    refine hnested.bind fun bytes base hbase => ?_
    refine Takes.map (takes_arrayShape.mono fun shapeBytes shape hshape hvalid => ?_)
    obtain ⟨codes, hcodes⟩ := hbase hvalid
    exact ⟨codes, .array hcodes hshape⟩
  | applied => exact takes_appliedType plain hnested
  | modified required =>
    rw [typeAfter_modified]
    exact takes_modifiedType plain hnested required
  | nothing hrefused =>
    rw [hrefused]
    exact takes_throw _ _

end Nodes

/-! ### Types and parameters -/

section Headed

variable {ctx : SigContext} (plain : ctx.resolver = none)

include plain

theorem takes_typeAt (levels : Nat) : Takes (typeAt levels ctx) SpellsValid := by
  induction levels with
  | zero =>
    intro s s' sig hrun
    cases hrun
  | succ levels ih =>
    rw [typeAt]
    refine takes_position.bind fun _ offset hnothing => ?_
    subst hnothing
    exact takes_behindByte fun element => takes_typeAfter plain ih offset element

/-- What is read of a type is spelled by the bytes that are taken. -/
theorem takes_type : Takes (type ctx) SpellsValid :=
  fun s => takes_typeAt plain (ctx.maxDepth - s.depth) s

theorem takes_params (count : Nat) :
    Takes (params ctx count) fun bytes both =>
      both.1.length + both.2.length = count ∧
        ((∀ sig ∈ both.1 ++ both.2, sig.invalidCause? = none) →
          ∃ codes, SpellsParams bytes codes both.1 both.2) := by
  induction count with
  | zero => exact takes_pure ⟨rfl, fun _ => ⟨[], .nil⟩⟩
  | succ count ih =>
    refine takes_peek fun next => takes_ite (fun hsentinel => ?_) fun hfixed => ?_
    · subst hsentinel
      refine (takes_skip 1).bind fun skipped _ hskipped => ?_
      refine Takes.map ((takes_types (takes_type plain) (count + 1)).mono ?_)
      rintro bytes varargs ⟨hlength, hvarargs⟩ hhead
      refine ⟨by simpa using hlength, fun hvalid => ?_⟩
      obtain ⟨b, rfl⟩ := List.length_eq_one_iff.1 hskipped
      obtain rfl : b = Element.sentinel := by simpa using hhead
      obtain ⟨codes, hcodes⟩ := hvarargs hvalid
      refine ⟨codes, .sentinel ?_ hcodes⟩
      rintro rfl
      cases hlength
    · refine (takes_type plain).bind fun first param hparam => ?_
      refine Takes.map (ih.mono ?_)
      rintro rest ⟨fixed, varargs⟩ ⟨hlength, hrest⟩ hhead
      refine ⟨by simp only [List.length_cons] at hlength ⊢; omega, fun hvalid => ?_⟩
      obtain ⟨hone, hothers⟩ := List.forall_mem_cons.1 hvalid
      obtain ⟨codes, hcodes⟩ := hparam hone
      obtain ⟨restCodes, hrestCodes⟩ := hrest hothers
      refine ⟨codes ++ restCodes, .cons hcodes ?_ hrestCodes⟩
      rintro rfl
      cases hcodes
      exact hfixed (by simpa [eq_comm] using hhead)

/-- A list of types behind its length. -/
theorem takes_counted {f : List TypeSig → α} {post : List UInt8 → α → Prop}
    (h : ∀ count bytes sigs, IsCompressed count sigs.length →
      ((∀ sig ∈ sigs, sig.invalidCause? = none) → ∃ codes, SpellsAll bytes codes sigs) →
        post (count ++ bytes) (f sigs)) :
    Takes (do return f (← times (type ctx) (← compressed))) post := by
  refine takes_compressed.bind fun countBytes count hcount => ?_
  refine Takes.map ((takes_types (takes_type plain) count).mono ?_)
  rintro bytes sigs ⟨rfl, hsigs⟩
  exact h countBytes bytes sigs hcount hsigs

theorem takes_method :
    Takes (method ctx) fun bytes sig => Signature.SpellsValid bytes (.method sig) := by
  rw [method_eq]
  refine takes_behindByte fun head => takes_ite (fun _ => takes_throw _ _) fun hhead => ?_
  have hgeneric : Takes (if head &&& Header.genericBit = 0 then pure 0 else compressed)
      (SpellsGenericCount head) := by
    unfold SpellsGenericCount
    by_cases hbit : head &&& Header.genericBit = 0
    · simp only [if_pos hbit]
      exact takes_pure ⟨rfl, rfl⟩
    · simp only [if_neg hbit]
      exact takes_compressed
  refine hgeneric.bind fun generic genericCount hgeneric => ?_
  refine takes_compressed.bind fun countBytes count hcount => ?_
  refine (takes_type plain).bind fun returnBytes returnType hreturn => ?_
  refine Takes.map ((takes_params plain count).mono ?_)
  rintro paramBytes ⟨fixed, varargs⟩ ⟨rfl, hparams⟩ hvalid
  obtain ⟨hone, hothers⟩ := List.forall_mem_cons.1 hvalid
  obtain ⟨returnCodes, hreturnCodes⟩ := hreturn hone
  obtain ⟨paramCodes, hparamCodes⟩ := hparams hothers
  exact ⟨returnCodes ++ paramCodes,
    .method (UInt8.not_lt.1 hhead) hgeneric hcount hreturnCodes hparamCodes⟩

theorem takes_field :
    Takes (field ctx) fun bytes sig => Signature.SpellsValid bytes (.field sig) := by
  refine takes_behindByte fun head => takes_ite (fun hhead => ?_) fun _ => takes_throw _ _
  subst hhead
  refine Takes.map ((takes_type plain).mono fun bytes fieldType htype hvalid => ?_)
  obtain ⟨codes, hcodes⟩ := htype (hvalid fieldType List.mem_cons_self)
  exact ⟨codes, .field hcodes⟩

theorem takes_property :
    Takes (property ctx) fun bytes sig => Signature.SpellsValid bytes (.property sig) := by
  refine takes_behindByte fun head => takes_ite (fun hhead => ?_) fun _ => takes_throw _ _
  refine takes_compressed.bind fun countBytes count hcount => ?_
  refine (takes_type plain).bind fun typeBytes propertyType htype => ?_
  refine Takes.map ((takes_types (takes_type plain) count).mono ?_)
  rintro paramBytes params ⟨rfl, hparams⟩ hvalid
  obtain ⟨hone, hothers⟩ := List.forall_mem_cons.1 hvalid
  obtain ⟨typeCodes, htypeCodes⟩ := htype hone
  obtain ⟨paramCodes, hparamCodes⟩ := hparams hothers
  exact ⟨typeCodes ++ paramCodes, .property hhead hcount htypeCodes hparamCodes⟩

theorem takes_locals :
    Takes (locals ctx) fun bytes sig => Signature.SpellsValid bytes (.locals sig) := by
  refine takes_behindByte fun head => takes_ite (fun hhead => ?_) fun _ => takes_throw _ _
  subst hhead
  refine takes_counted plain fun count bytes sigs hcount hsigs hvalid => ?_
  obtain ⟨codes, hcodes⟩ := hsigs hvalid
  exact ⟨codes, .locals hcount hcodes⟩

theorem takes_methodSpec :
    Takes (methodSpec ctx) fun bytes sig => Signature.SpellsValid bytes (.methodSpec sig) := by
  refine takes_behindByte fun head => takes_ite (fun hhead => ?_) fun _ => takes_throw _ _
  subst hhead
  refine takes_counted plain fun count bytes sigs hcount hsigs hvalid => ?_
  obtain ⟨codes, hcodes⟩ := hsigs hvalid
  exact ⟨codes, .methodSpec hcount hcodes⟩

/-- **What is read is spelled by the bytes that are taken**, unless a node of it is invalid. -/
theorem takes_decode (kind : SigKind) :
    Takes (Signature.decode ctx kind) Signature.SpellsValid := by
  cases kind with
  | type =>
    refine Takes.map ((takes_type plain).mono fun bytes sig hsig hvalid => ?_)
    obtain ⟨codes, hcodes⟩ := hsig (hvalid sig List.mem_cons_self)
    exact ⟨codes, .type hcodes⟩
  | method => exact Takes.map (takes_method plain)
  | field => exact Takes.map (takes_field plain)
  | property => exact Takes.map (takes_property plain)
  | locals => exact Takes.map (takes_locals plain)
  | methodSpec => exact Takes.map (takes_methodSpec plain)

end Headed

end SigDecoder

end CilMetadata

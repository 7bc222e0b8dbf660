import CilMetadata.Attribute.Basic
import CilMetadata.Proofs.Bytes.Minimal
import CilMetadata.Proofs.Signature.Writable
import CilMetadata.Proofs.Text.Unicode
import CilMetadata.Proofs.TypeName.RoundTrip

/-!
# Types in custom attributes are read back

Three codes lie in each other: the bytes of types, strings behind their compressed lengths, and the
names of enums as text. A name is parsed where it is read and spelled anew where it is written, so
that the bytes need not stay the same, but what is meant does.

* `RoundTrips`: what is written is read back, wherever it stands and whatever follows;
* `Codes` adds which values are written and which are refused, and what the writers of parts say of
  themselves is put together by `Codes.bind`;
* `codes_serString`, `AttributeType.codes` and `NamedArgument.codes` go through the three codes;
* `Gives` is what holds of everything a decoder reads, as `AttributeType.gives_decode` says of
  types;
* `attributes_roundTrip` puts the two directions together.
-/

namespace CilMetadata

variable {α β : Type}

/-! ### Writers that refuse -/

/-- What the encoder writes, wherever that is, the decoder takes for `a`. -/
def RoundTrips (e : Encoder Unit) (d : Decoder α) (a : α) : Prop :=
  ∃ bytes, ∀ n, e.EmitsAt n bytes ∧ d.ReadsAt n bytes a

/-- What stands at the start of some bytes is read, whatever follows. -/
theorem RoundTrips.decode {e : Encoder Unit} {d : Decoder α} {a : α} (h : RoundTrips e d a)
    {out : Array UInt8} (hrun : e #[] = .ok () out) (suffix : Array UInt8) :
    d { bytes := out ++ suffix } = .ok a { bytes := out ++ suffix, pos := out.size } := by
  obtain ⟨bytes, hbytes⟩ := h
  obtain ⟨hemit, hread⟩ := hbytes 0
  rw [hemit #[] rfl] at hrun
  cases hrun
  simpa [Cursor.forward] using hread _ rfl (Cursor.ahead_start bytes suffix)

/-- The encoder writes what fits, and refuses everything else. What it writes the decoder takes for
`a`, if `a` is well named. -/
structure Codes (e : Encoder Unit) (d : Decoder α) (a : α) (fits wellNamed : Prop) : Prop where
  writes : fits → ∃ bytes, ∀ n, e.EmitsAt n bytes ∧ (wellNamed → d.ReadsAt n bytes a)
  refuses : ¬ fits → ∀ out, ∃ fault out', e out = .error fault out'

theorem codes_byte (b : UInt8) : Codes (Encoder.byte b) Decoder.byte b True True :=
  ⟨fun _ => ⟨[b], fun n => ⟨Encoder.emitsAt_byte n b, fun _ => Decoder.readsAt_byte n b⟩⟩,
    fun h => absurd trivial h⟩

namespace Codes

variable {e e' : Encoder Unit} {d : Decoder α} {f : α → Decoder β} {a : α} {b : β}
variable {fits fits' wellNamed wellNamed' : Prop}

theorem congr (h : Codes e d a fits wellNamed) (hfits : fits ↔ fits')
    (hnamed : wellNamed' → wellNamed) : Codes e d a fits' wellNamed' where
  writes h' := by
    obtain ⟨bytes, hbytes⟩ := h.writes (hfits.2 h')
    exact ⟨bytes, fun n => ⟨(hbytes n).1, fun hn => (hbytes n).2 (hnamed hn)⟩⟩
  refuses h' := h.refuses fun hfit => h' (hfits.1 hfit)

theorem bind (h : Codes e d a fits wellNamed) (h' : Codes e' (f a) b fits' wellNamed') :
    Codes (do e; e') (d >>= f) b (fits ∧ fits') (wellNamed ∧ wellNamed') where
  writes := by
    rintro ⟨hfits, hfits'⟩
    obtain ⟨first, hfirst⟩ := h.writes hfits
    obtain ⟨second, hsecond⟩ := h'.writes hfits'
    refine ⟨first ++ second, fun n => ⟨(hfirst n).1.bind (hsecond _).1, ?_⟩⟩
    rintro ⟨hnamed, hnamed'⟩
    exact ((hfirst n).2 hnamed).bind ((hsecond _).2 hnamed')
  refuses := by
    intro hnot out
    by_cases hfits : fits
    · obtain ⟨first, hfirst⟩ := h.writes hfits
      obtain ⟨fault, out', hrun⟩ := h'.refuses (fun hfits' => hnot ⟨hfits, hfits'⟩)
        (out ++ first.toArray)
      refine ⟨fault, out', ?_⟩
      change EStateM.bind e (fun _ => e') out = _
      simp only [EStateM.bind, (hfirst out.size).1 out rfl, hrun]
    · obtain ⟨fault, out', hrun⟩ := h.refuses hfits out
      refine ⟨fault, out', ?_⟩
      change EStateM.bind e (fun _ => e') out = _
      simp only [EStateM.bind, hrun]

/-- What the decoder makes of the value takes no bytes. -/
theorem andThen (h : Codes e d a fits wellNamed) (hf : wellNamed' → f a = pure b) :
    Codes e (d >>= f) b fits (wellNamed ∧ wellNamed') where
  writes hfits := by
    obtain ⟨bytes, hbytes⟩ := h.writes hfits
    refine ⟨bytes, fun n => ⟨(hbytes n).1, ?_⟩⟩
    rintro ⟨hnamed, hnamed'⟩
    exact ((hbytes n).2 hnamed).andThen (hf hnamed' ▸ Decoder.readsAt_pure _ b)
  refuses := h.refuses

/-- What is written behind a byte. -/
theorem behindByte {head : UInt8} {f : UInt8 → Decoder β}
    (h : Codes e (f head) b fits wellNamed) :
    Codes (do Encoder.byte head; e) (do f (← Decoder.byte)) b fits wellNamed := by
  exact ((codes_byte head).bind h).congr (by simp) fun hnamed => ⟨trivial, hnamed⟩

theorem roundTrips (h : Codes e d a fits wellNamed) (hfits : fits) (hnamed : wellNamed) :
    RoundTrips e d a := by
  obtain ⟨bytes, hbytes⟩ := h.writes hfits
  exact ⟨bytes, fun n => ⟨(hbytes n).1, (hbytes n).2 hnamed⟩⟩

/-- The encoder fails exactly on what does not fit. -/
theorem error_iff (h : Codes e d a fits wellNamed) (out : Array UInt8) :
    (∃ fault out', e out = .error fault out') ↔ ¬ fits := by
  refine ⟨?_, fun hnot => h.refuses hnot out⟩
  rintro ⟨fault, out', hrun⟩ hfits
  obtain ⟨bytes, hbytes⟩ := h.writes hfits
  rw [(hbytes out.size).1 out rfl] at hrun
  cases hrun

end Codes

/-! ### Counted strings -/

/-- A text with a length that compresses. -/
def Counted (text : String) : Prop := text.utf8ByteSize ≤ compressedLimit

instance : DecidablePred Counted := fun _ => inferInstanceAs (Decidable (_ ≤ _))

theorem serString_of_lt {text : String} (h : text.utf8ByteSize < 0x100000000) :
    Encoder.serString (some text) = (do
      Encoder.compressed text.utf8ByteSize
      Encoder.emitArray text.toByteArray.data) :=
  if_pos h

/-- A counted string is written if its length compresses, and read back. -/
theorem codes_serString (text : String) :
    Codes (Encoder.serString (some text)) Decoder.serString (some text) (Counted text) True where
  writes h := by
    have hsize : text.utf8ByteSize < 0x100000000 := Nat.lt_of_le_of_lt h (by decide)
    obtain ⟨width, hwidth⟩ := Width.ofUnsigned?_isSome h
    have hlt := Width.lt_of_ofUnsigned? hwidth
    obtain ⟨head, tail, hhead, hne⟩ := Width.exists_head hlt
    refine ⟨width.write text.utf8ByteSize ++ text.toByteArray.data.toList,
      fun n => ⟨?_, fun _ => ?_⟩⟩
    · rw [serString_of_lt hsize, Encoder.compressed, hwidth]
      exact (Encoder.emitsAt_emit n _).bind (Encoder.emitsAt_emitArray _ _)
    · have hlength := ((Decoder.readsAt_payload n hlt).map Prod.fst).restoring
      refine Decoder.ReadsAt.peekByte ?_ (congrArg (· ++ _) hhead)
      rw [if_neg hne]
      have htake := Decoder.readsAt_take (n + (width.write text.utf8ByteSize).length)
        text.toByteArray.data.toList
      refine hlength.bind (htake.andThen ?_)
      have htext : String.fromUTF8? ⟨text.toByteArray.data.toList.toArray⟩ = some text :=
        Text.fromUTF8?_toByteArray text
      rw [htext]
      exact Decoder.readsAt_pure _ _
  refuses h out := by
    have hwidth : Width.ofUnsigned? text.utf8ByteSize = none :=
      Width.ofUnsigned?_eq_none (Nat.not_le.1 h)
    by_cases hsize : text.utf8ByteSize < 0x100000000
    · rw [serString_of_lt hsize, Encoder.compressed, hwidth]
      exact ⟨_, _, rfl⟩
    · have hthrow : Encoder.serString (some text) = throw _ := if_neg hsize
      rw [hthrow]
      exact ⟨_, _, rfl⟩

/-! ### Types -/

namespace AttributeType

/-- How many arrays stand around the elements of a type. -/
def arrayLevels : AttributeType → Nat
  | .simple _ | .enum _ => 0
  | .szArray element => element.arrayLevels + 1

/-- The name of the enum that a type is made of, if it is made of one. -/
def enumName? : AttributeType → Option TypeName
  | .simple _ => none
  | .szArray element => element.enumName?
  | .enum name => some name

/-- The name of the enum, if there is one, is well-formed. -/
def WellNamed (t : AttributeType) : Prop := ∀ name ∈ t.enumName?, name.WellFormed

/-- A type is no array of arrays, and the name of its enum is not too long. -/
def Fits (t : AttributeType) : Prop :=
  t.arrayLevels ≤ 1 ∧ ∀ name ∈ t.enumName?, Counted name.text

theorem not_fits_iff {t : AttributeType} :
    ¬ t.Fits ↔ 2 ≤ t.arrayLevels ∨ ∃ name ∈ t.enumName?, ¬ Counted name.text := by
  rw [Fits, not_and_or, Nat.not_le]
  simp only [not_forall, exists_prop, Nat.lt_iff_add_one_le]

theorem isArray_iff {t : AttributeType} : t.isArray = true ↔ 1 ≤ t.arrayLevels := by
  cases t <;> simp [isArray, arrayLevels]

theorem ofElement?_element (leaf : AttributeLeaf) :
    AttributeLeaf.ofElement? leaf.element = some leaf := by
  cases leaf <;> rfl

theorem element_ne_array (leaf : AttributeLeaf) : leaf.element ≠ arrayElement := by
  cases leaf <;> decide

/-- The name of an enum is written as text and parsed again. -/
theorem codes_enumName (name : TypeName) :
    Codes (Encoder.serString (some name.text)) decodeEnum (.enum name) (Counted name.text)
      name.WellFormed := by
  refine ((codes_serString name.text).andThen fun hname => ?_).congr Iff.rfl fun h => ⟨trivial, h⟩
  dsimp only
  rw [TypeName.parse_text_of_wellFormed hname]

/-- A type that is no array is read behind its first byte, which is not the one of an array. What is
made of it afterwards does not matter. -/
theorem codes_flat {t : AttributeType} (h : t.isArray = false) {f : UInt8 → Decoder β}
    {g : AttributeType → β} (hf : ∀ head ≠ arrayElement, f head = do return g (← decodeFlat head)) :
    Codes t.encode (do f (← Decoder.byte)) (g t) t.Fits t.WellNamed := by
  cases t with
  | simple leaf =>
    have hleaf : f leaf.element = pure (g (.simple leaf)) := by
      rw [hf _ (element_ne_array leaf), decodeFlat, ofElement?_element, pure_bind]
    have hhead := (codes_byte leaf.element).andThen fun _ : True => hleaf
    exact hhead.congr (by simp [Fits, arrayLevels, enumName?]) fun _ => ⟨trivial, trivial⟩
  | szArray element => cases h
  | enum name =>
    have henum : f enumElement = do return g (← decodeEnum) := hf _ (by decide)
    refine Codes.behindByte ?_
    rw [henum]
    have hmade : ∀ made : AttributeType, True → (pure (g made) : Decoder β) = pure (g made) :=
      fun _ _ => rfl
    exact ((codes_enumName name).andThen (hmade (.enum name))).congr
      (by simp [Fits, arrayLevels, enumName?]) fun hnamed => ⟨hnamed name rfl, trivial⟩

/-- A type is written unless it is an array of arrays or its enum has too long a name, and read
back. -/
theorem codes (t : AttributeType) : Codes t.encode decode t t.Fits t.WellNamed := by
  cases harray : t.isArray with
  | false =>
    refine codes_flat harray (g := id) fun head hne => ?_
    rw [if_neg hne]
    simp
  | true =>
    cases t with
    | simple leaf => cases harray
    | enum name => cases harray
    | szArray element =>
      cases hinner : element.isArray with
      | true =>
        have hlevels := isArray_iff.1 hinner
        have hthrow : (szArray element).encode = throw (.malformed .nestedArray) := by
          rw [encode, if_pos hinner]
        rw [hthrow]
        refine ⟨fun hfits => ?_, fun _ out => ⟨_, _, rfl⟩⟩
        have := hfits.1
        simp only [arrayLevels] at this
        omega
      | false =>
        have hencode : (szArray element).encode = (do
            Encoder.byte arrayElement
            element.encode) := by
          rw [encode, if_neg (by simp [hinner])]
        rw [hencode]
        refine Codes.behindByte ?_
        rw [if_pos rfl]
        refine (codes_flat hinner (g := szArray) fun head hne => if_neg hne).congr ?_ id
        have hlevels : ¬ 1 ≤ element.arrayLevels := by
          rw [← isArray_iff, hinner]
          decide
        have hflat : element.arrayLevels = 0 := by omega
        simp [Fits, arrayLevels, enumName?, hflat]

end AttributeType

/-! ### Named arguments -/

namespace NamedArgument

/-- A head fits when its type and its name do. -/
def Fits (a : NamedArgument) : Prop := a.type.Fits ∧ Counted a.name

theorem codes (a : NamedArgument) : Codes a.encode decode a a.Fits a.type.WellNamed := by
  obtain ⟨isField, type, name⟩ := a
  have hkind : (kindByte isField = kindByte true ∨ kindByte isField = kindByte false) ∧
      (kindByte isField == kindByte true) = isField := by
    cases isField <;> decide
  refine Codes.behindByte ?_
  rw [if_pos hkind.1, hkind.2]
  refine Codes.congr (type.codes.bind ((codes_serString name).andThen ?_)) Iff.rfl
    fun hnamed => ⟨hnamed, trivial, trivial⟩
  exact fun _ => rfl

end NamedArgument

/-! ### What is read -/

namespace Decoder

/-- Whatever the decoder gives satisfies `p`. -/
def Gives (d : Decoder α) (p : α → Prop) : Prop := ∀ c c' a, d c = .ok a c' → p a

variable {d : Decoder α} {f : α → Decoder β} {p : α → Prop} {q : β → Prop}

theorem Gives.bind (h : d.Gives p) (h' : ∀ a, p a → (f a).Gives q) : (d >>= f).Gives q := by
  intro c c' b hrun
  obtain ⟨a, mid, hd, hf⟩ := bind_eq_ok.1 hrun
  exact h' a (h c mid a hd) mid c' b hf

theorem gives_pure {a : α} (h : p a) : Gives (pure a) p := by
  rintro c c' b hrun
  cases hrun
  exact h

theorem gives_throw (fault : Fault) (p : α → Prop) : Gives (throw fault) p := by
  intro c c' a hrun
  cases hrun

theorem gives_any (d : Decoder α) : d.Gives fun _ => True := fun _ _ _ _ => trivial

/-- A string that is read has a length that compresses. -/
theorem gives_serString : Gives serString fun found => ∀ text ∈ found, Counted text := by
  refine (gives_any _).bind fun lead _ => ?_
  split_ifs
  · exact (gives_any _).bind fun _ _ => gives_pure (by simp)
  · have hlength : Gives compressed fun size => size ≤ compressedLimit := by
      intro c c' size hrun
      obtain ⟨bytes, -, -, hbytes⟩ := takesAt_compressed c.pos c c' size rfl hrun
      exact hbytes.le_limit
    refine hlength.bind fun size hsize => ?_
    have htake : Gives (take size) fun bytes => bytes.size = size := by
      intro c c' bytes hrun
      obtain ⟨taken, -, -, hlen, rfl⟩ := takesAt_take c.pos size c c' bytes rfl hrun
      exact hlen
    refine htake.bind fun bytes hbytes => ?_
    cases htext : String.fromUTF8? ⟨bytes⟩ with
    | none => exact gives_throw _ _
    | some text =>
      refine gives_pure ?_
      rintro _ ⟨⟩
      have hsame : text.utf8ByteSize = bytes.size :=
        congrArg ByteArray.size (Text.toByteArray_of_fromUTF8? htext)
      rw [Counted, hsame, hbytes]
      exact hsize

end Decoder

open Decoder (gives_any gives_pure gives_throw)

namespace AttributeType

theorem gives_decodeFlat (element : UInt8) :
    (decodeFlat element).Gives fun t => t.arrayLevels = 0 ∧ t.WellNamed := by
  unfold decodeFlat
  cases AttributeLeaf.ofElement? element with
  | some leaf => exact gives_pure ⟨rfl, by simp [WellNamed, enumName?]⟩
  | none =>
    dsimp only
    split_ifs
    · refine (gives_any _).bind fun found _ => ?_
      cases found with
      | none => exact gives_throw _ _
      | some text =>
        dsimp only
        cases hname : TypeName.parse text with
        | error fault => exact gives_throw _ _
        | ok name =>
          refine gives_pure ⟨rfl, ?_⟩
          rintro _ ⟨⟩
          exact TypeName.wellFormed_of_parse hname
    · exact gives_throw _ _

/-- A type that is read is no array of arrays, and the name of its enum is well-formed. -/
theorem gives_decode : decode.Gives fun t => t.arrayLevels ≤ 1 ∧ t.WellNamed := by
  refine (gives_any _).bind fun element _ => ?_
  split_ifs
  · refine (gives_any _).bind fun inner _ => ?_
    split_ifs
    · exact gives_throw _ _
    · refine (gives_decodeFlat inner).bind fun t ht => gives_pure ⟨?_, ht.2⟩
      rw [arrayLevels, ht.1]
  · intro c c' t hrun
    obtain ⟨hlevels, hnamed⟩ := gives_decodeFlat element c c' t hrun
    exact ⟨by omega, hnamed⟩

end AttributeType

theorem NamedArgument.gives_decode : NamedArgument.decode.Gives fun a =>
    (a.type.arrayLevels ≤ 1 ∧ a.type.WellNamed) ∧ Counted a.name := by
  refine (gives_any _).bind fun kind _ => ?_
  split_ifs
  · refine AttributeType.gives_decode.bind fun type htype => ?_
    refine Decoder.gives_serString.bind fun found hfound => ?_
    cases found with
    | none => exact gives_throw _ _
    | some name => exact gives_pure ⟨htype, hfound name rfl⟩
  · exact gives_throw _ _

/-! ### The grammar -/

/-- Types and heads of named arguments that are read are written again, if the names of their enums
are not too long as text, and read back; types that are read have at most one level of arrays; what
is refused is an array of arrays or has too long a name; and whatever is written under well-formed
names is read back. -/
theorem attributes_roundTrip :
    (∀ c c' t, AttributeType.decode c = .ok t c' → t.arrayLevels ≤ 1 ∧
      ((∀ name ∈ t.enumName?, Counted name.text) → RoundTrips t.encode AttributeType.decode t)) ∧
    (∀ c c' a, NamedArgument.decode c = .ok a c' → a.type.arrayLevels ≤ 1 ∧
      ((∀ name ∈ a.type.enumName?, Counted name.text) →
        RoundTrips a.encode NamedArgument.decode a)) ∧
    (∀ (t : AttributeType) out, (∃ fault out', t.encode out = .error fault out') ↔
      2 ≤ t.arrayLevels ∨ ∃ name ∈ t.enumName?, ¬ Counted name.text) ∧
    (∀ (a : NamedArgument) out, (∃ fault out', a.encode out = .error fault out') ↔
      2 ≤ a.type.arrayLevels ∨ (∃ name ∈ a.type.enumName?, ¬ Counted name.text) ∨
        ¬ Counted a.name) ∧
    (∀ (t : AttributeType) out out', t.WellNamed → t.encode out = .ok () out' →
      RoundTrips t.encode AttributeType.decode t) ∧
    ∀ (a : NamedArgument) out out', a.type.WellNamed → a.encode out = .ok () out' →
      RoundTrips a.encode NamedArgument.decode a := by
  refine ⟨fun c c' t h => ?_, fun c c' a h => ?_, fun t out => ?_, fun a out => ?_,
    fun t out out' hnamed h => ?_, fun a out out' hnamed h => ?_⟩
  · obtain ⟨hlevels, hnamed⟩ := AttributeType.gives_decode c c' t h
    exact ⟨hlevels, fun hcounted => t.codes.roundTrips ⟨hlevels, hcounted⟩ hnamed⟩
  · obtain ⟨⟨hlevels, hnamed⟩, hname⟩ := NamedArgument.gives_decode c c' a h
    exact ⟨hlevels, fun hcounted => a.codes.roundTrips ⟨⟨hlevels, hcounted⟩, hname⟩ hnamed⟩
  · rw [t.codes.error_iff, AttributeType.not_fits_iff]
  · rw [a.codes.error_iff, NamedArgument.Fits, not_and_or, AttributeType.not_fits_iff, or_assoc]
  · refine t.codes.roundTrips ?_ hnamed
    by_contra hfits
    obtain ⟨fault, out'', hrun⟩ := t.codes.refuses hfits out
    rw [h] at hrun
    cases hrun
  · refine a.codes.roundTrips ?_ hnamed
    by_contra hfits
    obtain ⟨fault, out'', hrun⟩ := a.codes.refuses hfits out
    rw [h] at hrun
    cases hrun

/-- An array of enums, whose name stands in an assembly. -/
def colorsType : AttributeType :=
  .szArray (.enum { name := "Color", assembly := some ⟨"App", []⟩ })

/-- A field of that type. -/
def colorsField : NamedArgument := { isField := true, type := colorsType, name := "Kinds" }

theorem wellNamed_colorsType : colorsType.WellNamed := by
  rintro name ⟨⟩
  refine ⟨by simp, by decide, by simp, by simp, ?_⟩
  rintro a ⟨⟩
  exact ⟨by decide, by decide, by simp⟩

/-- The head of the field is written and read back with two bytes behind it, and so it fits. -/
theorem attributes_roundTrip_colors :
    NamedArgument.decode { bytes := #[0x53, 0x1D, 0x55, 10, 67, 111, 108, 111, 114, 44, 32, 65, 112,
        112, 5, 75, 105, 110, 100, 115] ++ #[1, 0] } =
      .ok colorsField { bytes := #[0x53, 0x1D, 0x55, 10, 67, 111, 108, 111, 114, 44, 32, 65, 112,
        112, 5, 75, 105, 110, 100, 115] ++ #[1, 0], pos := 20 } ∧
    RoundTrips colorsType.encode AttributeType.decode colorsType ∧
    RoundTrips colorsField.encode NamedArgument.decode colorsField := by
  obtain ⟨-, hread, -, -, htype, hargument⟩ := attributes_roundTrip
  have hencode : colorsField.encode #[] = .ok () #[0x53, 0x1D, 0x55, 10, 67, 111, 108, 111, 114, 44,
      32, 65, 112, 112, 5, 75, 105, 110, 100, 115] := rfl
  have hfield := hargument colorsField #[] _ wellNamed_colorsType hencode
  have hdecode := hfield.decode hencode #[1, 0]
  refine ⟨hdecode, htype colorsType #[] _ wellNamed_colorsType rfl,
    (hread _ _ _ hdecode).2 ?_⟩
  rintro name ⟨⟩
  decide

end CilMetadata

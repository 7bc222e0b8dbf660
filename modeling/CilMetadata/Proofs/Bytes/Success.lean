import CilMetadata.Proofs.Bytes.Stream

/-!
# What a success tells

`EmitsAt` and `ReadsAt` start from bytes and say what a step does with them. The two relations here
start from the step and say what its success tells about the bytes:

* `Decoder.TakesAt n d post`: whenever `d` succeeds at position `n`, it stops right behind bytes
  that lay ahead, and `post` relates these bytes to the value;
* `Encoder.EmitsWhen n size e p`: on an output of `n` bytes, `e` appends `size` bytes if `p` holds,
  and fails otherwise.

Both go through sequences (`TakesAt.bind`, `EmitsWhen.bind`) and lists (`takesAt_times`,
`emitsWhen_each`); the other lemmas are the two relations for the primitive readers and writers.
-/

namespace CilMetadata

/-! ### Numbers in a fixed number of bytes -/

namespace Bytes

theorem ofLE_lt (bytes : List UInt8) : ofLE bytes < 256 ^ bytes.length := by
  induction bytes with
  | nil => simp [ofLE]
  | cons byte rest ih =>
    have hbyte := byte.toNat_lt
    rw [ofLE, List.length_cons, Nat.pow_succ']
    omega

/-- Bytes are written again by the number they stand for. -/
theorem toLE_ofLE (bytes : List UInt8) : toLE bytes.length (ofLE bytes) = bytes := by
  induction bytes with
  | nil => rfl
  | cons byte rest ih =>
    have hbyte := byte.toNat_lt
    have hlow : UInt8.ofNat (byte.toNat + 256 * ofLE rest) = byte := by
      apply UInt8.toNat_inj.1
      rw [UInt8.toNat_ofNat']
      omega
    have hhigh : (byte.toNat + 256 * ofLE rest) / 256 = ofLE rest := by omega
    rw [List.length_cons, ofLE, toLE, hlow, hhigh, ih]

@[simp] theorem ofLE_replicate_zero (width : Nat) : ofLE (List.replicate width 0) = 0 := by
  induction width with
  | zero => rfl
  | succ width ih => simp [ofLE, ih, List.replicate_succ]

end Bytes

/-! ### Readers -/

namespace Decoder

variable {α β : Type} {n : Nat}

/-- Whenever the decoder succeeds at position `n`, it stops right behind bytes that lay ahead, and
these are related to its value. -/
def TakesAt (n : Nat) (d : Decoder α) (post : List UInt8 → α → Prop) : Prop :=
  ∀ (c c' : Cursor) (a : α), c.pos = n → d c = .ok a c' →
    ∃ bytes, bytes <+: c.rest ∧ c' = c.forward bytes.length ∧ post bytes a

theorem TakesAt.mono {d : Decoder α} {post post' : List UInt8 → α → Prop} (h : TakesAt n d post)
    (himp : ∀ bytes a, post bytes a → post' bytes a) : TakesAt n d post' := by
  intro c c' a hc hrun
  obtain ⟨bytes, hahead, hstop, hpost⟩ := h c c' a hc hrun
  exact ⟨bytes, hahead, hstop, himp bytes a hpost⟩

theorem TakesAt.bind {d : Decoder α} {f : α → Decoder β} {first : List UInt8 → α → Prop}
    {post : List UInt8 → β → Prop} (h : TakesAt n d first)
    (h' : ∀ head a, first head a →
      TakesAt (n + head.length) (f a) fun tail b => post (head ++ tail) b) :
    TakesAt n (d >>= f) post := by
  intro c c' b hc hrun
  obtain ⟨a, mid, hfirst, hsecond⟩ := bind_eq_ok.1 hrun
  obtain ⟨head, hhead, rfl, hpost⟩ := h c mid a hc hfirst
  obtain ⟨tail, htail, rfl, hpost'⟩ := h' head a hpost _ c' b (by simp [hc]) hsecond
  refine ⟨head ++ tail, ?_, by simp, hpost'⟩
  obtain ⟨behind, hbehind⟩ := hhead
  rw [Cursor.rest_forward, ← hbehind, List.drop_left] at htail
  rw [← hbehind]
  exact (List.prefix_append_right_inj head).2 htail

theorem takesAt_pure {a : α} {post : List UInt8 → α → Prop} (h : post [] a) :
    TakesAt n (pure a) post := by
  intro c c' b _ hrun
  cases hrun
  exact ⟨[], List.nil_prefix, rfl, h⟩

theorem takesAt_throw (n : Nat) (fault : Fault) (post : List UInt8 → α → Prop) :
    TakesAt n (throw fault) post := by
  intro c c' a _ hrun
  cases hrun

/-- A reader whose value is changed afterwards. -/
theorem TakesAt.map {d : Decoder α} {f : α → β} {post : List UInt8 → β → Prop}
    (h : TakesAt n d fun bytes a => post bytes (f a)) : TakesAt n (do return f (← d)) post :=
  h.bind fun head a hpost => takesAt_pure (by simpa using hpost)

/-- A reader of values that have one form each, which are changed afterwards. -/
theorem TakesAt.mapForm {d : Decoder α} {form : α → List UInt8} {f : α → β}
    {post : List UInt8 → β → Prop} (h : TakesAt n d fun bytes a => bytes = form a)
    (hpost : ∀ a, post (form a) (f a)) : TakesAt n (do return f (← d)) post := by
  refine TakesAt.map (h.mono ?_)
  rintro _ a rfl
  exact hpost a

/-- Looking at the cursor takes nothing. -/
theorem TakesAt.get {f : Cursor → Decoder β} {post : List UInt8 → β → Prop}
    (h : ∀ c, TakesAt n (f c) post) : TakesAt n (do f (← get)) post :=
  fun c c' b hc hrun => h c c c' b hc hrun

theorem takesAt_take (n size : Nat) :
    TakesAt n (take size) fun bytes array => bytes.length = size ∧ array = bytes.toArray := by
  intro c c' array _ hrun
  unfold take at hrun
  split at hrun
  case isTrue hfits =>
    cases hrun
    have hlen : (c.rest.take size).length = size := by
      rw [List.length_take, Cursor.length_rest, Cursor.remaining]
      omega
    refine ⟨c.rest.take size, List.take_prefix _ _, by rw [hlen], hlen, ?_⟩
    apply Array.toList_inj.1
    rw [Array.toList_extract, List.extract_eq_take_drop, Nat.add_sub_cancel_left]
    rfl
  case isFalse => cases hrun

theorem takesAt_number (n : Nat) (order : Bytes.Order) (width : Nat) :
    TakesAt n (number order width) fun bytes value =>
      bytes.length = width ∧ value = Bytes.decode order bytes := by
  refine TakesAt.map ((takesAt_take n width).mono ?_)
  rintro bytes array ⟨hlen, rfl⟩
  exact ⟨hlen, rfl⟩

theorem takesAt_byte (n : Nat) : TakesAt n byte fun bytes b => bytes = [b] := by
  intro c c' b _ hrun
  unfold byte at hrun
  cases hnext : c.bytes[c.pos]? with
  | none =>
    rw [hnext] at hrun
    cases hrun
  | some next =>
    rw [hnext] at hrun
    cases hrun
    have hhead : c.rest.head? = some b := by simpa [Cursor.rest] using hnext
    obtain ⟨tail, htail⟩ := List.head?_eq_some_iff.1 hhead
    exact ⟨[b], ⟨tail, htail.symm⟩, rfl, rfl⟩

/-- A number in a word of its own width takes the bytes that it is written as. -/
theorem takesAt_word (n width : Nat) {ofNat : Nat → α} {toNat : α → Nat}
    (h : ∀ value < 256 ^ width, toNat (ofNat value) = value) :
    TakesAt n (do return ofNat (← number .little width)) fun bytes word =>
      bytes = Bytes.toLE width (toNat word) := by
  refine TakesAt.map ((takesAt_number n .little width).mono ?_)
  rintro bytes value ⟨rfl, rfl⟩
  rw [Bytes.decode, h _ (Bytes.ofLE_lt bytes), Bytes.toLE_ofLE]

theorem takesAt_u16 (n : Nat) :
    TakesAt n u16 fun bytes word => bytes = Bytes.toLE 2 word.toNat :=
  takesAt_word n 2 fun _ h => UInt16.toNat_ofNat_of_lt' h

theorem takesAt_u32 (n : Nat) :
    TakesAt n u32 fun bytes word => bytes = Bytes.toLE 4 word.toNat :=
  takesAt_word n 4 fun _ h => UInt32.toNat_ofNat_of_lt' h

theorem takesAt_u64 (n : Nat) :
    TakesAt n u64 fun bytes word => bytes = Bytes.toLE 8 word.toNat :=
  takesAt_word n 8 fun _ h => UInt64.toNat_ofNat_of_lt' h

/-- Items that take a form of their own wherever they stand take the forms one after the other. -/
theorem takesAt_times {d : Decoder α} {form : α → List UInt8} {p : α → Prop}
    (h : ∀ n, TakesAt n d fun bytes a => bytes = form a ∧ p a) (n count : Nat) :
    TakesAt n (d.times count) fun bytes items =>
      items.length = count ∧ bytes = items.flatMap form ∧ ∀ item ∈ items, p item := by
  induction count generalizing n with
  | zero => exact takesAt_pure ⟨rfl, rfl, by simp⟩
  | succ count ih =>
    rw [times_succ]
    refine (h n).bind ?_
    rintro head item ⟨rfl, hitem⟩
    refine TakesAt.map ((ih _).mono ?_)
    rintro tail items ⟨hlen, rfl, hitems⟩
    refine ⟨by rw [List.length_cons, hlen], rfl, ?_⟩
    rintro other (_ | ⟨_, hother⟩)
    · exact hitem
    · exact hitems other hother

/-- The outcome at the start of some bytes. -/
theorem value?_eq_ok {d : Decoder α} {bytes : Array UInt8} {a : α} :
    d.value? bytes = .ok a ↔ ∃ c, d { bytes } = .ok a c := by
  unfold value?
  cases d { bytes } <;> simp

/-- What a decoder takes from the start of some bytes are the first of them. -/
theorem TakesAt.start {d : Decoder α} {post : List UInt8 → α → Prop} (h : TakesAt 0 d post)
    {bytes : Array UInt8} {a : α} (hrun : d.value? bytes = .ok a) :
    ∃ taken, taken <+: bytes.toList ∧ post taken a := by
  obtain ⟨c, hc⟩ := value?_eq_ok.1 hrun
  obtain ⟨taken, hahead, -, hpost⟩ := h _ c a rfl hc
  exact ⟨taken, by simpa [Cursor.rest] using hahead, hpost⟩

end Decoder

/-- The reader of what stands at the start of some bytes, whatever follows. -/
theorem Decoder.ReadsAt.value? {α : Type} {d : Decoder α} {bytes : List UInt8} {a : α}
    (h : d.ReadsAt 0 bytes a) (suffix : Array UInt8) :
    d.value? (bytes.toArray ++ suffix) = .ok a :=
  value?_eq_ok.2 ⟨_, h _ rfl (Cursor.ahead_start bytes suffix)⟩

/-! ### Writers -/

namespace Encoder

variable {n : Nat}

/-- On an output of `n` bytes the encoder appends `size` bytes if `p` holds, and fails otherwise. -/
structure EmitsWhen (n size : Nat) (e : Encoder Unit) (p : Prop) : Prop where
  emits : p → ∃ bytes, bytes.length = size ∧ EmitsAt n e bytes
  holds : ∀ out out', out.size = n → e out = .ok () out' → p

theorem EmitsWhen.congr {size : Nat} {e : Encoder Unit} {p q : Prop} (h : EmitsWhen n size e p)
    (hiff : p ↔ q) : EmitsWhen n size e q :=
  ⟨fun hq => h.emits (hiff.2 hq), fun out out' hout hrun => hiff.1 (h.holds out out' hout hrun)⟩

theorem emitsWhen_of_emitsAt {e : Encoder Unit} {bytes : List UInt8} (h : EmitsAt n e bytes) :
    EmitsWhen n bytes.length e True :=
  ⟨fun _ => ⟨bytes, rfl, h⟩, fun _ _ _ _ => trivial⟩

theorem emitsWhen_number (n width value : Nat) : EmitsWhen n width (number width value) True := by
  have hwhen := emitsWhen_of_emitsAt (emitsAt_number n width value)
  rwa [Bytes.length_toLE] at hwhen

theorem emitsWhen_throw (n size : Nat) (fault : Fault) : EmitsWhen n size (throw fault) False := by
  constructor
  · exact False.elim
  · intro out out' _ hrun
    cases hrun

/-- A writer behind a test that refuses everything else. -/
theorem emitsWhen_ite {size : Nat} {e : Encoder Unit} {q p : Prop} [Decidable q] {fault : Fault}
    (h : q → EmitsWhen n size e p) : EmitsWhen n size (if q then e else throw fault) (q ∧ p) := by
  by_cases hq : q
  · rw [if_pos hq]
    exact (h hq).congr (by simp [hq])
  · rw [if_neg hq]
    exact (emitsWhen_throw n size fault).congr (by simp [hq])

theorem EmitsWhen.bind {first second : Nat} {e e' : Encoder Unit} {p q : Prop}
    (h : EmitsWhen n first e p) (h' : EmitsWhen (n + first) second e' q) :
    EmitsWhen n (first + second) (do e; e') (p ∧ q) := by
  constructor
  · rintro ⟨hp, hq⟩
    obtain ⟨bytes, rfl, hemit⟩ := h.emits hp
    obtain ⟨bytes', rfl, hemit'⟩ := h'.emits hq
    exact ⟨bytes ++ bytes', by simp, hemit.bind hemit'⟩
  · intro out out' hout hrun
    obtain ⟨_, mid, hfirst, hsecond⟩ := bind_eq_ok.1 hrun
    have hp := h.holds out mid hout hfirst
    obtain ⟨bytes, rfl, hemit⟩ := h.emits hp
    rw [hemit out hout] at hfirst
    cases hfirst
    exact ⟨hp, h'.holds _ out' (by simp [hout]) hsecond⟩

/-- Items of one size are written one after the other if each of them can be. -/
theorem emitsWhen_each {α : Type} {size : Nat} {encode : α → Encoder Unit} {p : α → Prop}
    {items : List α} (h : ∀ item ∈ items, ∀ n, EmitsWhen n size (encode item) (p item)) (n : Nat) :
    EmitsWhen n (size * items.length) (each encode items) (∀ item ∈ items, p item) := by
  induction items generalizing n with
  | nil => exact (emitsWhen_of_emitsAt (emitsAt_pure n)).congr (by simp)
  | cons item rest ih =>
    have hfirst := h item List.mem_cons_self n
    have hrest := ih (fun a ha => h a (List.mem_cons_of_mem _ ha)) (n + size)
    rw [List.length_cons, Nat.mul_succ, Nat.add_comm]
    exact (hfirst.bind hrest).congr (by simp)

/-- The outcome on an empty output. -/
theorem bytes?_eq_ok {e : Encoder Unit} {bytes : Array UInt8} :
    e.bytes? = .ok bytes ↔ e #[] = .ok () bytes := by
  unfold bytes?
  cases e #[] <;> simp

/-- When there is an outcome on an empty output. -/
theorem EmitsWhen.bytes?_isOk {size : Nat} {e : Encoder Unit} {p : Prop}
    (h : EmitsWhen 0 size e p) : (∃ bytes, e.bytes? = .ok bytes) ↔ p := by
  constructor
  · rintro ⟨bytes, hbytes⟩
    exact h.holds #[] bytes rfl (bytes?_eq_ok.1 hbytes)
  · intro hp
    obtain ⟨bytes, -, hemit⟩ := h.emits hp
    exact ⟨bytes.toArray, hemit.bytes?⟩

end Encoder

end CilMetadata

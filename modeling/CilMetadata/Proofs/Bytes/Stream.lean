import CilMetadata.Bytes.Cursor
import CilMetadata.Bytes.Output
import Mathlib.Data.List.Basic
import Mathlib.Tactic.Ring

/-!
# What writers append and readers take

Every writer here appends to its output, and every reader moves its cursor over the bytes that it
takes. Two relations say so for one value each, at a given position:

* `Encoder.EmitsAt n e bytes`: on an output of `n` bytes, `e` appends `bytes`;
* `Decoder.ReadsAt n d bytes a`: at position `n`, with `bytes` ahead, `d` gives `a` and stops right
  behind `bytes`, whatever follows.

Both go through sequences (`EmitsAt.bind`, `ReadsAt.bind`) and lists (`emitsAt_each`,
`readsAt_times`); the other lemmas are the two relations for the primitive writers and readers.

A writer that may fail is paired with its reader by one relation: `RecoversAt n size e d a` says
that whenever `e` succeeds, it appends `size` bytes from which `d` gives `a`.
-/

namespace CilMetadata

/-- A sequence of two steps succeeds when both of them do. -/
theorem bind_eq_ok {σ α β : Type} {x : EStateM Fault σ α} {f : α → EStateM Fault σ β} {s s' : σ}
    {b : β} :
    (x >>= f) s = .ok b s' ↔ ∃ a mid, x s = .ok a mid ∧ f a mid = .ok b s' := by
  change EStateM.bind x f s = _ ↔ _
  unfold EStateM.bind
  cases hx : x s with
  | ok a mid => simp
  | error fault mid => simp

/-! ### Numbers in a fixed number of bytes -/

namespace Bytes

/-- The bytes of a number hold as much of it as fits. -/
theorem ofLE_toLE (width n : Nat) : ofLE (toLE width n) = n % 256 ^ width := by
  induction width generalizing n with
  | zero => simp [toLE, ofLE, Nat.mod_one]
  | succ width ih =>
    have h : n % 256 + 256 * (n / 256 % 256 ^ width) = n % (256 * 256 ^ width) :=
      Nat.mod_mul.symm
    rw [toLE, ofLE, ih, Nat.pow_succ', ← h, UInt8.toNat_ofNat']

theorem ofBE_toBE (width n : Nat) : ofBE (toBE width n) = n % 256 ^ width := by
  simp [ofBE, toBE, ofLE_toLE]

end Bytes

/-! ### Cursors -/

namespace Cursor

@[simp] theorem pos_forward (c : Cursor) (n : Nat) : (c.forward n).pos = c.pos + n := rfl

@[simp] theorem bytes_forward (c : Cursor) (n : Nat) : (c.forward n).bytes = c.bytes := rfl

@[simp] theorem forward_forward (c : Cursor) (m n : Nat) :
    (c.forward m).forward n = c.forward (m + n) := by
  simp [forward, Nat.add_assoc]

@[simp] theorem rest_forward (c : Cursor) (n : Nat) : (c.forward n).rest = c.rest.drop n := by
  simp [rest, forward, List.drop_drop]

@[simp] theorem length_rest (c : Cursor) : c.rest.length = c.remaining := by
  simp [rest, remaining]

/-- The given bytes lie ahead of a cursor that is not past the end. -/
def Ahead (c : Cursor) (bytes : List UInt8) : Prop :=
  c.pos ≤ c.bytes.size ∧ bytes <+: c.rest

theorem Ahead.fits {c : Cursor} {bytes : List UInt8} (h : c.Ahead bytes) :
    c.pos + bytes.length ≤ c.bytes.size := by
  have hlen := h.2.length_le
  have hpos := h.1
  simp only [length_rest, remaining] at hlen
  omega

theorem ahead_append {c : Cursor} {first second : List UInt8} :
    c.Ahead (first ++ second) ↔ c.Ahead first ∧ (c.forward first.length).Ahead second := by
  constructor
  · intro h
    obtain ⟨tail, htail⟩ := h.2
    have hfits := h.fits
    refine ⟨⟨h.1, second ++ tail, by simpa using htail⟩, ?_, tail, ?_⟩
    · simp only [List.length_append] at hfits
      simp only [pos_forward, bytes_forward]
      omega
    · rw [rest_forward, ← htail]
      simp
  · rintro ⟨hfirst, -, tail, htail⟩
    obtain ⟨mid, hmid⟩ := hfirst.2
    rw [rest_forward, ← hmid, List.drop_left] at htail
    exact ⟨hfirst.1, tail, by rw [← hmid, ← htail, List.append_assoc]⟩

theorem Ahead.cons {c : Cursor} {byte : UInt8} {bytes : List UInt8} (h : c.Ahead (byte :: bytes)) :
    c.bytes[c.pos]? = some byte ∧ (c.forward 1).Ahead bytes := by
  have hsplit := ahead_append.1 (show c.Ahead ([byte] ++ bytes) from h)
  obtain ⟨tail, htail⟩ := h.2
  refine ⟨?_, hsplit.2⟩
  have hhead : c.rest[0]? = some byte := by rw [← htail]; rfl
  simpa [rest] using hhead

/-- A cursor at the start of some bytes with a suffix has these bytes ahead. -/
theorem ahead_start (bytes : List UInt8) (suffix : Array UInt8) :
    Cursor.Ahead { bytes := bytes.toArray ++ suffix } bytes :=
  ⟨Nat.zero_le _, suffix.toList, by simp [rest]⟩

theorem Ahead.extract {c : Cursor} {bytes : List UInt8} (h : c.Ahead bytes) :
    c.bytes.extract c.pos (c.pos + bytes.length) = bytes.toArray := by
  obtain ⟨tail, htail⟩ := h.2
  apply Array.toList_inj.1
  rw [Array.toList_extract, List.extract_eq_take_drop, Nat.add_sub_cancel_left]
  change c.rest.take bytes.length = bytes
  rw [← htail, List.take_left]

end Cursor

/-! ### Writers -/

namespace Encoder

/-- On an output of `n` bytes the encoder succeeds and appends `bytes`. -/
def EmitsAt (n : Nat) (e : Encoder Unit) (bytes : List UInt8) : Prop :=
  ∀ out : Array UInt8, out.size = n → e out = .ok () (out ++ bytes.toArray)

theorem EmitsAt.bind {n : Nat} {e e' : Encoder Unit} {first second : List UInt8}
    (h : EmitsAt n e first) (h' : EmitsAt (n + first.length) e' second) :
    EmitsAt n (do e; e') (first ++ second) := by
  intro out hout
  have hnext := h' (out ++ first.toArray) (by simp [hout])
  change EStateM.bind e (fun _ => e') out = _
  simp only [EStateM.bind, h out hout, hnext, Array.append_assoc, List.append_toArray]

theorem emitsAt_pure (n : Nat) : EmitsAt n (pure ()) [] := by
  intro out _
  change EStateM.Result.ok () out = _
  simp

theorem emitsAt_emit (n : Nat) (bytes : List UInt8) : EmitsAt n (emit bytes) bytes := by
  intro out _
  have hout : out ++ bytes = out ++ bytes.toArray := Array.toList_inj.1 (by simp)
  rw [emit, hout]

theorem emitsAt_emitArray (n : Nat) (bytes : Array UInt8) :
    EmitsAt n (emitArray bytes) bytes.toList := by
  intro out _
  simp [emitArray]

theorem emitsAt_byte (n : Nat) (b : UInt8) : EmitsAt n (byte b) [b] := by
  intro out _
  simp [byte]

/-- The bytes that fill an output up to a multiple of `alignment`. -/
theorem emitsAt_align (n alignment : Nat) (fill : UInt8) :
    EmitsAt n (align alignment fill) (List.replicate (Decoder.paddingFor alignment n) fill) := by
  rintro out rfl
  have hout (bytes : List UInt8) : out ++ bytes = out ++ bytes.toArray :=
    Array.toList_inj.1 (by simp)
  rw [align, hout]
  rfl

theorem emitsAt_number (n width value : Nat) :
    EmitsAt n (number width value) (Bytes.toLE width value) :=
  emitsAt_emit n _

/-- Items that are written wherever they stand are written one after the other. -/
theorem emitsAt_each {α : Type} {encode : α → Encoder Unit} {form : α → List UInt8} {items : List α}
    (h : ∀ item ∈ items, ∀ n, EmitsAt n (encode item) (form item)) (n : Nat) :
    EmitsAt n (each encode items) (items.flatMap form) := by
  induction items generalizing n with
  | nil => exact emitsAt_pure n
  | cons item rest ih =>
    have hfirst := h item List.mem_cons_self n
    have hrest := ih (fun a ha => h a (List.mem_cons_of_mem _ ha)) (n + (form item).length)
    exact hfirst.bind hrest

/-- The outcome on an empty output. -/
theorem EmitsAt.bytes? {e : Encoder Unit} {bytes : List UInt8} (h : EmitsAt 0 e bytes) :
    e.bytes? = .ok bytes.toArray := by
  have hout := h #[] rfl
  simp [Encoder.bytes?, hout]

end Encoder

/-! ### Readers -/

namespace Decoder

variable {α β : Type}

/-- At position `n`, with `bytes` ahead, the decoder gives `a` and stops right behind `bytes`. -/
def ReadsAt (n : Nat) (d : Decoder α) (bytes : List UInt8) (a : α) : Prop :=
  ∀ c : Cursor, c.pos = n → c.Ahead bytes → d c = .ok a (c.forward bytes.length)

theorem ReadsAt.bind {n : Nat} {d : Decoder α} {f : α → Decoder β} {first second : List UInt8}
    {a : α} {b : β} (h : ReadsAt n d first a) (h' : ReadsAt (n + first.length) (f a) second b) :
    ReadsAt n (d >>= f) (first ++ second) b := by
  intro c hc hahead
  obtain ⟨hfirst, hsecond⟩ := Cursor.ahead_append.1 hahead
  have hnext := h' (c.forward first.length) (by simp [hc]) hsecond
  change EStateM.bind d f c = _
  simp only [EStateM.bind, h c hc hfirst, hnext, Cursor.forward_forward, List.length_append]

/-- What comes first takes no bytes. -/
theorem ReadsAt.behind {n : Nat} {d : Decoder α} {f : α → Decoder β} {bytes : List UInt8} {a : α}
    {b : β} (h : ReadsAt n (f a) bytes b) (h' : ReadsAt n d [] a) : ReadsAt n (d >>= f) bytes b :=
  h'.bind h

/-- What comes last takes no bytes. -/
theorem ReadsAt.andThen {n : Nat} {d : Decoder α} {f : α → Decoder β} {bytes : List UInt8} {a : α}
    {b : β} (h : ReadsAt n d bytes a) (h' : ReadsAt (n + bytes.length) (f a) [] b) :
    ReadsAt n (d >>= f) bytes b := by
  have hboth := h.bind h'
  rwa [List.append_nil] at hboth

theorem readsAt_pure (n : Nat) (a : α) : ReadsAt n (pure a) [] a :=
  fun _ _ _ => rfl

/-- Looking at the cursor takes nothing. -/
theorem ReadsAt.get {n : Nat} {f : Cursor → Decoder β} {bytes : List UInt8} {b : β}
    (h : ∀ c : Cursor, c.pos = n → c.Ahead bytes → ReadsAt n (f c) bytes b) :
    ReadsAt n (do f (← get)) bytes b :=
  fun c hc hahead => h c hc hahead c hc hahead

/-- A reader whose value is changed afterwards. -/
theorem ReadsAt.map {n : Nat} {d : Decoder α} {bytes : List UInt8} {a : α} (h : ReadsAt n d bytes a)
    (f : α → β) : ReadsAt n (do return f (← d)) bytes (f a) :=
  h.andThen (f := fun x => pure (f x)) (readsAt_pure _ _)

theorem ReadsAt.restoring {n : Nat} {d : Decoder α} {bytes : List UInt8} {a : α}
    (h : ReadsAt n d bytes a) : ReadsAt n d.restoring bytes a := by
  intro c hc hahead
  simp [Decoder.restoring, h c hc hahead]

theorem readsAt_byte (n : Nat) (b : UInt8) : ReadsAt n byte [b] b := by
  intro c _ hahead
  simp [byte, hahead.cons.1]

/-- A reader of a byte and of what comes behind it. -/
theorem ReadsAt.behindByte {n : Nat} {f : UInt8 → Decoder β} {b : UInt8} {bytes : List UInt8}
    {a : β} (h : ReadsAt (n + 1) (f b) bytes a) : ReadsAt n (do f (← byte)) (b :: bytes) a :=
  (readsAt_byte n b).bind h

theorem peekByte_of_ahead {c : Cursor} {b : UInt8} {bytes : List UInt8} (h : c.Ahead (b :: bytes)) :
    peekByte c = .ok b c := by
  simp [peekByte, h.cons.1]

/-- Looking at the next byte takes nothing. -/
theorem ReadsAt.peekByte {n : Nat} {f : UInt8 → Decoder β} {head : UInt8} {bytes tail : List UInt8}
    {b : β} (h : ReadsAt n (f head) bytes b) (hhead : bytes = head :: tail) :
    ReadsAt n (do f (← peekByte)) bytes b := by
  intro c hc hahead
  change EStateM.bind Decoder.peekByte f c = _
  simp only [EStateM.bind, peekByte_of_ahead (hhead ▸ hahead), h c hc hahead]

theorem readsAt_position (n : Nat) : ReadsAt n position [] n := by
  rintro c rfl -
  rfl

/-- Moving on without a look at the bytes. -/
theorem readsAt_forward (n : Nat) (bytes : List UInt8) :
    ReadsAt n (modify (·.forward bytes.length)) bytes () :=
  fun _ _ _ => rfl

/-- A move to the place where the cursor is. -/
theorem readsAt_moveTo {n pos : Nat} (h : pos = n) :
    ReadsAt n (modify fun c => { c with pos }) [] () := by
  rintro c rfl -
  subst h
  rfl

theorem readsAt_take (n : Nat) (bytes : List UInt8) :
    ReadsAt n (take bytes.length) bytes bytes.toArray := by
  intro c _ hahead
  simp [take, hahead.fits, hahead.extract]

theorem readsAt_skip (n : Nat) (bytes : List UInt8) : ReadsAt n (skip bytes.length) bytes () := by
  intro c _ hahead
  simp [skip, hahead.fits]

theorem readsAt_number (n : Nat) (order : Bytes.Order) (bytes : List UInt8) :
    ReadsAt n (number order bytes.length) bytes (Bytes.decode order bytes) :=
  (readsAt_take n bytes).map fun array => Bytes.decode order array.toList

/-- A number that fits its width is read back. -/
theorem readsAt_number_toLE (n : Nat) {width value : Nat} (h : value < 256 ^ width) :
    ReadsAt n (number .little width) (Bytes.toLE width value) value := by
  have hread := readsAt_number n .little (Bytes.toLE width value)
  rwa [Bytes.length_toLE, Bytes.decode, Bytes.ofLE_toLE, Nat.mod_eq_of_lt h] at hread

theorem readsAt_u16 (n : Nat) (value : UInt16) :
    ReadsAt n u16 (Bytes.toLE 2 value.toNat) value := by
  have hread := (@readsAt_number_toLE n 2 _ value.toNat_lt).map UInt16.ofNat
  rwa [UInt16.ofNat_toNat] at hread

theorem readsAt_u32 (n : Nat) (value : UInt32) :
    ReadsAt n u32 (Bytes.toLE 4 value.toNat) value := by
  have hread := (@readsAt_number_toLE n 4 _ value.toNat_lt).map UInt32.ofNat
  rwa [UInt32.ofNat_toNat] at hread

theorem readsAt_u64 (n : Nat) (value : UInt64) :
    ReadsAt n u64 (Bytes.toLE 8 value.toNat) value := by
  have hread := (@readsAt_number_toLE n 8 _ value.toNat_lt).map UInt64.ofNat
  rwa [UInt64.ofNat_toNat] at hread

/-- Items that are read wherever they stand are read one after the other. -/
theorem readsAt_times {d : Decoder β} {form : α → List UInt8} {value : α → β} {items : List α}
    (h : ∀ item ∈ items, ∀ n, ReadsAt n d (form item) (value item)) (n : Nat) :
    ReadsAt n (d.times items.length) (items.flatMap form) (items.map value) := by
  induction items generalizing n with
  | nil => exact readsAt_pure n []
  | cons item rest ih =>
    have hfirst := h item List.mem_cons_self n
    have hrest := ih (fun a ha => h a (List.mem_cons_of_mem _ ha)) (n + (form item).length)
    rw [List.length_cons, times_succ]
    exact hfirst.bind (hrest.map (value item :: ·))

end Decoder

/-! ### Writers that may fail -/

/-- Whenever the encoder succeeds on an output of `n` bytes, it appends `size` bytes, and from these
the decoder at position `n` gives `a`. -/
def RecoversAt {α : Type} (n size : Nat) (e : Encoder Unit) (d : Decoder α) (a : α) : Prop :=
  ∀ out out' : Array UInt8, out.size = n → e out = .ok () out' →
    ∃ bytes, bytes.length = size ∧ out' = out ++ bytes.toArray ∧ d.ReadsAt n bytes a

theorem recoversAt_of_emitsAt {α : Type} {n : Nat} {e : Encoder Unit} {d : Decoder α}
    {bytes : List UInt8} {a : α} (h : e.EmitsAt n bytes) (h' : d.ReadsAt n bytes a) :
    RecoversAt n bytes.length e d a := by
  intro out out' hout hrun
  rw [h out hout] at hrun
  cases hrun
  exact ⟨bytes, rfl, rfl, h'⟩

theorem RecoversAt.bind {α β : Type} {n first second : Nat} {e e' : Encoder Unit} {d : Decoder α}
    {f : α → Decoder β} {a : α} {b : β} (h : RecoversAt n first e d a)
    (h' : RecoversAt (n + first) second e' (f a) b) :
    RecoversAt n (first + second) (do e; e') (d >>= f) b := by
  intro out out' hout hrun
  obtain ⟨_, mid, hfirst, hsecond⟩ := bind_eq_ok.1 hrun
  obtain ⟨bytes, rfl, rfl, hread⟩ := h out mid hout hfirst
  obtain ⟨bytes', rfl, rfl, hread'⟩ := h' _ out' (by simp [hout]) hsecond
  exact ⟨bytes ++ bytes', by simp, by simp, hread.bind hread'⟩

/-- What the decoder does first takes no bytes. -/
theorem RecoversAt.behind {α β : Type} {n size : Nat} {e : Encoder Unit} {d : Decoder α}
    {f : α → Decoder β} {a : α} {b : β} (h : RecoversAt n size e (f a) b)
    (h' : d.ReadsAt n [] a) : RecoversAt n size e (d >>= f) b := by
  intro out out' hout hrun
  obtain ⟨bytes, hlen, hbytes, hread⟩ := h out out' hout hrun
  exact ⟨bytes, hlen, hbytes, hread.behind h'⟩

/-- What the decoder does last takes no bytes. -/
theorem RecoversAt.andThen {α β : Type} {n size : Nat} {e : Encoder Unit} {d : Decoder α}
    {f : α → Decoder β} {a : α} {b : β} (h : RecoversAt n size e d a)
    (h' : (f a).ReadsAt (n + size) [] b) : RecoversAt n size e (d >>= f) b := by
  intro out out' hout hrun
  obtain ⟨bytes, rfl, hbytes, hread⟩ := h out out' hout hrun
  exact ⟨bytes, rfl, hbytes, hread.andThen h'⟩

theorem RecoversAt.map {α β : Type} {n size : Nat} {e : Encoder Unit} {d : Decoder α} {a : α}
    (h : RecoversAt n size e d a) (f : α → β) :
    RecoversAt n size e (do return f (← d)) (f a) :=
  h.andThen (f := fun x => pure (f x)) (Decoder.readsAt_pure _ _)

/-- Items of equal size that are read back wherever they stand are read back one after the other. -/
theorem recoversAt_each {α β : Type} {size : Nat} {encode : α → Encoder Unit} {d : Decoder β}
    {value : α → β} {items : List α}
    (h : ∀ item ∈ items, ∀ n, RecoversAt n size (encode item) d (value item)) (n : Nat) :
    RecoversAt n (size * items.length) (Encoder.each encode items) (d.times items.length)
      (items.map value) := by
  induction items generalizing n with
  | nil => exact recoversAt_of_emitsAt (Encoder.emitsAt_pure n) (Decoder.readsAt_pure n [])
  | cons item rest ih =>
    have hfirst := h item List.mem_cons_self n
    have hrest := ih (fun a ha => h a (List.mem_cons_of_mem _ ha)) (n + size)
    rw [List.length_cons, Decoder.times_succ, Nat.mul_succ, Nat.add_comm]
    exact hfirst.bind (hrest.map (value item :: ·))

end CilMetadata

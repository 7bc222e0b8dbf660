import CilMetadata.Proofs.Bytes.Advance
import CilMetadata.Proofs.Bytes.Success

/-!
# Where an operation leaves the cursor

The operations of a cursor keep it inside its bytes, and all but a seek keep it from going back. An
operation that fails leaves the cursor where it was, with one exception: a counted string is read in
two parts, and when the second one fails the first one has been taken (`StringLeft`).

* `CursorOp` lists the operations, `CursorOp.run` carries one out;
* `Forward` and `Restores` are the two laws for a reader that succeeds and for one that fails;
* `CursorOp.run_position` puts them together for every operation.
-/

namespace CilMetadata

namespace Decoder

variable {α β : Type}

/-! ### Looking ahead -/

theorem still_peekByte {c c' : Cursor} : (∀ b, peekByte c = .ok b c' → c' = c) ∧
    ∀ fault, peekByte c = .error fault c' → c' = c := by
  unfold peekByte
  cases c.bytes[c.pos]? <;> simp [eq_comm]

theorem still_peekNumber (order : Bytes.Order) (width : Nat) {c c' : Cursor} :
    (∀ n, peekNumber order width c = .ok n c' → c' = c) ∧
      ∀ fault, peekNumber order width c = .error fault c' → c' = c := by
  unfold peekNumber
  cases number order width c <;> simp [eq_comm]

/-! ### Successes -/

/-- A reader that succeeds stops inside the bytes, at least `least` of them further on. -/
def Forward (least : Nat) (d : Decoder α) : Prop :=
  ∀ c c' a, c.pos ≤ c.bytes.size → d c = .ok a c' →
    c'.bytes = c.bytes ∧ c.pos + least ≤ c'.pos ∧ c'.pos ≤ c'.bytes.size

theorem Forward.weaken {least : Nat} {d : Decoder α} (h : Forward least d) : Forward 0 d := by
  intro c c' a hc hrun
  obtain ⟨hbytes, hle, hc'⟩ := h c c' a hc hrun
  exact ⟨hbytes, (Nat.le_add_right _ _).trans hle, hc'⟩

/-- What takes bytes that lie ahead stops behind them. -/
theorem forward_of_takesAt {least : Nat} {d : Decoder α} {post : Nat → List UInt8 → α → Prop}
    (h : ∀ n, TakesAt n d (post n)) (hleast : ∀ n bytes a, post n bytes a → least ≤ bytes.length) :
    Forward least d := by
  intro c c' a hc hrun
  obtain ⟨bytes, hahead, rfl, hpost⟩ := h c.pos c c' a rfl hrun
  have hlen := hahead.length_le
  have hsize := hleast _ _ _ hpost
  rw [Cursor.length_rest, Cursor.remaining] at hlen
  rw [Cursor.bytes_forward, Cursor.pos_forward]
  exact ⟨rfl, Nat.add_le_add_left hsize _, by omega⟩

theorem forward_pure (a : α) : Forward 0 (pure a) := by
  intro c c' b hc hrun
  cases hrun
  exact ⟨rfl, le_rfl, hc⟩

theorem forward_throw (least : Nat) (fault : Fault) : Forward least (throw fault : Decoder α) := by
  intro c c' a _ hrun
  cases hrun

theorem Forward.bind {m n : Nat} {d : Decoder α} {f : α → Decoder β} (h : Forward m d)
    (hrest : ∀ a, Forward n (f a)) : Forward (m + n) (d >>= f) := by
  intro c c' b hc hrun
  obtain ⟨a, mid, hd, hf⟩ := bind_eq_ok.1 hrun
  obtain ⟨hbytes, hle, hmid⟩ := h c mid a hc hd
  obtain ⟨hbytes', hle', hc'⟩ := hrest a mid c' b hmid hf
  exact ⟨hbytes'.trans hbytes, by omega, hc'⟩

theorem Forward.restoring {least : Nat} {d : Decoder α} (h : Forward least d) :
    Forward least d.restoring := by
  intro c c' a hc hrun
  unfold Decoder.restoring at hrun
  cases hd : d c with
  | ok b mid =>
    rw [hd] at hrun
    cases hrun
    exact h c c' a hc hd
  | error fault mid =>
    rw [hd] at hrun
    cases hrun

/-- Looking ahead does not move the cursor. -/
theorem forward_of_still {d : Decoder α} (h : ∀ c c' a, d c = .ok a c' → c' = c) : Forward 0 d := by
  intro c c' a hc hrun
  obtain rfl := h c c' a hrun
  exact ⟨rfl, le_rfl, hc⟩

theorem forward_byte : Forward 1 byte :=
  forward_of_takesAt takesAt_byte fun _ _ _ h => (congrArg List.length h).ge

theorem forward_take (n : Nat) : Forward 0 (take n) :=
  forward_of_takesAt (fun pos => takesAt_take pos n) fun _ _ _ _ => Nat.zero_le _

theorem forward_number (order : Bytes.Order) (width : Nat) : Forward 0 (number order width) :=
  forward_of_takesAt (fun pos => takesAt_number pos order width) fun _ _ _ _ => Nat.zero_le _

theorem forward_skip (n : Nat) : Forward n (skip n) := by
  intro c c' u hc hrun
  unfold skip at hrun
  split at hrun
  case isTrue hfits =>
    cases hrun
    exact ⟨rfl, le_rfl, hfits⟩
  case isFalse => cases hrun

theorem forward_align (alignment : Nat) : Forward 0 (align alignment) :=
  fun c => (forward_skip (paddingFor alignment c.pos)).weaken c

theorem forward_payload : Forward 1 payload := by
  refine forward_byte.bind (n := 0) fun lead => ?_
  split_ifs
  · exact forward_pure _
  · exact (forward_byte.bind fun low => forward_pure _).weaken
  · exact (forward_take 3).bind fun low => forward_pure _
  · exact forward_throw 0 _

theorem forward_compressed : Forward 1 compressed :=
  (forward_payload.bind fun _ => forward_pure _).restoring

theorem forward_compressedSigned : Forward 1 compressedSigned :=
  (forward_payload.bind fun _ => forward_pure _).restoring

theorem forward_serString : Forward 0 serString := by
  refine (forward_of_still fun _ _ b => still_peekByte.1 b).bind (n := 0) fun lead => ?_
  split_ifs
  · exact ((forward_skip 1).bind fun _ => forward_pure _).weaken
  · refine (forward_compressed.bind fun size =>
      (forward_take size).bind (n := 0) fun bytes => ?_).weaken
    cases String.fromUTF8? ⟨bytes⟩ with
    | some text => exact forward_pure _
    | none => exact forward_throw 0 _

/-! ### Failures -/

/-- A reader that fails leaves the cursor where it was. -/
def Restores (d : Decoder α) : Prop := ∀ c c' fault, d c = .error fault c' → c' = c

theorem Restores.map {d : Decoder α} (h : Restores d) (f : α → β) :
    Restores (do return f (← d)) := by
  intro c c' fault hrun
  rcases bind_eq_error.1 hrun with hd | ⟨a, mid, -, hpure⟩
  · exact h c c' fault hd
  · cases hpure

theorem restores_restoring (d : Decoder α) : Restores d.restoring := by
  intro c c' fault hrun
  unfold Decoder.restoring at hrun
  cases hd : d c with
  | ok a mid =>
    rw [hd] at hrun
    cases hrun
  | error fault' mid =>
    rw [hd] at hrun
    cases hrun
    rfl

theorem restores_take (n : Nat) : Restores (take n) := by
  intro c c' fault hrun
  unfold take at hrun
  split at hrun
  · cases hrun
  · cases hrun
    rfl

theorem restores_skip (n : Nat) : Restores (skip n) := by
  intro c c' fault hrun
  unfold skip at hrun
  split at hrun
  · cases hrun
  · cases hrun
    rfl

theorem restores_seek (pos : Nat) : Restores (seek pos) := by
  intro c c' fault hrun
  unfold seek at hrun
  split at hrun
  · cases hrun
  · cases hrun
    rfl

theorem restores_number (order : Bytes.Order) (width : Nat) : Restores (number order width) :=
  (restores_take width).map _

/-! ### Counted strings -/

/-- Where a counted string that cannot be read leaves the cursor: where it was, if there is no
length; behind the length, if the text is cut off; behind the text, if it is no UTF-8. -/
inductive StringLeft (c : Cursor) : Fault → Cursor → Prop
  | noLength {fault} (h : compressed c = .error fault c) : StringLeft c fault c
  | cutOff {size mid} (h : compressed c = .ok size mid) (hsize : mid.bytes.size < mid.pos + size) :
    StringLeft c .outOfBounds mid
  | notText {size mid} (h : compressed c = .ok size mid) (hsize : mid.pos + size ≤ mid.bytes.size)
    (htext : String.fromUTF8? ⟨mid.bytes.extract mid.pos (mid.pos + size)⟩ = none) :
    StringLeft c (.malformed .serStringEncoding) (mid.forward size)

/-- Once the length has been read, the cursor has moved. -/
theorem StringLeft.pos_lt {c c' mid : Cursor} {size : Nat} {fault : Fault}
    (hc : c.pos ≤ c.bytes.size) (hlength : compressed c = .ok size mid)
    (h : StringLeft c fault c') : c.pos < c'.pos := by
  have hmid := (forward_compressed c mid size hc hlength).2.1
  cases h with
  | noLength hnone =>
    rw [hlength] at hnone
    cases hnone
  | cutOff hlength' hsize =>
    rw [hlength] at hlength'
    cases hlength'
    exact hmid
  | notText hlength' hsize htext =>
    rw [hlength] at hlength'
    cases hlength'
    exact Nat.lt_of_lt_of_le hmid (Nat.le_add_right _ _)

/-- The cursor of a failed string stays inside the bytes. -/
theorem StringLeft.bounds {c c' : Cursor} {fault : Fault} (hc : c.pos ≤ c.bytes.size)
    (h : StringLeft c fault c') :
    c'.bytes = c.bytes ∧ c.pos ≤ c'.pos ∧ c'.pos ≤ c.bytes.size := by
  cases h with
  | noLength hlength => exact ⟨rfl, le_rfl, hc⟩
  | cutOff hlength hsize =>
    obtain ⟨hbytes, hle, hmid⟩ := forward_compressed.weaken c c' _ hc hlength
    exact ⟨hbytes, hle, hbytes ▸ hmid⟩
  | @notText size mid hlength hsize htext =>
    obtain ⟨hbytes, hle, -⟩ := forward_compressed.weaken c mid _ hc hlength
    exact ⟨hbytes, hle.trans (Nat.le_add_right _ _), hbytes ▸ hsize⟩

theorem compressed_of_byte_error {c c' : Cursor} {fault : Fault}
    (h : peekByte c = .error fault c') : compressed c = .error fault c := by
  unfold peekByte at h
  unfold compressed restoring payload byte
  cases hbyte : c.bytes[c.pos]? with
  | some b =>
    rw [hbyte] at h
    cases h
  | none =>
    rw [hbyte] at h
    cases h
    simp [bind, EStateM.bind, hbyte]

theorem lt_of_peekByte {c c' : Cursor} {b : UInt8} (h : peekByte c = .ok b c') :
    c.pos < c.bytes.size := by
  by_contra hend
  unfold peekByte at h
  rw [Array.getElem?_eq_none (Nat.le_of_not_lt hend)] at h
  cases h

theorem stringLeft_of_error {c c' : Cursor} {fault : Fault} (h : serString c = .error fault c') :
    StringLeft c fault c' := by
  rcases bind_eq_error.1 h with hpeek | ⟨lead, mid, hpeek, hrest⟩
  · rw [still_peekByte.2 fault hpeek]
    exact .noLength (compressed_of_byte_error hpeek)
  obtain rfl := still_peekByte.1 lead hpeek
  by_cases hlead : lead = 0xFF
  · -- the byte is there, so stepping over it cannot fail
    rw [if_pos hlead] at hrest
    have hstep : mid.pos + 1 ≤ mid.bytes.size := lt_of_peekByte hpeek
    simp only [skip, if_pos hstep, bind, EStateM.bind] at hrest
    cases hrest
  · rw [if_neg hlead] at hrest
    rcases bind_eq_error.1 hrest with hlength | ⟨size, behind, hlength, hrest⟩
    · obtain rfl := restores_restoring _ _ _ _ hlength
      exact .noLength hlength
    by_cases hsize : behind.pos + size ≤ behind.bytes.size
    · simp only [take, if_pos hsize, bind, EStateM.bind] at hrest
      cases htext : String.fromUTF8? ⟨behind.bytes.extract behind.pos (behind.pos + size)⟩ with
      | some text =>
        rw [htext] at hrest
        cases hrest
      | none =>
        rw [htext] at hrest
        cases hrest
        exact .notText hlength hsize htext
    · simp only [take, if_neg hsize, bind, EStateM.bind] at hrest
      cases hrest
      exact .cutOff hlength (Nat.lt_of_not_le hsize)

end Decoder

/-! ### All operations -/

/-- The operations of a cursor, by what they give. -/
inductive CursorOp : Type → Type
  | seek (pos : Nat) : CursorOp Unit
  | skip (n : Nat) : CursorOp Unit
  | align (alignment : Nat) (pos : 0 < alignment) : CursorOp Unit
  | peekByte : CursorOp UInt8
  | peekNumber (format : Bytes.Scalar) : CursorOp Nat
  | number (order : Bytes.Order) (format : Bytes.Scalar) : CursorOp Nat
  | take (n : Nat) : CursorOp (Array UInt8)
  | compressed : CursorOp Nat
  | compressedSigned : CursorOp Int
  | serString : CursorOp (Option String)

namespace CursorOp

variable {α : Type}

/-- Carry out an operation. -/
def run : CursorOp α → Decoder α
  | seek pos => Decoder.seek pos
  | skip n => Decoder.skip n
  | align alignment _ => Decoder.align alignment
  | peekByte => Decoder.peekByte
  | peekNumber format => Decoder.peekNumber .little format.width
  | number order format => Decoder.number order format.width
  | take n => Decoder.take n
  | compressed => Decoder.compressed
  | compressedSigned => Decoder.compressedSigned
  | serString => Decoder.serString

/-- Whether an operation may go back. -/
def IsSeek : CursorOp α → Prop
  | seek _ => True
  | _ => False

/-- Where an operation that fails may leave the cursor. -/
def LeftBy : CursorOp α → Cursor → Fault → Cursor → Prop
  | serString, c, fault, c' => Decoder.StringLeft c fault c'
  | _, c, _, c' => c' = c

/-- Whether an operation has read the length of a string before anything can fail that comes
behind it. -/
def TakesLength : CursorOp α → Cursor → Prop
  | serString, c => ∃ size mid, Decoder.compressed c = .ok size mid
  | _, _ => False

theorem forward_run (op : CursorOp α) (h : ¬ op.IsSeek) : op.run.Forward 0 := by
  cases op with
  | seek pos => exact absurd trivial h
  | skip n => exact (Decoder.forward_skip n).weaken
  | align alignment _ => exact Decoder.forward_align alignment
  | peekByte => exact Decoder.forward_of_still fun _ _ b => Decoder.still_peekByte.1 b
  | peekNumber format =>
    exact Decoder.forward_of_still fun _ _ n => (Decoder.still_peekNumber .little format.width).1 n
  | number order format => exact Decoder.forward_number order format.width
  | take n => exact Decoder.forward_take n
  | compressed => exact Decoder.forward_compressed.weaken
  | compressedSigned => exact Decoder.forward_compressedSigned.weaken
  | serString => exact Decoder.forward_serString

theorem inside_of_seek {op : CursorOp α} (h : op.IsSeek) {c c' : Cursor} {a : α}
    (hrun : op.run c = .ok a c') : c'.bytes = c.bytes ∧ c'.pos ≤ c.bytes.size := by
  cases op with
  | seek pos =>
    simp only [run, Decoder.seek] at hrun
    split at hrun
    case isTrue hpos =>
      cases hrun
      exact ⟨rfl, hpos⟩
    case isFalse => cases hrun
  | _ => exact h.elim

theorem leftBy_run (op : CursorOp α) {c c' : Cursor} {fault : Fault}
    (h : op.run c = .error fault c') : op.LeftBy c fault c' := by
  cases op with
  | seek pos => exact Decoder.restores_seek pos c c' fault h
  | skip n => exact Decoder.restores_skip n c c' fault h
  | align alignment _ =>
    exact Decoder.restores_skip (Decoder.paddingFor alignment c.pos) c c' fault h
  | peekByte => exact Decoder.still_peekByte.2 fault h
  | peekNumber format => exact (Decoder.still_peekNumber .little format.width).2 fault h
  | number order format => exact Decoder.restores_number order format.width c c' fault h
  | take n => exact Decoder.restores_take n c c' fault h
  | compressed => exact Decoder.restores_restoring _ c c' fault h
  | compressedSigned => exact Decoder.restores_restoring _ c c' fault h
  | serString => exact Decoder.stringLeft_of_error h

theorem LeftBy.bounds {op : CursorOp α} {c c' : Cursor} {fault : Fault}
    (h : op.LeftBy c fault c') (hc : c.pos ≤ c.bytes.size) :
    c'.bytes = c.bytes ∧ c.pos ≤ c'.pos ∧ c'.pos ≤ c.bytes.size := by
  cases op with
  | serString => exact Decoder.StringLeft.bounds hc h
  | _ =>
    obtain rfl := h
    exact ⟨rfl, le_rfl, hc⟩

/-- Only a length that has been read moves the cursor of an operation that fails. -/
theorem LeftBy.stays_iff {op : CursorOp α} {c c' : Cursor} {fault : Fault}
    (h : op.LeftBy c fault c') (hc : c.pos ≤ c.bytes.size) : c' = c ↔ ¬ op.TakesLength c := by
  cases op with
  | serString =>
    constructor
    · rintro rfl ⟨size, mid, hlength⟩
      exact Nat.lt_irrefl _ (Decoder.StringLeft.pos_lt hc hlength h)
    · intro hnone
      cases h with
      | noLength => rfl
      | cutOff hlength => exact absurd ⟨_, _, hlength⟩ hnone
      | notText hlength => exact absurd ⟨_, _, hlength⟩ hnone
  | _ => exact iff_of_true h id

/-- Of a cursor inside its bytes, an operation that succeeds stops inside them, and not before the
place it started from unless it seeks; one that fails leaves the cursor where it was, except that a
counted string leaves it behind what was read of it. -/
theorem run_position (op : CursorOp α) {c : Cursor} (h : c.pos ≤ c.bytes.size) :
    (∀ a c', op.run c = .ok a c' →
      c'.bytes = c.bytes ∧ c'.pos ≤ c.bytes.size ∧ (¬ op.IsSeek → c.pos ≤ c'.pos)) ∧
    (∀ fault c', op.run c = .error fault c' →
      c'.bytes = c.bytes ∧ c.pos ≤ c'.pos ∧ c'.pos ≤ c.bytes.size ∧
        op.LeftBy c fault c' ∧ (c' = c ↔ ¬ op.TakesLength c)) := by
  constructor
  · intro a c' hrun
    by_cases hseek : op.IsSeek
    · obtain ⟨hbytes, hpos⟩ := inside_of_seek hseek hrun
      exact ⟨hbytes, hpos, fun hnot => absurd hseek hnot⟩
    · obtain ⟨hbytes, hle, hpos⟩ := op.forward_run hseek c c' a h hrun
      exact ⟨hbytes, hbytes ▸ hpos, fun _ => hle⟩
  · intro fault c' hrun
    have hleft := op.leftBy_run hrun
    obtain ⟨hbytes, hle, hpos⟩ := hleft.bounds h
    exact ⟨hbytes, hle, hpos, hleft, hleft.stays_iff h⟩

/-- A length of five with one byte behind it: the string is cut off, its length has been read. -/
theorem run_position_cutOff :
    (Cursor.mk #[0x05, 0x41] 0).pos ≤ (Cursor.mk #[0x05, 0x41] 0).bytes.size ∧
      CursorOp.serString.LeftBy ⟨#[0x05, 0x41], 0⟩ .outOfBounds ⟨#[0x05, 0x41], 1⟩ :=
  ⟨by decide, ((run_position .serString (by decide)).2 _ _ (by rfl)).2.2.2.1⟩

/-- A failed string does not leave the cursor where it was. -/
theorem serString_not_restores :
    ∃ c c' fault, c.pos ≤ c.bytes.size ∧ CursorOp.serString.run c = .error fault c' ∧ c' ≠ c :=
  ⟨⟨#[0x05, 0x41], 0⟩, ⟨#[0x05, 0x41], 1⟩, .outOfBounds, by decide, by rfl, by decide⟩

end CursorOp

end CilMetadata

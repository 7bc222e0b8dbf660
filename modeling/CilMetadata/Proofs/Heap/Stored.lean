import CilMetadata.Heap.All
import CilMetadata.Proofs.Bytes.Following
import CilMetadata.Proofs.Bytes.Minimal
import CilMetadata.Proofs.Text.Unicode

/-!
# What the heaps store

An entry is added in a form of its own behind the bytes of its heap, or it is refused and the bytes
stay as they are. It is read back from wherever its form stands.

* `HeapEntry` is what can be added, `HeapEntry.form` its bytes, `HeapEntry.Fits` whether a heap has
  room for it;
* `Adds` is the law of a writer that appends or refuses, `HeapEntry.adds_append` the law of all
  four heaps;
* `HeapEntry.ReadsBack` says that an index leads to an entry, and `HeapEntry.readsBack_of_ahead`
  that it does where the form of the entry stands.
-/

namespace CilMetadata

/-! ### Bytes that stay where they are -/

namespace Cursor

/-- What lies ahead still does when more bytes follow at the end. -/
theorem Ahead.more {bytes : Array UInt8} {pos : Nat} {form : List UInt8}
    (h : Ahead { bytes, pos } form) (more : Array UInt8) :
    Ahead { bytes := bytes ++ more, pos } form := by
  have hpos : pos ≤ bytes.size := h.1
  have hrest : Cursor.rest { bytes := bytes ++ more, pos } =
      Cursor.rest { bytes, pos } ++ more.toList := by
    simp only [rest, Array.toList_append]
    exact List.drop_append_of_le_length (by simpa using hpos)
  refine ⟨?_, hrest ▸ h.2.trans (List.prefix_append _ _)⟩
  rw [Array.size_append]
  exact hpos.trans (Nat.le_add_right _ _)

theorem ahead_appended (bytes : Array UInt8) (form : List UInt8) :
    Ahead { bytes := bytes ++ form.toArray, pos := bytes.size } form := by
  refine ⟨by simp, ?_⟩
  simp [rest]

end Cursor

/-! ### Writers that append or refuse -/

variable {α β : Type}

/-- On the output `out` the writer appends `form` and gives `a`, if it fits; otherwise it fails and
leaves the output as it is. -/
structure Adds (e : Encoder α) (out : Array UInt8) (fits : Prop) (form : List UInt8) (a : α) :
    Prop where
  appends : fits → e out = .ok a (out ++ form.toArray)
  refuses : ¬ fits → ∃ fault, e out = .error fault out

namespace Adds

variable {e : Encoder α} {f : α → Encoder β} {out : Array UInt8} {p q : Prop}
variable {form tail : List UInt8} {a : α} {b : β}

theorem congr (h : Adds e out p form a) (hiff : p ↔ q) : Adds e out q form a :=
  ⟨fun hq => h.appends (hiff.2 hq), fun hq => h.refuses fun hp => hq (hiff.1 hp)⟩

/-- A writer behind a test that refuses. -/
theorem guarded {c : Prop} [Decidable c] {fault : Fault} (h : ¬ c → Adds e out p form a) :
    Adds (if c then throw fault else e) out (¬ c ∧ p) form a := by
  by_cases hc : c
  · rw [if_pos hc]
    exact ⟨fun hp => absurd hc hp.1, fun _ => ⟨fault, rfl⟩⟩
  · rw [if_neg hc]
    exact (h hc).congr (by simp [hc])

/-- A writer behind one that appends nothing. -/
theorem behind (h : Adds e out p [] a) (hrest : p → Adds (f a) out q form b) :
    Adds (e >>= f) out (p ∧ q) form b := by
  have hfirst (hp : p) : e out = .ok a out := by simpa using h.appends hp
  constructor
  · rintro ⟨hp, hq⟩
    rw [bind_of_ok (hfirst hp)]
    exact (hrest hp).appends hq
  · intro hpq
    by_cases hp : p
    · rw [bind_of_ok (hfirst hp)]
      exact (hrest hp).refuses fun hq => hpq ⟨hp, hq⟩
    · obtain ⟨fault, hfault⟩ := h.refuses hp
      exact ⟨fault, bind_of_error hfault⟩

/-- A writer before one that does not fail. -/
theorem andThen (h : Adds e out p form a) (hrest : ∀ out, f a out = .ok b (out ++ tail.toArray)) :
    Adds (e >>= f) out p (form ++ tail) b where
  appends hp := by
    rw [bind_of_ok (h.appends hp), hrest]
    simp
  refuses hp := by
    obtain ⟨fault, hfault⟩ := h.refuses hp
    exact ⟨fault, bind_of_error hfault⟩

end Adds

theorem adds_nextPlace (out : Array UInt8) :
    Adds nextPlace out (out.size < 0x100000000) [] out.size := by
  have hstep : nextPlace out = (if out.size < 0x100000000 then pure out.size
      else throw (.malformed (.heapSize out.size)) : Encoder Nat) out := rfl
  constructor
  · intro hlt
    rw [hstep, if_pos hlt]
    simp [pure, EStateM.pure]
  · intro hlt
    rw [hstep, if_neg hlt]
    exact ⟨_, rfl⟩

theorem adds_compressed (value : Nat) (out : Array UInt8) :
    Adds (Encoder.compressed value) out (value ≤ compressedLimit) (Bytes.compressedForm value) () :=
  ⟨fun h => Encoder.emitsAt_compressed out.size h out rfl,
    fun h => ⟨_, Encoder.compressed_of_lt (Nat.not_le.1 h) out⟩⟩

/-! ### Entries -/

/-- Where an entry can stand: identifiers fill their heap from the start, all other entries stand
behind the empty one. -/
def HeapKind.IsPlace : HeapKind → Nat → Prop
  | .guids, place => place % 16 = 0
  | .strings, place | .userStrings, place | .blobs, place => 0 < place

/-- The index of an entry that stands at a place: identifiers are counted, all other entries go by
their place. -/
def HeapKind.indexAt : HeapKind → Nat → Nat
  | .guids, place => place / 16 + 1
  | .strings, place | .userStrings, place | .blobs, place => place

theorem HeapKind.indexAt_mono {kind : HeapKind} {place later : Nat} (h : place ≤ later) :
    kind.indexAt place ≤ kind.indexAt later := by
  cases kind with
  | guids => exact Nat.succ_le_succ (Nat.div_le_div_right h)
  | strings | userStrings | blobs => exact h

/-- What can be added to the heaps. -/
inductive HeapEntry
  | string (text : String)
  | userString (text : String)
  | blob (bytes : Array UInt8)
  | guid (bytes : Array UInt8) (size_eq : bytes.size = 16)

namespace HeapEntry

/-- The heap of an entry. -/
def heap : HeapEntry → HeapKind
  | string _ => .strings
  | userString _ => .userStrings
  | blob _ => .blobs
  | guid _ _ => .guids

/-- Add an entry to its heap; its index. -/
def add : HeapEntry → HeapStep Nat
  | string text => Heaps.addString text
  | userString text => Heaps.addUserString text
  | blob bytes => Heaps.addBlob bytes
  | guid bytes _ => Heaps.addGuid bytes

/-- Write an entry behind the bytes of its heap. -/
def append : HeapEntry → Encoder Nat
  | string text => StringsHeap.append text
  | userString text => UserStringHeap.append text
  | blob bytes => BlobHeap.append bytes
  | guid bytes _ => GuidHeap.append bytes

theorem add_eq (entry : HeapEntry) : entry.add = Heaps.extend entry.heap entry.append := by
  cases entry <;> rfl

/-- Whether an entry takes place in its heap; the empty string and the empty blob are there from the
start. -/
def isStored : HeapEntry → Bool
  | string text => !text.isEmpty
  | blob bytes => !bytes.isEmpty
  | userString _ | guid _ _ => true

/-- The bytes of an entry that is stored. -/
def form : HeapEntry → List UInt8
  | string text => text.toByteArray.data.toList ++ [0]
  | userString text =>
    Bytes.compressedForm (2 * (Text.units text.toList).length + 1) ++
      UserStringHeap.payload (Text.units text.toList)
  | blob bytes => Bytes.compressedForm bytes.size ++ bytes.toList
  | guid bytes _ => bytes.toList

/-- Whether a heap of `size` bytes takes an entry that is stored. -/
def Fits (size : Nat) : HeapEntry → Prop
  | string text => '\x00' ∉ text.toList ∧ size < 0x100000000
  | userString text => 2 * (Text.units text.toList).length + 1 ≤ compressedLimit ∧ size ≤ 0xFFFFFF
  | blob bytes => bytes.size ≤ compressedLimit ∧ size < 0x100000000
  | guid _ _ => size / 16 + 1 < 0x100000000

theorem append_of_not_stored {entry : HeapEntry} (h : entry.isStored = false)
    (out : Array UInt8) : entry.append out = .ok 0 out := by
  cases entry with
  | string text =>
    have hempty : text.isEmpty = true := by simpa [isStored] using h
    rw [append, StringsHeap.append, if_pos hempty]
    rfl
  | blob bytes =>
    have hempty : bytes.isEmpty = true := by simpa [isStored] using h
    rw [append, BlobHeap.append, if_pos hempty]
    rfl
  | userString _ | guid _ _ => cases h

/-- An entry that is stored is appended if it fits, and refused otherwise. -/
theorem adds_append {entry : HeapEntry} (h : entry.isStored = true) (out : Array UInt8) :
    Adds entry.append out (entry.Fits out.size) entry.form (entry.heap.indexAt out.size) := by
  cases entry with
  | string text =>
    have hempty : ¬ text.isEmpty = true := by simpa [isStored] using h
    rw [append, StringsHeap.append, if_neg hempty]
    refine (Adds.guarded fun hzero => (adds_nextPlace out).andThen ?_).congr ?_
    · intro out
      have hemit := (Encoder.emitsAt_emitArray out.size text.toByteArray.data).bind
        (Encoder.emitsAt_byte _ 0) out rfl
      obtain ⟨_, mid, htext, hzero⟩ := bind_eq_ok.1 hemit
      rw [bind_of_ok htext, bind_of_ok hzero]
      rfl
    · simp [Fits]
  | userString text =>
    refine (Adds.guarded fun hlong => (adds_nextPlace out).behind fun hplace =>
      Adds.guarded fun hrange => (adds_compressed _ out).andThen ?_).congr ?_
    · intro out
      have hemit := Encoder.emitsAt_emit out.size (UserStringHeap.payload (Text.units text.toList))
      exact bind_of_ok (hemit out rfl)
    · simp only [Fits, compressedLimit]
      omega
  | blob bytes =>
    have hempty : ¬ bytes.isEmpty = true := by simpa [isStored] using h
    rw [append, BlobHeap.append, if_neg hempty]
    refine (Adds.guarded fun hlong => (adds_nextPlace out).behind fun hplace =>
      (adds_compressed _ out).andThen ?_).congr ?_
    · intro out
      exact bind_of_ok (Encoder.emitsAt_emitArray out.size bytes out rfl)
    · simp only [Fits, compressedLimit]
      omega
  | guid bytes size_eq =>
    have hstep : append (guid bytes size_eq) out =
        (if out.size / 16 + 1 < 0x100000000 then do
            Encoder.emitArray bytes
            return out.size / 16 + 1
          else throw (.malformed .guidCount) : Encoder Nat) out := rfl
    constructor
    · intro hfits
      change out.size / 16 + 1 < 0x100000000 at hfits
      rw [hstep, if_pos hfits]
      exact bind_of_ok (Encoder.emitsAt_emitArray out.size bytes out rfl)
    · intro hfits
      change ¬ out.size / 16 + 1 < 0x100000000 at hfits
      rw [hstep, if_neg hfits]
      exact ⟨_, rfl⟩

/-- An entry that fits takes at least one byte. -/
theorem length_form_pos {entry : HeapEntry} {size : Nat} (h : entry.Fits size) :
    0 < entry.form.length := by
  cases entry with
  | string text => simp [form]
  | userString text => simp [form, UserStringHeap.payload]
  | blob bytes =>
    obtain ⟨width, hwidth⟩ := Width.ofUnsigned?_isSome h.1
    obtain ⟨head, tail, hform, -⟩ := Width.exists_head (Width.lt_of_ofUnsigned? hwidth)
    simp [form, Bytes.compressedForm, hwidth, hform]
  | guid bytes size_eq => simp [form, size_eq]

/-- An entry can stand behind one that is stored. -/
theorem isPlace_behind {entry : HeapEntry} {size : Nat} (h : entry.heap.IsPlace size) :
    entry.heap.IsPlace (size + entry.form.length) := by
  cases entry with
  | string _ | userString _ | blob _ => exact Nat.lt_add_right _ h
  | guid bytes size_eq =>
    change (size + bytes.toList.length) % 16 = 0
    rw [Array.length_toList, size_eq]
    exact (Nat.add_mod_right size 16).trans h

/-- What stands behind an entry has a greater index. -/
theorem indexAt_lt_behind {entry : HeapEntry} {size : Nat} (h : entry.Fits size) :
    entry.heap.indexAt size < entry.heap.indexAt (size + entry.form.length) := by
  have hpos := length_form_pos h
  cases entry with
  | string _ | userString _ | blob _ => exact Nat.lt_add_of_pos_right hpos
  | guid bytes size_eq =>
    change size / 16 + 1 < (size + bytes.toList.length) / 16 + 1
    rw [Array.length_toList, size_eq]
    omega

/-- What adding an entry can do: nothing, for an entry that is not stored; append its form; or
fail. -/
theorem add_cases (entry : HeapEntry) (heaps : Heaps) :
    let bytes := heaps.bytes entry.heap
    entry.isStored = false ∧ entry.add heaps = .ok 0 heaps ∨
      entry.isStored = true ∧ entry.Fits bytes.size ∧
        entry.add heaps = .ok (entry.heap.indexAt bytes.size)
          (heaps.withBytes entry.heap (bytes ++ entry.form.toArray)) ∨
      entry.isStored = true ∧ ¬ entry.Fits bytes.size ∧
        ∃ fault, entry.add heaps = .error fault heaps := by
  intro bytes
  rw [add_eq]
  cases hstored : entry.isStored with
  | false =>
    refine .inl ⟨rfl, ?_⟩
    rw [Heaps.extend, append_of_not_stored hstored]
    exact congrArg _ (heaps.withBytes_bytes entry.heap)
  | true =>
    have hadds := adds_append hstored bytes
    by_cases hfits : entry.Fits bytes.size
    · refine .inr (.inl ⟨rfl, hfits, ?_⟩)
      rw [Heaps.extend, hadds.appends hfits]
    · obtain ⟨fault, hfault⟩ := hadds.refuses hfits
      refine .inr (.inr ⟨rfl, hfits, fault, ?_⟩)
      rw [Heaps.extend, hfault]
      exact congrArg _ (heaps.withBytes_bytes entry.heap)

end HeapEntry

/-! ### Entries that are read where they stand -/

/-- The search for a zero byte stops behind bytes that are not zero. -/
theorem StringsHeap.zeroFrom?_of_ahead {bytes : Array UInt8} {pos : Nat} {body : List UInt8}
    (hzero : 0 ∉ body) (h : Cursor.Ahead { bytes, pos } (body ++ [0])) :
    zeroFrom? bytes pos = some (pos + body.length) := by
  induction body generalizing pos with
  | nil =>
    obtain ⟨hlt, hbyte⟩ := Array.getElem?_eq_some_iff.1 h.cons.1
    rw [zeroFrom?, dif_pos hlt, if_pos hbyte]
    rfl
  | cons byte body ih =>
    obtain ⟨hhead, hahead⟩ := h.cons
    obtain ⟨hlt, hbyte⟩ := Array.getElem?_eq_some_iff.1 hhead
    have hne : bytes[pos] ≠ 0 := fun heq => hzero (by
      rw [← heq, hbyte]
      exact List.mem_cons_self)
    rw [zeroFrom?, dif_pos hlt, if_neg hne,
      ih (fun hmem => hzero (List.mem_cons_of_mem _ hmem)) hahead, List.length_cons,
      Nat.add_right_comm, Nat.add_assoc]

theorem StringsHeap.get_of_ahead {heap : StringsHeap} {place : Nat} {text : String}
    (htext : '\x00' ∉ text.toList)
    (h : Cursor.Ahead { bytes := heap.bytes, pos := place } (HeapEntry.string text).form) :
    heap.get place = .ok text := by
  set body := text.toByteArray.data.toList with hbody
  have hfits : place + (body ++ [0]).length ≤ heap.bytes.size := h.fits
  have hlt : ¬ heap.bytes.size ≤ place := by
    rw [List.length_append, List.length_singleton] at hfits
    omega
  have hstop := zeroFrom?_of_ahead (Text.zero_notMem_toByteArray htext) h
  have hextract : heap.bytes.extract place (place + body.length) = body.toArray :=
    (Cursor.ahead_append.1 h).1.extract
  rw [get, if_neg hlt, hstop]
  simp only [← hbody, hextract]
  rw [hbody, Array.toArray_toList, Text.fromUTF8?_toByteArray]

/-- Bytes behind their compressed length. -/
theorem Decoder.readsAt_counted (n : Nat) {bytes : List UInt8}
    (h : bytes.length ≤ compressedLimit) :
    ReadsAt n (do take (← compressed)) (Bytes.compressedForm bytes.length ++ bytes)
      bytes.toArray :=
  (readsAt_compressed n h).bind (readsAt_take _ bytes)

namespace UserStringHeap

theorem length_payload (units : List UInt16) : (payload units).length = 2 * units.length + 1 := by
  simp [payload, Nat.mul_comm]

/-- A single byte behind units is left out. -/
theorem unitsOfBytes_append (units : List UInt16) (flag : UInt8) :
    unitsOfBytes (units.flatMap (fun unit => Bytes.toLE 2 unit.toNat) ++ [flag]) = units := by
  induction units with
  | nil => rfl
  | cons unit units ih =>
    have hunit : Bytes.ofLE (Bytes.toLE 2 unit.toNat) = unit.toNat :=
      (Bytes.ofLE_toLE 2 unit.toNat).trans (Nat.mod_eq_of_lt unit.toNat_lt)
    have hcons (rest : List UInt8) : unitsOfBytes (Bytes.toLE 2 unit.toNat ++ rest) =
        UInt16.ofNat (Bytes.ofLE (Bytes.toLE 2 unit.toNat)) :: unitsOfBytes rest := rfl
    rw [List.flatMap_cons, List.append_assoc, hcons, hunit, UInt16.ofNat_toNat, ih]

theorem unitsOfBytes_payload (units : List UInt16) : unitsOfBytes (payload units) = units :=
  unitsOfBytes_append units _

theorem get_of_ahead {heap : UserStringHeap} {place : Nat} {text : String}
    (htext : 2 * (Text.units text.toList).length + 1 ≤ compressedLimit)
    (h : Cursor.Ahead { bytes := heap.bytes, pos := place } (HeapEntry.userString text).form) :
    heap.get place = .ok text := by
  set units := Text.units text.toList with hunits
  have hlt : ¬ heap.bytes.size ≤ place := by
    have hfits : place + (Bytes.compressedForm _ ++ payload units).length ≤ heap.bytes.size :=
      h.fits
    rw [List.length_append, length_payload] at hfits
    omega
  have hform : (HeapEntry.userString text).form =
      Bytes.compressedForm (payload units).length ++ payload units := by
    rw [length_payload]
    rfl
  have hread : entry { bytes := heap.bytes, pos := place } = .ok (payload units).toArray _ :=
    Decoder.readsAt_counted place ((length_payload units).trans_le htext) _ rfl (hform ▸ h)
  rw [get, if_neg hlt, hread]
  simp only [unitsOfBytes_payload]
  rw [hunits, Text.ofUnits?_units]
  simp

end UserStringHeap

namespace BlobHeap

variable {heap : BlobHeap} {place : Nat} {blob : Array UInt8}

/-- A step goes forward from within the heap. -/
theorem forward_of_next? {behind : Nat} (h : heap.next? place = some (blob, behind)) :
    place < behind ∧ place < heap.bytes.size := by
  unfold next? at h
  split_ifs at h
  split at h
  case h_2 => cases h
  case h_1 blob' length mid hget hlength =>
    cases h
    obtain ⟨bytes, -, rfl, width, -, rfl⟩ := Decoder.takesAt_compressed place _ _ _ rfl hlength
    have hpos : 0 < width.size := by cases width <;> decide
    have hlt : place < heap.bytes.size := by
      by_contra hout
      rw [get?, if_pos (.inr (Nat.not_lt.1 hout))] at hget
      cases hget
    refine ⟨?_, hlt⟩
    rw [Cursor.pos_forward, Width.length_write]
    change place < place + width.size + blob.size
    omega

/-- So the way through a heap ends only where a step fails. -/
theorem entriesFrom_eq (heap : BlobHeap) (place : Nat) :
    heap.entriesFrom place =
      match heap.next? place with
      | some (blob, behind) => (place, blob) :: heap.entriesFrom behind
      | none => [] := by
  rw [entriesFrom]
  cases hnext : heap.next? place with
  | none => rfl
  | some step =>
    obtain ⟨blob, behind⟩ := step
    simp only [if_pos (forward_of_next? hnext)]

/-- No step goes on from the end of a heap. -/
theorem next?_end (heap : BlobHeap) : heap.next? heap.bytes.size = none := by
  have hget : heap.get? heap.bytes.size = none := if_pos (.inr le_rfl)
  rw [next?, hget]
  split_ifs <;> rfl

theorem entriesFrom_end (heap : BlobHeap) : heap.entriesFrom heap.bytes.size = [] := by
  rw [entriesFrom_eq, next?_end]

theorem get?_of_ahead (hblob : blob.size ≤ compressedLimit) (hplace : 0 < place)
    (h : Cursor.Ahead { bytes := heap.bytes, pos := place } (HeapEntry.blob blob).form) :
    heap.get? place = some blob := by
  have hfits : (HeapEntry.blob blob).Fits 0 := ⟨hblob, by decide⟩
  have hlt : place < heap.bytes.size :=
    (Nat.lt_add_of_pos_right (HeapEntry.length_form_pos hfits)).trans_le h.fits
  have hread : entry { bytes := heap.bytes, pos := place } = .ok blob.toList.toArray _ :=
    Decoder.readsAt_counted place hblob _ rfl h
  rw [get?, if_neg (by omega), hread]

/-- One step through a heap goes behind the form of a blob. -/
theorem next?_of_ahead (hblob : blob.size ≤ compressedLimit) (hplace : 0 < place)
    (hrange : place < 0x100000000)
    (h : Cursor.Ahead { bytes := heap.bytes, pos := place } (HeapEntry.blob blob).form) :
    heap.next? place = some (blob, place + (HeapEntry.blob blob).form.length) := by
  have hlength := Decoder.readsAt_compressed place hblob _ rfl (Cursor.ahead_append.1 h).1
  rw [next?, if_pos hrange, get?_of_ahead hblob hplace h, hlength]
  simp [HeapEntry.form, Nat.add_assoc]

/-- The blob that stands at a place comes first on the way from there. -/
theorem entriesFrom_of_ahead (hfits : (HeapEntry.blob blob).Fits place) (hplace : 0 < place)
    (h : Cursor.Ahead { bytes := heap.bytes, pos := place } (HeapEntry.blob blob).form) :
    heap.entriesFrom place =
      (place, blob) :: heap.entriesFrom (place + (HeapEntry.blob blob).form.length) := by
  rw [entriesFrom_eq, next?_of_ahead hfits.1 hplace hfits.2 h]

end BlobHeap

theorem GuidHeap.get_of_ahead {heap : GuidHeap} {place : Nat} {guid : Array UInt8}
    (hguid : guid.size = 16) (hplace : place % 16 = 0)
    (h : Cursor.Ahead { bytes := heap.bytes, pos := place } (HeapEntry.guid guid hguid).form) :
    heap.get (place / 16 + 1) = .ok guid := by
  have hfits : place + guid.toList.length ≤ heap.bytes.size := h.fits
  have hextract : heap.bytes.extract place (place + guid.toList.length) = guid.toList.toArray :=
    h.extract
  rw [Array.length_toList, hguid] at hfits hextract
  have hstart : 16 * (place / 16 + 1 - 1) = place := by omega
  have hstop : 16 * (place / 16 + 1) = place + 16 := by omega
  rw [get, hstart, hstop, if_neg (by omega), hextract, Array.toArray_toList]

namespace HeapEntry

/-- The index leads to the entry. No index leads to the empty blob. -/
def ReadsBack (heaps : Heaps) (index : Nat) : HeapEntry → Prop
  | string text => heaps.strings.get index = .ok text
  | userString text => heaps.userStrings.get index = .ok text
  | blob bytes => bytes.isEmpty = false → heaps.blobs.get? index = some bytes
  | guid bytes _ => heaps.guids.get index = .ok bytes

/-- An entry is read back where its form stands. -/
theorem readsBack_of_ahead {entry : HeapEntry} {heaps : Heaps} {place : Nat}
    (hfits : entry.Fits place) (hplace : entry.heap.IsPlace place)
    (h : Cursor.Ahead { bytes := heaps.bytes entry.heap, pos := place } entry.form) :
    entry.ReadsBack heaps (entry.heap.indexAt place) := by
  cases entry with
  | string text => exact StringsHeap.get_of_ahead hfits.1 h
  | userString text => exact UserStringHeap.get_of_ahead hfits.1 h
  | blob bytes => exact fun _ => BlobHeap.get?_of_ahead hfits.1 hplace h
  | guid bytes size_eq => exact GuidHeap.get_of_ahead size_eq hplace h

end HeapEntry

end CilMetadata

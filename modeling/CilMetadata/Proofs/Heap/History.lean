import CilMetadata.Proofs.Heap.Stored

/-!
# Entries survive what is added later

The bytes of a heap are never changed, only continued; so an entry stays where it stands, and its
index goes on leading to it whatever is added afterwards.

* `Heaps.after` is the state behind a history of attempts to add entries, some of which may fail,
  and `Heaps.placed` lists the entries that took place with their indices;
* `Heaps.Continues` is what one attempt, and so a history, does to the bytes (`continues_after`);
  `Heaps.IsBuilt` is the invariant of heaps that are built by adding entries;
* `Heaps.keeps_entries` says what every history keeps.
-/

namespace CilMetadata

/-- The heaps behind an attempt to add an entry. -/
def HeapEntry.after (entry : HeapEntry) (heaps : Heaps) : Heaps :=
  match entry.add heaps with
  | .ok _ next => next
  | .error _ next => next

/-- An entry that is a blob, and its place. -/
def HeapEntry.blob? : HeapEntry × Nat → Option (Nat × Array UInt8)
  | (.blob bytes, place) => some (place, bytes)
  | _ => none

namespace Heaps

variable {heaps next : Heaps}

/-- The heaps behind attempts to add entries, first one first. -/
def after (heaps : Heaps) (entries : List HeapEntry) : Heaps :=
  entries.foldl (fun heaps entry => entry.after heaps) heaps

/-- The entries that take place in the heaps, with their indices, first one first. -/
def placed (heaps : Heaps) : List HeapEntry → List (HeapEntry × Nat)
  | [] => []
  | entry :: rest =>
    match entry.add heaps with
    | .ok index next =>
      if entry.isStored then (entry, index) :: next.placed rest else next.placed rest
    | .error _ next => next.placed rest

theorem after_cons (heaps : Heaps) (entry : HeapEntry) (rest : List HeapEntry) :
    heaps.after (entry :: rest) = (entry.after heaps).after rest := rfl

/-- What one attempt does: it leaves the heaps as they are, or it puts the entry behind the bytes of
its heap. -/
theorem attempt_cases (heaps : Heaps) (entry : HeapEntry) :
    let bytes := heaps.bytes entry.heap
    entry.after heaps = heaps ∧ (∀ rest, heaps.placed (entry :: rest) = heaps.placed rest) ∨
      entry.Fits bytes.size ∧
        entry.after heaps = heaps.withBytes entry.heap (bytes ++ entry.form.toArray) ∧
        ∀ rest, heaps.placed (entry :: rest) =
          (entry, entry.heap.indexAt bytes.size) :: (entry.after heaps).placed rest := by
  intro bytes
  obtain ⟨hstored, hadd⟩ | ⟨hstored, hfits, hadd⟩ | ⟨-, -, fault, hadd⟩ := entry.add_cases heaps
  · exact .inl ⟨by rw [HeapEntry.after, hadd], fun rest => by simp [placed, hadd, hstored]⟩
  · refine .inr ⟨hfits, by rw [HeapEntry.after, hadd], fun rest => ?_⟩
    rw [HeapEntry.after, hadd]
    simp [placed, hadd, hstored, bytes]
  · exact .inl ⟨by rw [HeapEntry.after, hadd], fun rest => by simp [placed, hadd]⟩

/-! ### Bytes are only continued -/

/-- The bytes of every heap go on with more of them. -/
def Continues (heaps next : Heaps) : Prop :=
  ∀ kind, ∃ more, next.bytes kind = heaps.bytes kind ++ more

theorem continues_refl (heaps : Heaps) : heaps.Continues heaps :=
  fun _ => ⟨#[], by simp⟩

theorem Continues.trans {last : Heaps} (h : heaps.Continues next) (h' : next.Continues last) :
    heaps.Continues last := by
  intro kind
  obtain ⟨more, hmore⟩ := h kind
  obtain ⟨more', hmore'⟩ := h' kind
  exact ⟨more ++ more', by rw [hmore', hmore, Array.append_assoc]⟩

theorem Continues.size_le (h : heaps.Continues next) (kind : HeapKind) :
    (heaps.bytes kind).size ≤ (next.bytes kind).size := by
  obtain ⟨more, hmore⟩ := h kind
  rw [hmore, Array.size_append]
  exact Nat.le_add_right _ _

/-- What lies ahead of a place still does. -/
theorem Continues.ahead (h : heaps.Continues next) {kind : HeapKind} {pos : Nat}
    {form : List UInt8} (hahead : Cursor.Ahead { bytes := heaps.bytes kind, pos } form) :
    Cursor.Ahead { bytes := next.bytes kind, pos } form := by
  obtain ⟨more, hmore⟩ := h kind
  rw [hmore]
  exact hahead.more more

theorem continues_withBytes (heaps : Heaps) (kind : HeapKind) (more : Array UInt8) :
    heaps.Continues (heaps.withBytes kind (heaps.bytes kind ++ more)) := by
  intro other
  by_cases hkind : other = kind
  · subst hkind
    exact ⟨more, bytes_withBytes_self _ _ _⟩
  · exact ⟨#[], by rw [bytes_withBytes_of_ne _ _ hkind, Array.append_empty]⟩

theorem continues_attempt (heaps : Heaps) (entry : HeapEntry) :
    heaps.Continues (entry.after heaps) := by
  obtain ⟨hafter, -⟩ | ⟨-, hafter, -⟩ := heaps.attempt_cases entry
  · rw [hafter]
    exact continues_refl heaps
  · rw [hafter]
    exact continues_withBytes _ _ _

theorem continues_after (heaps : Heaps) (entries : List HeapEntry) :
    heaps.Continues (heaps.after entries) := by
  induction entries generalizing heaps with
  | nil => exact continues_refl heaps
  | cons entry rest ih => exact (heaps.continues_attempt entry).trans (ih _)

/-! ### Heaps that are built by adding entries -/

theorem size_withBytes_append (heaps : Heaps) (kind : HeapKind) (form : List UInt8) :
    ((heaps.withBytes kind (heaps.bytes kind ++ form.toArray)).bytes kind).size =
      (heaps.bytes kind).size + form.length := by
  simp

theorem ahead_withBytes (heaps : Heaps) (kind : HeapKind) (form : List UInt8) :
    Cursor.Ahead { bytes := (heaps.withBytes kind (heaps.bytes kind ++ form.toArray)).bytes kind,
                   pos := (heaps.bytes kind).size } form := by
  rw [bytes_withBytes_self]
  exact Cursor.ahead_appended _ _

/-- The strings heap starts with the empty text, and an entry can stand at the end of each heap. -/
structure IsBuilt (heaps : Heaps) : Prop where
  starts : Cursor.Ahead { bytes := heaps.bytes .strings } [0]
  isPlace : ∀ kind : HeapKind, kind.IsPlace (heaps.bytes kind).size

theorem isBuilt_empty : IsBuilt {} where
  starts := ⟨by decide, by decide⟩
  isPlace kind := by
    cases kind with
    | guids => exact Nat.zero_mod 16
    | strings | userStrings | blobs => exact Nat.one_pos

theorem IsBuilt.attempt (h : heaps.IsBuilt) (entry : HeapEntry) : (entry.after heaps).IsBuilt := by
  refine ⟨(heaps.continues_attempt entry).ahead h.starts, fun kind => ?_⟩
  obtain ⟨hafter, -⟩ | ⟨-, hafter, -⟩ := heaps.attempt_cases entry
  · rw [hafter]
    exact h.isPlace kind
  · rw [hafter]
    by_cases hkind : kind = entry.heap
    · subst hkind
      rw [size_withBytes_append]
      exact HeapEntry.isPlace_behind (h.isPlace _)
    · rw [bytes_withBytes_of_ne _ _ hkind]
      exact h.isPlace kind

theorem IsBuilt.after (h : heaps.IsBuilt) (entries : List HeapEntry) :
    (heaps.after entries).IsBuilt := by
  induction entries generalizing heaps with
  | nil => exact h
  | cons entry rest ih => exact ih (h.attempt entry)

/-! ### Indices -/

/-- An attempt succeeds if the entry is not stored, or if it fits. -/
theorem add_succeeds_iff {entry : HeapEntry} :
    (∃ index next, entry.add heaps = .ok index next) ↔
      (entry.isStored = true → entry.Fits (heaps.bytes entry.heap).size) := by
  obtain ⟨hstored, hadd⟩ | ⟨-, hfits, hadd⟩ | ⟨hstored, hfits, fault, hadd⟩ :=
    entry.add_cases heaps
  · simp [hadd, hstored]
  · simp [hadd, hfits]
  · simp [hadd, hstored, hfits]

/-- An attempt that fails leaves the heaps as they are. -/
theorem add_fails {entry : HeapEntry} {fault : Fault} (h : entry.add heaps = .error fault next) :
    next = heaps := by
  obtain ⟨-, hadd⟩ | ⟨-, -, hadd⟩ | ⟨-, -, fault', hadd⟩ := entry.add_cases heaps <;>
    rw [hadd] at h <;> cases h
  rfl

/-- The index of an entry leads to it as long as the bytes are only continued. -/
theorem IsBuilt.readsBack (hbuilt : heaps.IsBuilt) {entry : HeapEntry} {index : Nat}
    (h : entry.add heaps = .ok index next) {last : Heaps} (hlast : next.Continues last) :
    entry.ReadsBack last index := by
  obtain ⟨hstored, hadd⟩ | ⟨-, hfits, hadd⟩ | ⟨-, -, fault, hadd⟩ := entry.add_cases heaps <;>
    rw [hadd] at h <;> cases h
  · -- What is not stored is the empty entry that the heap starts with.
    cases entry with
    | string text =>
      have hempty : text = "" := by simpa [HeapEntry.isStored] using hstored
      subst hempty
      exact StringsHeap.get_of_ahead (by decide) (hlast.ahead hbuilt.starts)
    | blob bytes =>
      intro hbytes
      simp [HeapEntry.isStored, hbytes] at hstored
    | userString _ | guid _ _ => cases hstored
  · refine HeapEntry.readsBack_of_ahead hfits (hbuilt.isPlace _) ?_
    exact hlast.ahead (ahead_withBytes heaps _ _)

/-- No entry is placed before the end of its heap. -/
theorem indexAt_le_of_mem_placed {entries : List HeapEntry} {placing : HeapEntry × Nat}
    (h : placing ∈ heaps.placed entries) :
    placing.1.heap.indexAt (heaps.bytes placing.1.heap).size ≤ placing.2 := by
  induction entries generalizing heaps with
  | nil => cases h
  | cons entry rest ih =>
    obtain ⟨-, hplaced⟩ | ⟨-, -, hplaced⟩ := heaps.attempt_cases entry <;> rw [hplaced] at h
    · exact ih h
    · cases h with
      | head => exact le_rfl
      | tail _ hmem =>
        have hsize := (heaps.continues_attempt entry).size_le placing.1.heap
        exact (HeapKind.indexAt_mono hsize).trans (ih hmem)

/-- Of two entries in one heap, the one that is placed later has the greater index. -/
theorem placed_pairwise (heaps : Heaps) (entries : List HeapEntry) :
    (heaps.placed entries).Pairwise fun first second =>
      first.1.heap = second.1.heap → first.2 < second.2 := by
  induction entries generalizing heaps with
  | nil => exact .nil
  | cons entry rest ih =>
    obtain ⟨-, hplaced⟩ | ⟨hfits, hafter, hplaced⟩ := heaps.attempt_cases entry <;> rw [hplaced]
    · exact ih heaps
    · refine List.pairwise_cons.2 ⟨fun placing hmem hheap => ?_, ih _⟩
      change entry.heap = placing.1.heap at hheap
      have hle := indexAt_le_of_mem_placed hmem
      rw [hafter, ← hheap, size_withBytes_append] at hle
      exact (HeapEntry.indexAt_lt_behind hfits).trans_le hle

/-! ### Blobs one after the other -/

/-- From where the blobs ended before a history, the blobs that it placed follow in order. -/
theorem IsBuilt.entriesFrom (h : heaps.IsBuilt) (entries : List HeapEntry) :
    (heaps.after entries).blobs.entriesFrom (heaps.bytes .blobs).size =
      (heaps.placed entries).filterMap HeapEntry.blob? := by
  induction entries generalizing heaps with
  | nil => exact BlobHeap.entriesFrom_end heaps.blobs
  | cons entry rest ih =>
    have hrest := ih (h.attempt entry)
    have hlast := (entry.after heaps).continues_after rest
    rw [after_cons]
    generalize (entry.after heaps).after rest = last at hrest hlast ⊢
    obtain ⟨hafter, hplaced⟩ | ⟨hfits, hafter, hplaced⟩ := heaps.attempt_cases entry <;>
      rw [hplaced]
    · rwa [hafter] at hrest
    · cases entry with
      | blob bytes =>
        set form := (HeapEntry.blob bytes).form
        have hahead : Cursor.Ahead
            { bytes := last.bytes .blobs, pos := (heaps.bytes .blobs).size } form :=
          hlast.ahead (hafter ▸ ahead_withBytes heaps _ _)
        have hsize : (((HeapEntry.blob bytes).after heaps).bytes .blobs).size =
            (heaps.bytes .blobs).size + form.length := hafter ▸ size_withBytes_append heaps _ _
        calc last.blobs.entriesFrom (heaps.bytes .blobs).size
            = ((heaps.bytes .blobs).size, bytes) ::
                last.blobs.entriesFrom ((heaps.bytes .blobs).size + form.length) :=
              BlobHeap.entriesFrom_of_ahead hfits (h.isPlace .blobs) hahead
          _ = _ := by rw [← hsize, hrest]; rfl
      | string _ | userString _ | guid _ _ =>
        have hblobs := congrArg (fun heaps : Heaps => (heaps.bytes .blobs).size) hafter
        rw [List.filterMap_cons_none rfl]
        exact hblobs ▸ hrest

/-! ### What every history keeps -/

/-- Whatever is tried on new heaps: an attempt succeeds if the entry is not stored or fits; then its
index leads to the entry after every later history; a failure changes nothing; the indices of the
entries of one heap increase; and the way through the blobs meets those that were placed, in order,
and then ends. -/
theorem keeps_entries (history : List HeapEntry) :
    let heaps := after {} history
    (∀ entry : HeapEntry, (∃ index next, entry.add heaps = .ok index next) ↔
      (entry.isStored = true → entry.Fits (heaps.bytes entry.heap).size)) ∧
    (∀ (entry : HeapEntry) index next, entry.add heaps = .ok index next →
      ∀ later, entry.ReadsBack (next.after later) index) ∧
    (∀ (entry : HeapEntry) fault next, entry.add heaps = .error fault next → next = heaps) ∧
    ((placed {} history).Pairwise fun first second =>
      first.1.heap = second.1.heap → first.2 < second.2) ∧
    heaps.blobs.entries = (placed {} history).filterMap HeapEntry.blob? ∧
    heaps.blobs.next? heaps.blobs.bytes.size = none := by
  intro heaps
  refine ⟨fun entry => add_succeeds_iff, fun entry index next hadd later => ?_,
    fun entry fault next => add_fails, placed_pairwise {} history, isBuilt_empty.entriesFrom history,
    BlobHeap.next?_end _⟩
  exact (isBuilt_empty.after history).readsBack hadd (next.continues_after later)

/-- A pair of surrogates is read back, behind a text that is refused. -/
theorem keeps_entries_surrogates :
    let heaps := after {} [.userString "a", .string "\x00", .blob #[1, 2]]
    ∃ next, (HeapEntry.userString "😀").add heaps = .ok 5 next ∧
      ∀ later, (HeapEntry.userString "😀").ReadsBack (next.after later) 5 := by
  intro heaps
  have hadd : ∃ next, (HeapEntry.userString "😀").add heaps = .ok 5 next := ⟨_, rfl⟩
  obtain ⟨next, hnext⟩ := hadd
  exact ⟨next, hnext, (keeps_entries _).2.1 _ _ _ hnext⟩

end Heaps

end CilMetadata

import CilMetadata.Proofs.Bytes.Stream

/-!
# What follows does not matter

A reader that has succeeded has seen all that it looks at, and more bytes at the end change nothing.
`Decoder.Extends x d d'` says so of two readers that may look at the end of the bytes in different
ways: whatever `d` gives, `d'` gives with the bytes `x` behind all others. It goes through sequences
(`Extends.bind`); the other lemmas are the relation for the primitive readers.
-/

namespace CilMetadata

/-- A cursor with more bytes at the end. -/
def Cursor.extend (c : Cursor) (x : Array UInt8) : Cursor := { c with bytes := c.bytes ++ x }

@[simp] theorem Cursor.pos_extend (c : Cursor) (x : Array UInt8) : (c.extend x).pos = c.pos := rfl

@[simp] theorem Cursor.size_extend (c : Cursor) (x : Array UInt8) :
    (c.extend x).bytes.size = c.bytes.size + x.size := Array.size_append

namespace Decoder

variable {α β : Type} {x : Array UInt8}

/-- Whatever the first reader gives, the second one gives with `x` behind all other bytes. -/
def Extends (x : Array UInt8) (d d' : Decoder α) : Prop :=
  ∀ c c' a, d c = .ok a c' → d' (c.extend x) = .ok a (c'.extend x)

theorem extends_pure (a : α) : Extends x (pure a) (pure a) := by
  intro c c' b hrun
  cases hrun
  rfl

theorem extends_throw (fault : Fault) (d : Decoder α) : Extends x (throw fault) d := by
  intro c c' a hrun
  cases hrun

theorem Extends.bind {d d' : Decoder α} {f f' : α → Decoder β} (h : Extends x d d')
    (hrest : ∀ a, Extends x (f a) (f' a)) : Extends x (d >>= f) (d' >>= f') := by
  intro c c' b hrun
  obtain ⟨a, mid, hd, hf⟩ := bind_eq_ok.1 hrun
  exact bind_eq_ok.2 ⟨a, _, h c mid a hd, hrest a mid c' b hf⟩

/-- Readers whose values are changed afterwards. -/
theorem Extends.map {d d' : Decoder α} (h : Extends x d d') (f : α → β) :
    Extends x (do return f (← d)) (do return f (← d')) :=
  h.bind fun a => extends_pure (f a)

/-- The same test on both sides. -/
theorem extends_ite {p : Prop} [Decidable p] {d d' e e' : Decoder α} (h : Extends x d d')
    (h' : Extends x e e') : Extends x (if p then d else e) (if p then d' else e') := by
  by_cases hp : p
  · rwa [if_pos hp, if_pos hp]
  · rwa [if_neg hp, if_neg hp]

/-- Readers behind a test that refuses no more with the bytes `x` than without them. -/
theorem extends_unless {p q : Prop} [Decidable p] [Decidable q] {fault fault' : Fault}
    {d d' : Decoder α} (himp : q → p) (h : Extends x d d') :
    Extends x (if p then throw fault else d) (if q then throw fault' else d') := by
  by_cases hp : p
  · rw [if_pos hp]
    exact extends_throw fault _
  · rw [if_neg hp, if_neg (mt himp hp)]
    exact h

/-- Looking at the cursor. -/
theorem Extends.get {f f' : Cursor → Decoder α} (h : ∀ c, Extends x (f c) (f' (c.extend x))) :
    Extends x (do f (← get)) (do f' (← get)) :=
  fun c c' a hrun => h c c c' a hrun

/-- Moving the cursor. -/
theorem extends_modify {f : Cursor → Cursor} (h : ∀ c, f (c.extend x) = (f c).extend x) :
    Extends x (modify f) (modify f) := by
  intro c c' a hrun
  cases hrun
  change EStateM.Result.ok () (f (c.extend x)) = _
  rw [h c]

theorem extends_position : Extends x position position := by
  intro c c' n hrun
  cases hrun
  rfl

theorem extends_peekByte : Extends x peekByte peekByte := by
  intro c c' b hrun
  unfold peekByte at hrun ⊢
  cases hnext : c.bytes[c.pos]? with
  | none =>
    rw [hnext] at hrun
    cases hrun
  | some next =>
    rw [hnext] at hrun
    cases hrun
    obtain ⟨hlt, -⟩ := Array.getElem?_eq_some_iff.1 hnext
    simp [Cursor.extend, Array.getElem?_append_left hlt, hnext]

theorem extends_byte : Extends x byte byte := by
  intro c c' b hrun
  unfold byte at hrun ⊢
  cases hnext : c.bytes[c.pos]? with
  | none =>
    rw [hnext] at hrun
    cases hrun
  | some next =>
    rw [hnext] at hrun
    cases hrun
    obtain ⟨hlt, -⟩ := Array.getElem?_eq_some_iff.1 hnext
    simp [Cursor.extend, Cursor.forward, Array.getElem?_append_left hlt, hnext]

theorem extends_take (n : Nat) : Extends x (take n) (take n) := by
  intro c c' array hrun
  unfold take at hrun ⊢
  by_cases hfits : c.pos + n ≤ c.bytes.size
  · rw [if_pos hfits] at hrun
    cases hrun
    rw [if_pos (by rw [Cursor.size_extend, Cursor.pos_extend]; omega)]
    have hpast : x.extract (c.pos - c.bytes.size) (c.pos + n - c.bytes.size) = #[] := by
      rw [Nat.sub_eq_zero_of_le hfits]
      simp
    simp only [Cursor.extend, Array.extract_append, hpast, Array.append_empty]
    rfl
  · rw [if_neg hfits] at hrun
    cases hrun

theorem extends_skip (n : Nat) : Extends x (skip n) (skip n) := by
  intro c c' u hrun
  unfold skip at hrun ⊢
  by_cases hfits : c.pos + n ≤ c.bytes.size
  · rw [if_pos hfits] at hrun
    cases hrun
    rw [if_pos (by rw [Cursor.size_extend, Cursor.pos_extend]; omega)]
    rfl
  · rw [if_neg hfits] at hrun
    cases hrun

theorem extends_number (order : Bytes.Order) (width : Nat) :
    Extends x (number order width) (number order width) :=
  (extends_take width).map _

theorem extends_u16 : Extends x u16 u16 := (extends_number .little 2).map _

theorem extends_u32 : Extends x u32 u32 := (extends_number .little 4).map _

theorem extends_times {d : Decoder α} (h : Extends x d d) (count : Nat) :
    Extends x (d.times count) (d.times count) := by
  induction count with
  | zero => exact extends_pure []
  | succ count ih =>
    rw [times_succ]
    exact h.bind fun a => ih.map (a :: ·)

end Decoder

end CilMetadata

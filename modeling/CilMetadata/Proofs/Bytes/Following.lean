import CilMetadata.Proofs.Bytes.Stream

/-!
# Steps that follow one another

A step takes a state, reads or writes, and succeeds or fails. Two steps on states of one kind are
compared by what the first one does when it succeeds:

* `FollowedBy x y R`: wherever `x` succeeds, `y` succeeds too and stops in the same state, and the
  two values are related;
* `FailsWith x p`: wherever `x` fails, its fault has the property `p`.

Where the second step does not matter, `SucceedsWith x p` says that `x` gives only values with the
property `p`. All three go through sequences (`FollowedBy.bind`, `FailsWith.bind`,
`SucceedsWith.bind`). A failure of `x` leaves open what `y` does.
-/

namespace CilMetadata

variable {σ α β γ δ : Type}

/-- A sequence of two steps fails where one of them does. -/
theorem bind_eq_error {x : EStateM Fault σ α} {f : α → EStateM Fault σ β} {s s' : σ}
    {fault : Fault} :
    (x >>= f) s = .error fault s' ↔
      x s = .error fault s' ∨ ∃ a mid, x s = .ok a mid ∧ f a mid = .error fault s' := by
  change EStateM.bind x f s = _ ↔ _
  unfold EStateM.bind
  cases hx : x s with
  | ok a mid => simp
  | error fault' mid => simp

/-- A sequence whose first step succeeds goes on with the second one. -/
theorem bind_of_ok {x : EStateM Fault σ α} {f : α → EStateM Fault σ β} {s mid : σ} {a : α}
    (h : x s = .ok a mid) : (x >>= f) s = f a mid := by
  change EStateM.bind x f s = _
  rw [EStateM.bind, h]

/-- A sequence whose first step fails goes no further. -/
theorem bind_of_error {x : EStateM Fault σ α} {f : α → EStateM Fault σ β} {s mid : σ}
    {fault : Fault} (h : x s = .error fault mid) : (x >>= f) s = .error fault mid := by
  change EStateM.bind x f s = _
  rw [EStateM.bind, h]

/-! ### Successes -/

/-- Wherever the first step succeeds, the second one succeeds too and stops in the same state, with
a related value. -/
def FollowedBy (x : EStateM Fault σ α) (y : EStateM Fault σ β) (R : α → β → Prop) : Prop :=
  ∀ s s' a, x s = .ok a s' → ∃ b, y s = .ok b s' ∧ R a b

theorem followedBy_refl (x : EStateM Fault σ α) : FollowedBy x x (· = ·) :=
  fun _ _ a h => ⟨a, h, rfl⟩

theorem followedBy_pure {a : α} {b : β} {R : α → β → Prop} (h : R a b) :
    FollowedBy (pure a : EStateM Fault σ α) (pure b) R := by
  intro s s' a' hrun
  cases hrun
  exact ⟨b, rfl, h⟩

/-- A step that never succeeds is followed by every step. -/
theorem followedBy_throw (fault : Fault) (y : EStateM Fault σ β) (R : α → β → Prop) :
    FollowedBy (throw fault : EStateM Fault σ α) y R := by
  intro s s' a hrun
  cases hrun

theorem FollowedBy.mono {x : EStateM Fault σ α} {y : EStateM Fault σ β} {R S : α → β → Prop}
    (h : FollowedBy x y R) (himp : ∀ a b, R a b → S a b) : FollowedBy x y S := by
  intro s s' a hrun
  obtain ⟨b, hb, hab⟩ := h s s' a hrun
  exact ⟨b, hb, himp a b hab⟩

theorem FollowedBy.bind {x : EStateM Fault σ α} {y : EStateM Fault σ β} {R : α → β → Prop}
    {f : α → EStateM Fault σ γ} {g : β → EStateM Fault σ δ} {S : γ → δ → Prop}
    (h : FollowedBy x y R) (hrest : ∀ a b, R a b → FollowedBy (f a) (g b) S) :
    FollowedBy (x >>= f) (y >>= g) S := by
  intro s s' c hrun
  obtain ⟨a, mid, hx, hf⟩ := bind_eq_ok.1 hrun
  obtain ⟨b, hy, hab⟩ := h s mid a hx
  obtain ⟨d, hg, hcd⟩ := hrest a b hab mid s' c hf
  exact ⟨d, bind_eq_ok.2 ⟨b, mid, hy, hg⟩, hcd⟩

/-- The same first step on both sides. -/
theorem FollowedBy.behind {x : EStateM Fault σ α} {f : α → EStateM Fault σ γ}
    {g : α → EStateM Fault σ δ} {S : γ → δ → Prop} (h : ∀ a, FollowedBy (f a) (g a) S) :
    FollowedBy (x >>= f) (x >>= g) S := by
  refine (followedBy_refl x).bind ?_
  rintro a _ rfl
  exact h a

/-- Steps whose values are changed afterwards. -/
theorem FollowedBy.map {x : EStateM Fault σ α} {y : EStateM Fault σ β} {R : α → β → Prop}
    {f : α → γ} {g : β → δ} {S : γ → δ → Prop} (h : FollowedBy x y R)
    (hvalue : ∀ a b, R a b → S (f a) (g b)) :
    FollowedBy (do return f (← x)) (do return g (← y)) S :=
  h.bind fun a b hab => followedBy_pure (hvalue a b hab)

/-- The same test on both sides. -/
theorem followedBy_ite {c : Prop} [Decidable c] {x x' : EStateM Fault σ α}
    {y y' : EStateM Fault σ β} {R : α → β → Prop} (h : c → FollowedBy x y R)
    (h' : ¬ c → FollowedBy x' y' R) :
    FollowedBy (if c then x else x') (if c then y else y') R := by
  by_cases hc : c
  · rw [if_pos hc, if_pos hc]
    exact h hc
  · rw [if_neg hc, if_neg hc]
    exact h' hc

/-! ### Values -/

/-- Wherever the step succeeds, its value has the property. -/
def SucceedsWith (x : EStateM Fault σ α) (p : α → Prop) : Prop :=
  ∀ s s' a, x s = .ok a s' → p a

theorem succeedsWith_true (x : EStateM Fault σ α) : SucceedsWith x fun _ => True :=
  fun _ _ _ _ => trivial

theorem succeedsWith_pure {a : α} {p : α → Prop} (h : p a) :
    SucceedsWith (pure a : EStateM Fault σ α) p := by
  intro s s' b hrun
  cases hrun
  exact h

/-- A step that never succeeds gives no value without the property. -/
theorem succeedsWith_throw (fault : Fault) (p : α → Prop) :
    SucceedsWith (throw fault : EStateM Fault σ α) p := by
  intro s s' a hrun
  cases hrun

theorem SucceedsWith.bind {x : EStateM Fault σ α} {f : α → EStateM Fault σ β} {p : α → Prop}
    {q : β → Prop} (h : SucceedsWith x p) (hrest : ∀ a, p a → SucceedsWith (f a) q) :
    SucceedsWith (x >>= f) q := by
  intro s s' b hrun
  obtain ⟨a, mid, hx, hf⟩ := bind_eq_ok.1 hrun
  exact hrest a (h s mid a hx) mid s' b hf

/-- A step behind one whose value does not matter. -/
theorem SucceedsWith.behind {x : EStateM Fault σ α} {f : α → EStateM Fault σ β} {q : β → Prop}
    (h : ∀ a, SucceedsWith (f a) q) : SucceedsWith (x >>= f) q :=
  (succeedsWith_true x).bind fun a _ => h a

/-- A step whose value is changed afterwards. -/
theorem SucceedsWith.map {x : EStateM Fault σ α} {f : α → β} {p : α → Prop} {q : β → Prop}
    (h : SucceedsWith x p) (hvalue : ∀ a, p a → q (f a)) :
    SucceedsWith (do return f (← x)) q :=
  h.bind fun a ha => succeedsWith_pure (hvalue a ha)

theorem succeedsWith_ite {c : Prop} [Decidable c] {x y : EStateM Fault σ α} {p : α → Prop}
    (h : SucceedsWith x p) (h' : SucceedsWith y p) : SucceedsWith (if c then x else y) p := by
  by_cases hc : c
  · rwa [if_pos hc]
  · rwa [if_neg hc]

/-! ### Failures -/

/-- Wherever the step fails, its fault has the property. -/
def FailsWith (x : EStateM Fault σ α) (p : Fault → Prop) : Prop :=
  ∀ s s' fault, x s = .error fault s' → p fault

theorem failsWith_pure (a : α) (p : Fault → Prop) :
    FailsWith (pure a : EStateM Fault σ α) p := by
  intro s s' fault hrun
  cases hrun

theorem failsWith_throw {fault : Fault} {p : Fault → Prop} (h : p fault) :
    FailsWith (throw fault : EStateM Fault σ α) p := by
  intro s s' fault' hrun
  cases hrun
  exact h

theorem failsWith_get (p : Fault → Prop) : FailsWith (get : EStateM Fault σ σ) p := by
  intro s s' fault hrun
  cases hrun

theorem failsWith_modify (f : σ → σ) (p : Fault → Prop) :
    FailsWith (modify f : EStateM Fault σ PUnit) p := by
  intro s s' fault hrun
  cases hrun

theorem FailsWith.bind {x : EStateM Fault σ α} {f : α → EStateM Fault σ β} {p : Fault → Prop}
    (h : FailsWith x p) (hrest : ∀ a, FailsWith (f a) p) : FailsWith (x >>= f) p := by
  intro s s' fault hrun
  rcases bind_eq_error.1 hrun with hx | ⟨a, mid, -, hf⟩
  · exact h s s' fault hx
  · exact hrest a mid s' fault hf

/-- A step whose value is changed afterwards. -/
theorem FailsWith.map {x : EStateM Fault σ α} {p : Fault → Prop} (h : FailsWith x p) (f : α → β) :
    FailsWith (do return f (← x)) p :=
  h.bind fun a => failsWith_pure (f a) p

theorem failsWith_ite {c : Prop} [Decidable c] {x y : EStateM Fault σ α} {p : Fault → Prop}
    (h : c → FailsWith x p) (h' : ¬ c → FailsWith y p) : FailsWith (if c then x else y) p := by
  by_cases hc : c
  · rw [if_pos hc]
    exact h hc
  · rw [if_neg hc]
    exact h' hc

end CilMetadata

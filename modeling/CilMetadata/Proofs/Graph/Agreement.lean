import CilMetadata.Graph.Basic

/-!
# Steps on two graphs

A step answers or fails, and leaves a graph behind either way. Two steps agree along a relation
between graphs when, started on related graphs, they fail alike or give related answers, and leave
related graphs behind.

* `outcome` is what a step answers or why it fails, `after` the graph that it leaves behind;
* `Agree Q R s t`: the steps `s` and `t` agree along `Q`, with answers related by `R`;
* `Agree.bind`, `Agree.get_bind`, `Agree.attempt` put steps that agree together.
-/

namespace CilMetadata.Graph

variable {α β γ δ : Type}

/-! ### One step -/

/-- What a step answers, or why it fails. -/
def outcome (step : GraphM α) (g : Graph) : Except Fault α :=
  match step g with
  | .ok a _ => .ok a
  | .error fault _ => .error fault

/-- The graph that a step leaves behind, whether it fails or not. -/
def after (step : GraphM α) (g : Graph) : Graph :=
  match step g with
  | .ok _ g' => g'
  | .error _ g' => g'

theorem outcome_of_ok {step : GraphM α} {g g' : Graph} {a : α} (h : step g = .ok a g') :
    outcome step g = .ok a := by
  rw [outcome, h]

theorem after_of_ok {step : GraphM α} {g g' : Graph} {a : α} (h : step g = .ok a g') :
    after step g = g' := by
  rw [after, h]

theorem outcome_congr {step other : GraphM α} {g : Graph} (h : step g = other g) :
    outcome step g = outcome other g := by
  rw [outcome, outcome, h]

theorem after_congr {step other : GraphM α} {g : Graph} (h : step g = other g) :
    after step g = after other g := by
  rw [after, after, h]

theorem get_bind_apply {σ : Type} (f : σ → EStateM Fault σ α) (s : σ) :
    (get >>= f) s = f s s := rfl

theorem outcome_bind (step : GraphM α) (f : α → GraphM β) (g : Graph) :
    outcome (step >>= f) g = outcome step g >>= fun a => outcome (f a) (after step g) := by
  simp only [outcome, after, bind, EStateM.bind]
  cases step g <;> rfl

theorem after_bind (step : GraphM α) (f : α → GraphM β) (g : Graph) :
    after (step >>= f) g =
      match outcome step g with
      | .ok a => after (f a) (after step g)
      | .error _ => after step g := by
  simp only [outcome, after, bind, EStateM.bind]
  cases step g <;> rfl

@[simp] theorem outcome_attempt (step : GraphM α) (g : Graph) :
    outcome (attempt step) g = .ok (outcome step g) := by
  simp only [outcome, attempt]
  cases step g <;> rfl

@[simp] theorem after_attempt (step : GraphM α) (g : Graph) :
    after (attempt step) g = after step g := by
  simp only [after, attempt]
  cases step g <;> rfl

/-! ### Two outcomes -/

/-- Two outcomes are alike: both are the same fault, or both are answers and these are related. -/
inductive Alike (R : α → β → Prop) : Except Fault α → Except Fault β → Prop
  | ok {a : α} {b : β} (h : R a b) : Alike R (.ok a) (.ok b)
  | error (fault : Fault) : Alike R (.error fault) (.error fault)

namespace Alike

variable {R S : α → β → Prop} {R' : γ → δ → Prop} {x : Except Fault α} {y : Except Fault β}

theorem eq {x y : Except Fault α} (h : Alike (· = ·) x y) : x = y := by
  cases h with
  | ok hab => rw [hab]
  | error fault => rfl

theorem mono (h : Alike R x y) (himp : ∀ a b, R a b → S a b) : Alike S x y := by
  cases h with
  | ok hab => exact .ok (himp _ _ hab)
  | error fault => exact .error fault

theorem bind {f : α → Except Fault γ} {k : β → Except Fault δ} (h : Alike R x y)
    (hrest : ∀ a b, R a b → Alike R' (f a) (k b)) : Alike R' (x >>= f) (y >>= k) := by
  cases h with
  | ok hab => exact hrest _ _ hab
  | error fault => exact .error fault

/-- Two outcomes that are alike to a third one. -/
theorem join {T : γ → β → Prop} {z : Except Fault γ} (h : Alike R x y) (h' : Alike T z y) :
    Alike (fun a c => ∃ b, R a b ∧ T c b) x z := by
  cases h with
  | ok hab =>
    cases h' with
    | ok hcb => exact .ok ⟨_, hab, hcb⟩
  | error fault =>
    cases h' with
    | error => exact .error fault

end Alike

/-! ### Two steps -/

variable {Q : Graph → Graph → Prop} {R : α → β → Prop} {R' : γ → δ → Prop}

/-- Two steps started on two given graphs have outcomes that are alike, and leave related graphs
behind. -/
structure AgreeAt (Q : Graph → Graph → Prop) (R : α → β → Prop) (s : GraphM α) (t : GraphM β)
    (g h : Graph) : Prop where
  outcome : Alike R (outcome s g) (outcome t h)
  after : Q (after s g) (after t h)

/-- Two steps agree wherever they are started on related graphs. -/
def Agree (Q : Graph → Graph → Prop) (R : α → β → Prop) (s : GraphM α) (t : GraphM β) : Prop :=
  ∀ ⦃g h⦄, Q g h → AgreeAt Q R s t g h

theorem AgreeAt.of_ok {s : GraphM α} {t : GraphM β} {g h g' h' : Graph} {a : α} {b : β}
    (hs : s g = .ok a g') (ht : t h = .ok b h') (hab : R a b) (hafter : Q g' h') :
    AgreeAt Q R s t g h := by
  constructor
  · rw [outcome_of_ok hs, outcome_of_ok ht]
    exact .ok hab
  · rw [after_of_ok hs, after_of_ok ht]
    exact hafter

theorem AgreeAt.congr {s s' : GraphM α} {t t' : GraphM β} {g h : Graph}
    (hagree : AgreeAt Q R s t g h) (hs : s' g = s g) (ht : t' h = t h) :
    AgreeAt Q R s' t' g h := by
  constructor
  · rw [outcome_congr hs, outcome_congr ht]
    exact hagree.outcome
  · rw [after_congr hs, after_congr ht]
    exact hagree.after

theorem AgreeAt.bind {s : GraphM α} {t : GraphM β} {f : α → GraphM γ} {k : β → GraphM δ}
    {g h : Graph} (hagree : AgreeAt Q R s t g h) (hrest : ∀ a b, R a b → Agree Q R' (f a) (k b)) :
    AgreeAt Q R' (s >>= f) (t >>= k) g h := by
  obtain ⟨houtcome, hafter⟩ := hagree
  constructor
  · rw [outcome_bind, outcome_bind]
    exact houtcome.bind fun a b hab => (hrest a b hab hafter).outcome
  · rw [after_bind, after_bind]
    generalize CilMetadata.Graph.outcome s g = x at houtcome
    generalize CilMetadata.Graph.outcome t h = y at houtcome
    cases houtcome with
    | ok hab => exact (hrest _ _ hab hafter).after
    | error fault => exact hafter

theorem AgreeAt.get_bind {f : Graph → GraphM α} {k : Graph → GraphM β} {g h : Graph}
    (hagree : AgreeAt Q R (f g) (k h) g h) : AgreeAt Q R (get >>= f) (get >>= k) g h :=
  ⟨hagree.outcome, hagree.after⟩

namespace Agree

theorem pure {a : α} {b : β} (h : R a b) :
    Agree Q R (pure a : GraphM α) (pure b : GraphM β) :=
  fun _ _ hgh => ⟨.ok h, hgh⟩

theorem throw (fault : Fault) :
    Agree Q R (throw fault : GraphM α) (throw fault : GraphM β) :=
  fun _ _ hgh => ⟨.error fault, hgh⟩

theorem mono {S : α → β → Prop} {s : GraphM α} {t : GraphM β} (hagree : Agree Q R s t)
    (himp : ∀ a b, R a b → S a b) : Agree Q S s t :=
  fun _ _ hgh => ⟨(hagree hgh).outcome.mono himp, (hagree hgh).after⟩

theorem bind {s : GraphM α} {t : GraphM β} {f : α → GraphM γ} {k : β → GraphM δ}
    (hagree : Agree Q R s t) (hrest : ∀ a b, R a b → Agree Q R' (f a) (k b)) :
    Agree Q R' (s >>= f) (t >>= k) :=
  fun _ _ hgh => (hagree hgh).bind hrest

/-- What follows the same answer. -/
theorem bind_eq {s t : GraphM α} {f : α → GraphM γ} {k : α → GraphM δ}
    (hagree : Agree Q (· = ·) s t) (hrest : ∀ a, Agree Q R' (f a) (k a)) :
    Agree Q R' (s >>= f) (t >>= k) := by
  refine hagree.bind fun a b hab => ?_
  subst hab
  exact hrest a

/-- What follows the answer of one of two steps. -/
theorem ite_bind {c : Prop} [Decidable c] {s t s' t' : GraphM α} {f k : α → GraphM γ}
    {R' : γ → γ → Prop} (hs : c → Agree Q (· = ·) s s') (ht : Agree Q (· = ·) t t')
    (hrest : ∀ a, Agree Q R' (f a) (k a)) :
    Agree Q R' (if c then s >>= f else t >>= f) (if c then s' >>= k else t' >>= k) := by
  split
  · next hc => exact (hs hc).bind_eq hrest
  · exact ht.bind_eq hrest

/-- A step that looks at its graph. -/
theorem get_bind {f : Graph → GraphM α} {k : Graph → GraphM β}
    (hrest : ∀ ⦃g h⦄, Q g h → Agree Q R (f g) (k h)) : Agree Q R (get >>= f) (get >>= k) :=
  fun _ _ hgh => (hrest hgh hgh).get_bind

theorem attempt {s : GraphM α} {t : GraphM β} (hagree : Agree Q R s t) :
    Agree Q (Alike R) (attempt s) (attempt t) := by
  intro g h hgh
  obtain ⟨houtcome, hafter⟩ := hagree hgh
  refine ⟨?_, by simpa using hafter⟩
  rw [outcome_attempt, outcome_attempt]
  exact .ok houtcome

theorem attempt_eq {s t : GraphM α} (hagree : Agree Q (· = ·) s t) :
    Agree Q (· = ·) (Graph.attempt s) (Graph.attempt t) :=
  hagree.attempt.mono fun _ _ => Alike.eq

end Agree

end CilMetadata.Graph

import CilMetadata.Graph.Runs
import Mathlib.Data.List.Basic

/-!
# Halving finds the last place

Halving a list in which a condition does not hold again once it has failed leads to the last place
where it holds (`bisect_spec`). If it holds nowhere, halving leads to the start.
-/

namespace CilMetadata

variable {α : Type} {p : α → Bool} {xs : Array α}

theorem any_getElem?_iff {i : Nat} :
    (xs[i]?).any p = true ↔ ∃ h : i < xs.size, p xs[i] = true := by
  by_cases h : i < xs.size <;> simp [h]

/-- Of a stretch behind which the condition does not hold, halving keeps the last place where it
does: what is given up lies behind a place where it fails. -/
theorem bisect_spec {base size : Nat}
    (down : ∀ i j : Nat, i ≤ j → (xs[j]?).any p = true → (xs[i]?).any p = true)
    (behind : ∀ i : Nat, base + size ≤ i → (xs[i]?).any p = false) :
    (bisect p xs base size = base ∨ (xs[bisect p xs base size]?).any p = true) ∧
      ∀ i : Nat, (xs[i]?).any p = true → i ≤ bisect p xs base size := by
  fun_induction bisect p xs base size with
  | case1 base size hsmall =>
    refine ⟨.inl rfl, fun i hi => Nat.le_of_not_lt fun hlt => ?_⟩
    rw [behind i (by omega)] at hi
    cases hi
  | case2 base size hlarge half next ih =>
    by_cases hmid : (xs[base + half]?).any p = true
    · have hnext : next = base + half := if_pos hmid
      rw [hnext] at ih ⊢
      obtain ⟨hholds, hlast⟩ := ih fun i hi => behind i (by omega)
      exact ⟨.inr (hholds.elim (fun heq => by rwa [heq]) id), hlast⟩
    · have hnext : next = base := if_neg hmid
      rw [hnext] at ih ⊢
      refine ih fun i hi => ?_
      by_contra hi'
      exact hmid (down (base + half) i (by omega) (by simpa using hi'))

end CilMetadata

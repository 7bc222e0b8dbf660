import CilMetadata.Fault

/-!
# Steps that may fail

The result of two steps in turn goes back to the results of the steps (`bind_eq_ok`,
`bind_eq_error`), and so does the result of one step for every item of a list (`mapM_eq_ok`,
`mapM_eq_error`): it is there if every item has one (`mapM_isOk_iff`), and otherwise the first item
without one decides (`mapM_eq_error_iff`).
-/

namespace CilMetadata.Fault

variable {α β : Type}

theorem bind_eq_ok {x : Except Fault α} {f : α → Except Fault β} {b : β} :
    x >>= f = .ok b ↔ ∃ a, x = .ok a ∧ f a = .ok b := by
  cases x <;> simp [bind, Except.bind]

theorem bind_eq_error {x : Except Fault α} {f : α → Except Fault β} {fault : Fault} :
    x >>= f = .error fault ↔ x = .error fault ∨ ∃ a, x = .ok a ∧ f a = .error fault := by
  cases x <;> simp [bind, Except.bind]

variable {f : α → Except Fault β} {items : List α}

/-- A step that succeeds for every item gives one result for each of them. -/
theorem mapM_eq_ok {results : List β} (h : items.mapM f = .ok results) :
    (∀ item ∈ items, ∃ result, f item = .ok result) ∧
      ∀ result, result ∈ results ↔ ∃ item ∈ items, f item = .ok result := by
  induction items generalizing results with
  | nil =>
    cases h
    simp
  | cons item rest ih =>
    rw [List.mapM_cons] at h
    obtain ⟨first, hitem, hothers⟩ := bind_eq_ok.1 h
    obtain ⟨others, hrest, hresults⟩ := bind_eq_ok.1 hothers
    cases hresults
    obtain ⟨hall, hmem⟩ := ih hrest
    refine ⟨?_, fun result => ?_⟩
    · simpa [hitem] using hall
    · simp [hmem, hitem, eq_comm]

/-- A step that fails on a list fails for one of its items. -/
theorem mapM_eq_error {fault : Fault} (h : items.mapM f = .error fault) :
    ∃ item ∈ items, f item = .error fault := by
  induction items with
  | nil => cases h
  | cons item rest ih =>
    rw [List.mapM_cons] at h
    rcases bind_eq_error.1 h with hitem | ⟨first, -, hothers⟩
    · exact ⟨item, List.mem_cons_self, hitem⟩
    · rcases bind_eq_error.1 hothers with hrest | ⟨others, -, hresults⟩
      · obtain ⟨other, hmem, hother⟩ := ih hrest
        exact ⟨other, List.mem_cons_of_mem _ hmem, hother⟩
      · cases hresults

/-- A step succeeds on a list if it does for every item. -/
theorem mapM_isOk_iff :
    (∃ results, items.mapM f = .ok results) ↔ ∀ item ∈ items, ∃ result, f item = .ok result := by
  constructor
  · rintro ⟨results, h⟩
    exact (mapM_eq_ok h).1
  · intro hall
    cases hrun : items.mapM f with
    | ok results => exact ⟨results, rfl⟩
    | error fault =>
      obtain ⟨item, hmem, hitem⟩ := mapM_eq_error hrun
      obtain ⟨result, hresult⟩ := hall item hmem
      rw [hitem] at hresult
      cases hresult

/-- The first item for which a step fails gives the fault of the list. -/
theorem mapM_eq_error_iff {fault : Fault} :
    items.mapM f = .error fault ↔ ∃ before item after, items = before ++ item :: after ∧
      (∀ earlier ∈ before, ∃ result, f earlier = .ok result) ∧ f item = .error fault := by
  constructor
  · intro h
    induction items with
    | nil => cases h
    | cons item rest ih =>
      rw [List.mapM_cons] at h
      rcases bind_eq_error.1 h with hitem | ⟨first, hitem, hothers⟩
      · exact ⟨[], item, rest, rfl, by simp, hitem⟩
      · rcases bind_eq_error.1 hothers with hrest | ⟨others, -, hresults⟩
        · obtain ⟨before, failing, after, rfl, hbefore, hfails⟩ := ih hrest
          refine ⟨item :: before, failing, after, rfl, ?_, hfails⟩
          exact List.forall_mem_cons.2 ⟨⟨first, hitem⟩, hbefore⟩
        · cases hresults
  · rintro ⟨before, item, after, rfl, hbefore, hitem⟩
    obtain ⟨results, hresults⟩ := mapM_isOk_iff.2 hbefore
    rw [List.mapM_append, hresults, List.mapM_cons, hitem]
    rfl

end CilMetadata.Fault

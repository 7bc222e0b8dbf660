import CilMetadata.Relocation.Basic
import Mathlib.Data.List.Perm.Basic

/-!
# Numbering

A flush numbers rows from 1 on and maps tokens to the numbers. Both maps of a relocation are made
the same way (`assignFrom`): every row may have a token as its key, the token is mapped to the
row's number, and where rows share a key the last one counts (`find?_assignFrom`).
-/

namespace CilMetadata.TokenMap

variable {α : Type} {table : TableKind} {key : α → Option Token}

/-- The numbers from `n` on for some items, assigned to their keys. -/
def assignFrom (table : TableKind) (key : α → Option Token) :
    TokenMap → (n : Nat) → List α → TokenMap
  | map, _, [] => map
  | map, n, item :: rest =>
    assignFrom table key
      (match key item with
       | none => map
       | some token => map.insert token (Token.ofRow table n)) (n + 1) rest

theorem assignFrom_map {β : Type} (f : β → α) (map : TokenMap) (n : Nat) (items : List β) :
    assignFrom table key map n (items.map f) =
      assignFrom table (fun item => key (f item)) map n items := by
  induction items generalizing map n with
  | nil => rfl
  | cons item rest ih => rw [List.map_cons, assignFrom, assignFrom, ih]

theorem assignFrom_congr {other : α → Option Token} {items : List α}
    (h : ∀ item ∈ items, key item = other item) (map : TokenMap) (n : Nat) :
    assignFrom table key map n items = assignFrom table other map n items := by
  induction items generalizing map n with
  | nil => rfl
  | cons item rest ih =>
    obtain ⟨hitem, hrest⟩ := List.forall_mem_cons.1 h
    rw [assignFrom, assignFrom, hitem, ih hrest]

theorem find?_match (n : Nat) (item : α) (map : TokenMap) (token : Token) :
    (match key item with
      | none => map
      | some token => map.insert token (Token.ofRow table n)).find? token =
      if key item = some token then some (Token.ofRow table n) else map.find? token := by
  cases hkey : key item with
  | none => simp
  | some other => simp [find?_insert, eq_comm]

/-- A token is mapped to the number of the last item whose key it is; a token that is no key stays
as it was. -/
theorem find?_assignFrom {n : Nat} {items : List α} {map : TokenMap} {token target : Token} :
    (assignFrom table key map n items).find? token = some target ↔
      (∃ before item after, items = before ++ item :: after ∧ key item = some token ∧
        (∀ other ∈ after, key other ≠ some token) ∧
        target = Token.ofRow table (n + before.length)) ∨
      (∀ item ∈ items, key item ≠ some token) ∧ map.find? token = some target := by
  induction items generalizing n map with
  | nil => simp [assignFrom]
  | cons first rest ih =>
    -- The first item is inserted before the others, so it counts only if none of them has its key.
    rw [assignFrom, ih, find?_match]
    constructor
    · rintro (⟨before, item, after, rfl, hkey, hlast, rfl⟩ | ⟨hnone, hfound⟩)
      · refine .inl ⟨first :: before, item, after, rfl, hkey, hlast, ?_⟩
        rw [List.length_cons, Nat.add_assoc, Nat.add_comm 1]
      · by_cases hkey : key first = some token
        · rw [if_pos hkey] at hfound
          cases hfound
          exact .inl ⟨[], first, rest, rfl, hkey, hnone, rfl⟩
        · rw [if_neg hkey] at hfound
          exact .inr ⟨List.forall_mem_cons.2 ⟨hkey, hnone⟩, hfound⟩
    · rintro (⟨before, item, after, hsplit, hkey, hlast, rfl⟩ | ⟨hnone, hfound⟩)
      · cases before with
        | nil =>
          cases hsplit
          exact .inr ⟨hlast, by rw [if_pos hkey]; rfl⟩
        | cons head before =>
          cases hsplit
          refine .inl ⟨before, item, after, rfl, hkey, hlast, ?_⟩
          rw [List.length_cons, Nat.add_assoc, Nat.add_comm 1]
      · obtain ⟨hfirst, hrest⟩ := List.forall_mem_cons.1 hnone
        exact .inr ⟨hrest, by rw [if_neg hfirst]; exact hfound⟩

/-- The tokens that are mapped. -/
def keys (map : TokenMap) : List Token := map.pairs.map Prod.fst

theorem keys_insert {map : TokenMap} {token : Token} (h : token ∉ map.keys) (target : Token) :
    (map.insert token target).keys = token :: map.keys := by
  have hkept : map.pairs.filter (·.1 != token) = map.pairs := by
    refine List.filter_eq_self.2 fun pair hpair => ?_
    have hne : pair.1 ≠ token := fun heq => h (heq ▸ List.mem_map_of_mem hpair)
    simpa using hne
  rw [insert, keys, hkept, List.map_cons, keys]

/-- Distinct new keys are added, the last one first. -/
theorem keys_assignFrom {token : α → Token} {n : Nat} {items : List α} {map : TokenMap}
    (h : (items.map token).Nodup) (hnew : ∀ item ∈ items, token item ∉ map.keys) :
    (assignFrom table (fun item => some (token item)) map n items).keys =
      (items.map token).reverse ++ map.keys := by
  induction items generalizing n map with
  | nil => rfl
  | cons first rest ih =>
    obtain ⟨hfirst, hrest⟩ := List.nodup_cons.1 h
    obtain ⟨hfirstNew, hrestNew⟩ := List.forall_mem_cons.1 hnew
    have hkeys := keys_insert hfirstNew (Token.ofRow table n)
    rw [assignFrom, ih hrest, hkeys]
    · simp
    · -- The key of the first item is new to the others, as keys are distinct.
      intro item hitem
      rw [hkeys, List.mem_cons, not_or]
      exact ⟨fun heq => hfirst (heq ▸ List.mem_map_of_mem hitem), hrestNew item hitem⟩

/-- A token that is a key once is mapped to what it is paired with. -/
theorem find?_of_mem {map : TokenMap} (h : map.keys.Nodup) {pair : Token × Token}
    (hmem : pair ∈ map.pairs) : map.find? pair.1 = some pair.2 := by
  unfold find?
  unfold keys at h
  generalize map.pairs = pairs at h hmem
  induction pairs with
  | nil => cases hmem
  | cons first rest ih =>
    obtain ⟨hfirst, hrest⟩ := List.nodup_cons.1 h
    rcases List.mem_cons.1 hmem with rfl | hlater
    · rw [List.lookup_cons, beq_self_eq_true]
    · have hne : pair.1 ≠ first.1 := fun heq => hfirst (heq ▸ List.mem_map_of_mem hlater)
      rw [List.lookup_cons, beq_false_of_ne hne]
      exact ih hrest hlater

/-- As long as keys are distinct, pairs of different tokens are counted by their keys. -/
theorem countP_pairs {map : TokenMap} (h : map.keys.Nodup) :
    map.pairs.countP (fun pair => pair.1 != pair.2) =
      map.keys.countP fun token => map.find? token != some token := by
  rw [keys, List.countP_map]
  refine List.countP_congr fun pair hpair => ?_
  have hfound := find?_of_mem h hpair
  simp only [Function.comp_apply, hfound, bne_iff_ne, ne_eq, Option.some.injEq]
  exact not_congr eq_comm

end CilMetadata.TokenMap

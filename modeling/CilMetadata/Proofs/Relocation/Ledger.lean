import CilMetadata.Proofs.Token
import CilMetadata.Relocation.Buffer
import Mathlib.Data.List.Nodup
import Mathlib.Tactic.SplitIfs

/-!
# What a buffer holds

A buffer is edited by adding, setting and dropping rows. Beside the buffer a ledger is kept of what
is in it: of every row that has been added and not been dropped the token that was handed out, the
row as it was last set, and its number in the module it comes from.

* `step` is one edit, `run` a list of edits from an empty buffer;
* `Follows` relates a buffer to its ledger; it is preserved by every edit (`Follows.step`).
-/

namespace CilMetadata.RowBuffer

variable {kind : RowKind}

/-- An edit of a buffer. -/
inductive Edit (kind : RowKind)
  | add (row : Row kind) (sourceRid : Nat)
  | set (rid : Nat) (row : Row kind)
  | clear

/-- A row in a buffer as its user knows it. -/
structure Held (kind : RowKind) where
  /-- The token that was handed out. -/
  token : Token
  /-- The row as it was last set. -/
  row : Row kind
  /-- The number of the row in the module it comes from, or 0. -/
  sourceRid : Nat

/-- An entry of a buffer for a row that is held under a number. -/
def Held.under (entry : Held kind) (rid : Nat) : BufferedRow kind :=
  { row := { entry.row with rid }, sourceRid := entry.sourceRid }

/-- The ledger after the row with a number has been set. -/
def setHeld (held : List (Held kind)) : (rid : Nat) → Row kind → List (Held kind)
  | 0, _ => held
  | place + 1, row => held.modify place fun entry => { entry with row }

/-- One edit of a buffer and of its ledger. -/
def step : RowBuffer kind × List (Held kind) → Edit kind → RowBuffer kind × List (Held kind)
  | (buffer, held), .add row sourceRid =>
    ((buffer.add row sourceRid).1,
      held ++ [{ token := (buffer.add row sourceRid).2, row, sourceRid }])
  | (buffer, held), .set rid row => ((buffer.set rid row).1, setHeld held rid row)
  | (buffer, _), .clear => (buffer.clear, [])

/-- Edits in turn, from an empty buffer on. -/
def run (order : FlushOrder) (edits : List (Edit kind)) : RowBuffer kind × List (Held kind) :=
  edits.foldl step ({ order }, [])

/-- A buffer that holds what its ledger says, the entry at place `i` under the number `i + 1`. -/
structure Follows (buffer : RowBuffer kind) (held : List (Held kind)) : Prop where
  size : buffer.entries.size = held.length
  entries : ∀ i : Nat, buffer.entries[i]? = held[i]?.map (Held.under · (i + 1))
  tokens : ∀ (i : Nat) (entry : Held kind), held[i]? = some entry →
    entry.token = Token.ofRow kind.table (i + 1)

theorem follows_empty (order : FlushOrder) :
    Follows { order, entries := #[] } ([] : List (Held kind)) :=
  ⟨rfl, fun _ => rfl, fun _ _ h => by cases h⟩

/-- Setting a row changes the entry with its number, if there is one. -/
theorem entries_set (buffer : RowBuffer kind) (place : Nat) (row : Row kind) :
    (buffer.set (place + 1) row).1.entries =
      buffer.entries.modify place fun entry =>
        { entry with row := { row with rid := place + 1 } } := by
  unfold set get?
  rw [if_neg (Nat.succ_ne_zero place), Nat.add_sub_cancel]
  cases hentry : buffer.entries[place]? with
  | none =>
    have hout := Array.getElem?_eq_none_iff.1 hentry
    simp [Array.modify, Array.modifyM, Nat.not_lt.2 hout]
  | some entry => rfl

namespace Follows

variable {buffer : RowBuffer kind} {held : List (Held kind)}

theorem add (h : Follows buffer held) (row : Row kind) (sourceRid : Nat) :
    Follows (buffer.add row sourceRid).1
      (held ++ [{ token := (buffer.add row sourceRid).2, row, sourceRid }]) := by
  refine ⟨by simp [RowBuffer.add, h.size], fun i => ?_, fun i entry hentry => ?_⟩
  · -- The new row stands behind the others, which stay as they were.
    by_cases hlast : i = held.length
    · subst hlast
      simp [RowBuffer.add, ← h.size, Held.under]
    · have hold : (buffer.add row sourceRid).1.entries[i]? = buffer.entries[i]? := by
        simp [RowBuffer.add, Array.getElem?_push, h.size, hlast]
      rw [hold, h.entries, List.getElem?_append]
      split_ifs with hlt
      · rfl
      · rw [List.getElem?_eq_none (by omega), List.getElem?_eq_none (by simp; omega)]
  · rcases Nat.lt_trichotomy i held.length with hlt | rfl | hgt
    · rw [List.getElem?_append_left hlt] at hentry
      exact h.tokens i entry hentry
    · have hnew : entry = { token := (buffer.add row sourceRid).2, row, sourceRid } := by
        simpa [eq_comm] using hentry
      rw [hnew, ← h.size]
      rfl
    · rw [List.getElem?_eq_none (by simp; omega)] at hentry
      cases hentry

theorem set (h : Follows buffer held) (rid : Nat) (row : Row kind) :
    Follows (buffer.set rid row).1 (setHeld held rid row) := by
  cases rid with
  | zero => exact h
  | succ place =>
    refine ⟨?_, fun i => ?_, fun i entry hentry => ?_⟩
    · rw [entries_set, Array.size_modify, setHeld, List.length_modify, h.size]
    · rw [entries_set, setHeld, Array.getElem?_modify, List.getElem?_modify, h.entries]
      by_cases hplace : place = i
      · subst hplace
        cases held[place]? <;> simp [Held.under]
      · simp [hplace]
    · rw [setHeld, List.getElem?_modify] at hentry
      obtain ⟨before, hbefore, hafter⟩ := Option.map_eq_some_iff.1 hentry
      have htoken : entry.token = before.token := by
        rw [← hafter]
        split_ifs <;> rfl
      rw [htoken]
      exact h.tokens i before hbefore

theorem step (h : Follows buffer held) (edit : Edit kind) :
    Follows (RowBuffer.step (buffer, held) edit).1 (RowBuffer.step (buffer, held) edit).2 := by
  cases edit with
  | add row sourceRid => exact h.add row sourceRid
  | set rid row => exact h.set rid row
  | clear => exact follows_empty buffer.order

/-- As long as numbers fit a token, the tokens that were handed out are distinct. -/
theorem nodup_tokens (h : Follows buffer held) (hsize : held.length < 2 ^ 24) :
    (held.map Held.token).Nodup := by
  refine List.nodup_iff_getElem?_ne_getElem?.2 fun i j hij hj heq => ?_
  rw [List.length_map] at hj
  have hi := Nat.lt_trans hij hj
  rw [List.getElem?_map, List.getElem?_map, List.getElem?_eq_getElem hi,
    List.getElem?_eq_getElem hj] at heq
  simp only [Option.map_some, Option.some.injEq] at heq
  -- Two numbers below `2 ^ 24` are told apart by the bits that a token keeps.
  rw [h.tokens i _ (List.getElem?_eq_getElem hi),
    h.tokens j _ (List.getElem?_eq_getElem hj), Token.ofRow_eq_ofRow_iff] at heq
  omega

/-- As long as numbers fit a token, an entry can be told from what is held. -/
theorem entries_eq (h : Follows buffer held) (hsize : held.length < 2 ^ 24) :
    buffer.entries.toList = held.map fun entry => entry.under entry.token.row := by
  refine List.ext_getElem? fun i => ?_
  rw [Array.getElem?_toList, h.entries, List.getElem?_map]
  cases hentry : held[i]? with
  | none => rfl
  | some entry =>
    have hlt := (List.getElem?_eq_some_iff.1 hentry).1
    rw [Option.map_some, Option.map_some, h.tokens i entry hentry, Token.row_ofRow,
      Nat.mod_eq_of_lt (by omega)]

end Follows

theorem order_step (state : RowBuffer kind × List (Held kind)) (edit : Edit kind) :
    (step state edit).1.order = state.1.order := by
  cases edit with
  | add row sourceRid => rfl
  | set rid row =>
    change (state.1.set rid row).1.order = _
    unfold set
    split <;> rfl
  | clear => rfl

/-- Whatever the edits, a buffer follows its ledger. -/
theorem follows_foldl {state : RowBuffer kind × List (Held kind)} (edits : List (Edit kind))
    (h : Follows state.1 state.2) :
    Follows (edits.foldl step state).1 (edits.foldl step state).2 ∧
      (edits.foldl step state).1.order = state.1.order := by
  induction edits generalizing state with
  | nil => exact ⟨h, rfl⟩
  | cons edit rest ih =>
    obtain ⟨hfollows, horder⟩ := ih (h.step edit)
    exact ⟨hfollows, horder.trans (order_step state edit)⟩

theorem follows_run (order : FlushOrder) (edits : List (Edit kind)) :
    Follows (run order edits).1 (run order edits).2 :=
  (follows_foldl edits (follows_empty order)).1

theorem order_run (order : FlushOrder) (edits : List (Edit kind)) :
    (run order edits).1.order = order :=
  (follows_foldl edits (follows_empty order)).2

end CilMetadata.RowBuffer

import Mathlib.Data.List.Basic
import CilMetadata.Proofs.TypeName.Lexemes

/-!
# Lexers come to an end and lose nothing

A lexer hands out the lexemes of its text, at most one for each character, and the end from then
on. Looking ahead changes nothing of that. The lexemes are the text without its blanks, and words
are the longest runs of characters between blanks and marks.

* `Lexer.answers` is what calls in any order are answered; `Lexer.Awaits` says what a lexer has
  still to hand out, and is followed through one call (`Awaits.next`, `Awaits.peek`) and through many
  (`Awaits.answers`);
* `Scans.exists_blanks` and `Scans.kind` say how a lexeme stands in its text, `Scans.apart` and
  `Apart.isRun` that no word is cut;
* `lexemes_placed` leads from a lexeme to its place;
* `reads_lexemes` puts them together.
-/

namespace CilMetadata.TypeName

/-! ### Calls -/

namespace Lexer

/-- What a lexer can be asked for. -/
inductive Call
  | peek | next
  deriving DecidableEq, Repr

/-- The answers to calls, one after the other. -/
def answers : List Call → Lexer → List Lexeme
  | [], _ => []
  | .peek :: rest, lexer => lexer.peek.1 :: answers rest lexer.peek.2
  | .next :: rest, lexer => lexer.next.1 :: answers rest lexer.next.2

/-- A lexer has still to hand out some lexemes, and behind them nothing but the end. -/
inductive Awaits : Lexer → List Lexeme → Prop
  | unseen {rest : List Char} {found : List Lexeme} (h : lexemes rest = found) :
    Awaits { rest } found
  | seen {lexeme : Lexeme} {rest : List Char} {found : List Lexeme} (h : lexemes rest = found) :
    Awaits { rest, ahead := some lexeme } (lexeme :: found)
  | ended {rest : List Char} (h : lexemes rest = []) : Awaits { rest, ahead := some .eof } []

namespace Awaits

variable {lexer : Lexer} {found : List Lexeme}

/-- Taking a lexeme leaves a lexer that has not looked ahead. -/
theorem taken (h : Awaits lexer found) :
    ∃ rest, lexer.next = (found.headD .eof, { rest }) ∧ lexemes rest = found.tail := by
  cases h with
  | @unseen rest _ hrest =>
    unfold Lexer.next
    cases hscan : scan rest with
    | none =>
      rw [← hrest, lexemes_of_blank (scan_eq_none_iff.1 hscan)]
      exact ⟨[], rfl, lexemes_of_blank (List.forall_mem_nil _)⟩
    | some split =>
      rw [← hrest, lexemes_of_scans (scan_eq_some_iff.1 hscan)]
      exact ⟨split.2, rfl, rfl⟩
  | @seen _ rest _ hrest => exact ⟨rest, rfl, hrest⟩
  | @ended rest hrest => exact ⟨rest, rfl, hrest⟩

theorem next (h : Awaits lexer found) :
    lexer.next.1 = found.headD .eof ∧ Awaits lexer.next.2 found.tail := by
  obtain ⟨rest, hnext, hrest⟩ := h.taken
  rw [hnext]
  exact ⟨rfl, .unseen hrest⟩

/-- A look ahead leaves everything to be handed out. -/
theorem peek (h : Awaits lexer found) :
    lexer.peek.1 = found.headD .eof ∧ Awaits lexer.peek.2 found := by
  obtain ⟨rest, hnext, hrest⟩ := h.taken
  rw [Lexer.peek, hnext]
  cases found with
  | nil => exact ⟨rfl, .ended hrest⟩
  | cons lexeme found => exact ⟨rfl, .seen hrest⟩

/-- By induction on the calls: an answer hangs on the number of lexemes that were taken before. -/
theorem answers (h : Awaits lexer found) (calls : List Call) :
    Lexer.answers calls lexer =
      calls.mapIdx fun i _ => found.getD ((calls.take i).count .next) .eof := by
  induction calls generalizing lexer found with
  | nil => rfl
  | cons call rest ih =>
    rw [List.mapIdx_cons]
    cases call with
    | peek =>
      rw [Lexer.answers, h.peek.1, ih h.peek.2]
      cases found <;> simp
    | next =>
      rw [Lexer.answers, h.next.1, ih h.next.2]
      cases found <;> simp

/-- Taking lexemes until the end comes takes all of them, whatever is looked at on the way. -/
theorem run (h : Awaits lexer found) (hends : ∀ lexeme ∈ found, lexeme.terminal ≠ .eof)
    (looks : List Nat) {n : Nat} (hn : found.length < n) (place : Nat) :
    Lexer.run looks n place lexer = found ++ [.eof] := by
  induction n generalizing lexer found place with
  | zero => cases hn
  | succ n ih =>
    have hlooked : Awaits (if looks.contains place then lexer.peek.2.peek.2 else lexer) found := by
      split
      · exact h.peek.2.peek.2
      · exact h
    obtain ⟨hnext, hafter⟩ := hlooked.next
    rw [Lexer.run]
    generalize (if looks.contains place then lexer.peek.2.peek.2 else lexer).next = answer at *
    obtain ⟨lexeme, after⟩ := answer
    obtain rfl : lexeme = found.headD .eof := hnext
    cases found with
    | nil => rfl
    | cons lexeme found =>
      obtain ⟨hlexeme, hfound⟩ := List.forall_mem_cons.1 hends
      change (if lexeme.terminal = .eof then [lexeme]
        else lexeme :: Lexer.run looks n (place + 1) after) = lexeme :: (found ++ [.eof])
      rw [if_neg hlexeme, ih hafter hfound (Nat.lt_of_succ_lt_succ hn), List.tail_cons]

end Awaits

end Lexer

/-! ### Lexemes in their places -/

variable {text rest left right blanks : List Char} {lexeme : Lexeme}

/-- A lexeme that is no word: characters that end words. -/
structure Lexeme.IsMark (lexeme : Lexeme) : Prop where
  isWord : lexeme.isWord = false
  ne_eof : lexeme.terminal ≠ .eof
  ne_nil : lexeme.text.toList ≠ []
  reserved : ∀ c ∈ lexeme.text.toList, c ∈ reserved

theorem isWordChar_of_reserved {c : Char} (h : c ∈ reserved) : isWordChar c = false := by
  simp [isWordChar, h]

/-- A lexeme stands behind nothing but blanks. -/
theorem Scans.exists_blanks (h : Scans text lexeme rest) :
    ∃ blanks, (∀ c ∈ blanks, Text.isBlank c = true) ∧
      text = blanks ++ (lexeme.text.toList ++ rest) := by
  induction h with
  | @blank c _ _ _ hblank _ ih =>
    obtain ⟨blanks, hblanks, rfl⟩ := ih
    exact ⟨c :: blanks, List.forall_mem_cons.2 ⟨hblank, hblanks⟩, rfl⟩
  | doubleDot => exact ⟨[], List.forall_mem_nil _, rfl⟩
  | dot _ => exact ⟨[], List.forall_mem_nil _, rfl⟩
  | mark _ => exact ⟨[], List.forall_mem_nil _, by simp⟩
  | word _ _ _ => exact ⟨[], List.forall_mem_nil _, by simp [wordLexeme]⟩

theorem isMark_of_markOf? {c : Char} {kind : Terminal} (h : markOf? c = some kind) :
    Lexeme.IsMark ⟨kind, String.ofList [c]⟩ := by
  have hreserved : c ∈ reserved := mem_reserved_iff.2 (.inl (by rw [h]; rfl))
  refine ⟨?_, ?_, by simp, by simpa using hreserved⟩ <;> unfold markOf? at h <;> split at h <;>
    cases h <;> decide

/-- A lexeme is a mark, or a word that ends where no word goes on. -/
theorem Scans.kind (h : Scans text lexeme rest) :
    lexeme.IsMark ∨ IsWord lexeme.text ∧ lexeme = wordLexeme lexeme.text.toList ∧
      ∀ c ∈ rest.head?, isWordChar c = false := by
  induction h with
  | blank _ _ ih => exact ih
  | doubleDot => exact .inl ⟨rfl, by decide, by decide, by simp [reserved]⟩
  | dot _ => exact .inl ⟨rfl, by decide, by decide, by simp [reserved]⟩
  | mark h => exact .inl (isMark_of_markOf? h)
  | word hne hword hrest =>
    exact .inr ⟨⟨by simpa [wordLexeme], by simpa [wordLexeme]⟩, by simp [wordLexeme], hrest⟩

/-- No word goes on from a text into the text behind it. -/
def Apart (left right : List Char) : Prop :=
  ∀ c ∈ left.getLast?, ∀ d ∈ right.head?, isWordChar c = true → isWordChar d = false

/-- A part of a text that is a longest run of characters of words. -/
structure IsRun (left run right : List Char) : Prop where
  ne_nil : run ≠ []
  inside : ∀ c ∈ run, isWordChar c = true
  before : ∀ c ∈ left.getLast?, isWordChar c = false
  behind : ∀ c ∈ right.head?, isWordChar c = false

/-- No word goes on behind a lexeme. -/
theorem Scans.apart (h : Scans text lexeme rest) (front : List Char) :
    Apart (front ++ lexeme.text.toList) rest := by
  intro c hc d hd hword
  rcases h.kind with hmark | ⟨-, -, hrest⟩
  · rw [List.getLast?_append_of_ne_nil _ hmark.ne_nil] at hc
    rw [isWordChar_of_reserved (hmark.reserved c (List.mem_of_getLast? hc))] at hword
    cases hword
  · exact hrest d hd

/-- A word behind blanks is a longest run. -/
theorem Apart.isRun (hapart : Apart left (blanks ++ (lexeme.text.toList ++ rest)))
    (hblanks : ∀ c ∈ blanks, Text.isBlank c = true) (hword : IsWord lexeme.text)
    (hrest : ∀ c ∈ rest.head?, isWordChar c = false) :
    IsRun (left ++ blanks) lexeme.text.toList rest where
  ne_nil := hword.1
  inside := hword.2
  before c hc := by
    rcases List.eq_nil_or_concat blanks with rfl | ⟨front, blank, rfl⟩
    · -- Without blanks the word stands right behind the other text, of which no word goes on.
      obtain ⟨d, ds, hds⟩ := List.exists_cons_of_ne_nil hword.1
      have hd : isWordChar d = true := hword.2 d (by simp [hds])
      rw [List.append_nil] at hc
      by_contra hnot
      have hcut := hapart c hc d (by simp [hds]) (by simpa using hnot)
      rw [hd] at hcut
      cases hcut
    · have hlast : blank = c := by simpa [← List.append_assoc] using hc
      have hblank := hblanks blank (by simp)
      simp [isWordChar, ← hlast, hblank]
  behind := hrest

/-- A lexeme in its place: the earlier lexemes are made of what stands before it, the later ones of
what stands behind it, and a word is a longest run there. -/
structure Placed (front text : List Char) (earlier : List Lexeme) (lexeme : Lexeme)
    (later : List Lexeme) (left right : List Char) : Prop where
  split : text = left ++ (lexeme.text.toList ++ right)
  earlier : (joined earlier).toList = left.filter (!Text.isBlank ·)
  later : (joined later).toList = right.filter (!Text.isBlank ·)
  run : lexeme.isWord = true → IsRun (front ++ left) lexeme.text.toList right

/-- By induction on the lexemes: each one is followed by the rest of the text, which is apart from
what stands before it. -/
theorem lexemes_placed (front text : List Char) (hapart : Apart front text)
    {earlier later : List Lexeme} (h : lexemes text = earlier ++ lexeme :: later) :
    ∃ left right, Placed front text earlier lexeme later left right := by
  induction text using lexemes_induction generalizing front earlier with
  | blank text hblank =>
    rw [lexemes_of_blank hblank] at h
    cases earlier <;> cases h
  | more text first rest hscans ih =>
    obtain ⟨blanks, hblanks, rfl⟩ := hscans.exists_blanks
    have hempty : blanks.filter (!Text.isBlank ·) = [] :=
      List.filter_eq_nil_iff.2 fun c hc => by simp [hblanks c hc]
    rw [lexemes_of_scans hscans] at h
    cases earlier with
    | nil =>
      cases h
      refine ⟨blanks, rest, rfl, by rw [hempty]; rfl, joined_lexemes rest, fun hword => ?_⟩
      rcases hscans.kind with hmark | ⟨hchars, -, hrest⟩
      · rw [hmark.isWord] at hword
        cases hword
      · exact hapart.isRun hblanks hchars hrest
    | cons _ earlier =>
      obtain ⟨rfl, hlater⟩ := List.cons.inj h
      obtain ⟨left, right, hsplit, hearlier, hbehind, hrun⟩ :=
        ih (front ++ blanks ++ first.text.toList) (hscans.apart _) hlater
      refine ⟨blanks ++ first.text.toList ++ left, right, ?_, ?_, hbehind, ?_⟩
      · rw [hsplit]
        simp
      · have hfirst := hscans.filter
        rw [List.filter_append, hempty, List.nil_append, List.filter_append] at hfirst
        have hwhole := List.append_cancel_right hfirst
        rw [List.filter_append, List.filter_append, hempty, hwhole, ← hearlier, joined,
          List.map_cons, String.join_cons, String.toList_append]
        rfl
      · simpa using hrun

/-! ### Texts -/

/-- How a text is read as some lexemes, however a lexer on it is called. -/
structure Reads (text : String) (found : List Lexeme) : Prop where
  /-- The lexemes are the text without its blanks. -/
  joined : (joined found).toList = text.toList.filter (!Text.isBlank ·)
  /-- There is at most one lexeme for each character, and none of them is the end. -/
  length_le : found.length ≤ text.length
  ne_eof : ∀ lexeme ∈ found, lexeme.terminal ≠ .eof
  /-- A word is a longest run of characters that are neither blank nor reserved, in its place. -/
  words : ∀ earlier lexeme later, found = earlier ++ lexeme :: later → lexeme.isWord = true →
    ∃ left right, text.toList = left ++ (lexeme.text.toList ++ right) ∧
      IsRun left lexeme.text.toList right ∧
      (TypeName.joined earlier).toList = left.filter (!Text.isBlank ·) ∧
      (TypeName.joined later).toList = right.filter (!Text.isBlank ·)
  /-- A word is a number exactly when all its characters are digits. -/
  numbers : ∀ lexeme ∈ found, lexeme.isWord = true →
    (lexeme.terminal = .number ↔ ∀ c ∈ lexeme.text.toList, isDigit c = true)
  /-- All other lexemes are made of reserved characters. -/
  marks : ∀ lexeme ∈ found, lexeme.isWord = false → lexeme.IsMark
  /-- Whatever the calls, each is answered with the lexeme behind those that were taken before, and
  with the end when all have been taken. -/
  answers : ∀ calls : List Lexer.Call, Lexer.answers calls (.ofText text) =
    calls.mapIdx fun i _ => found.getD ((calls.take i).count .next) .eof
  /-- Taking lexemes until the end comes, with looks ahead anywhere, takes all of them. -/
  all : ∀ looks : List Nat, Lexer.all looks text = found ++ [.eof]

theorem length_lexemes_le (text : List Char) : (lexemes text).length ≤ text.length := by
  induction text using lexemes_induction with
  | blank text h =>
    rw [lexemes_of_blank h]
    exact Nat.zero_le _
  | more text lexeme rest h ih =>
    have hshorter := scan_shortens (scan_eq_some_iff.2 h)
    rw [lexemes_of_scans h, List.length_cons]
    omega

theorem kind_of_mem_lexemes (h : lexeme ∈ lexemes text) :
    lexeme.IsMark ∨ IsWord lexeme.text ∧ lexeme = wordLexeme lexeme.text.toList := by
  induction text using lexemes_induction with
  | blank text hblank =>
    rw [lexemes_of_blank hblank] at h
    cases h
  | more text first rest hscans ih =>
    rw [lexemes_of_scans hscans] at h
    rcases List.mem_cons.1 h with rfl | hlater
    · exact hscans.kind.imp_right fun hword => ⟨hword.1, hword.2.1⟩
    · exact ih hlater

theorem wordLexeme_number_iff (cs : List Char) :
    (wordLexeme cs).terminal = .number ↔ ∀ c ∈ cs, isDigit c = true := by
  rw [← List.all_eq_true, wordLexeme]
  split_ifs with hdigits <;> simp [hdigits]

theorem ne_eof_of_mem_lexemes (h : lexeme ∈ lexemes text) : lexeme.terminal ≠ .eof := by
  rcases kind_of_mem_lexemes h with hmark | ⟨-, hword⟩
  · exact hmark.ne_eof
  · rw [hword]
    rcases terminal_wordLexeme lexeme.text.toList with hkind | hkind <;> rw [hkind] <;> decide

/-- **Lexers come to an end and lose nothing.** Calls in any order are answered with the lexemes of
a text, of which there is at most one for each character, and then with the end. Together the
lexemes are the text without its blanks, cut into marks and the longest words. -/
theorem reads_lexemes (text : String) : Reads text (lexemes text.toList) := by
  have hawaits : Lexer.Awaits (.ofText text) (lexemes text.toList) := .unseen rfl
  have hlength : (lexemes text.toList).length ≤ text.length := length_lexemes_le text.toList
  refine {
    joined := joined_lexemes text.toList
    length_le := hlength
    ne_eof := fun lexeme hmem => ne_eof_of_mem_lexemes hmem
    words := fun earlier lexeme later hfound hword => ?_
    numbers := fun lexeme hmem hword => ?_
    marks := fun lexeme hmem hnot => ?_
    answers := hawaits.answers
    all := fun looks =>
      hawaits.run (fun _ => ne_eof_of_mem_lexemes) looks (Nat.lt_succ_of_le hlength) 0 }
  · have hstart : Apart [] text.toList := fun _ hnone => nomatch hnone
    obtain ⟨left, right, hplaced⟩ := lexemes_placed [] text.toList hstart hfound
    exact ⟨left, right, hplaced.split, hplaced.run hword, hplaced.earlier, hplaced.later⟩
  · rcases kind_of_mem_lexemes hmem with hmark | ⟨-, heq⟩
    · rw [hmark.isWord] at hword
      cases hword
    · have hnumber := wordLexeme_number_iff lexeme.text.toList
      rwa [← heq] at hnumber
  · rcases kind_of_mem_lexemes hmem with hmark | ⟨-, heq⟩
    · exact hmark
    · rw [heq, isWord_wordLexeme] at hnot
      cases hnot

example :
    Lexer.answers [.peek, .next, .peek, .next, .next, .next] (.ofText "12 ..é3") =
      [⟨.number, "12"⟩, ⟨.number, "12"⟩, ⟨.doubleDot, ".."⟩, ⟨.doubleDot, ".."⟩,
        ⟨.identifier, "é3"⟩, .eof] := by
  decide

end CilMetadata.TypeName

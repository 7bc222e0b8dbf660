import Mathlib.Data.List.TakeWhile
import CilMetadata.TypeName.Parse

/-!
# Lexemes of texts

* `Scans` says how a text falls into its first lexeme and what follows, and `scan_eq_some_iff` that
  this is what taking a lexeme off does;
* `joined_lexemes`: lexemes lose nothing but blanks; `lexemes_append`: a text that opens with a mark
  is read apart from what stands before it;
* `Proper` lexemes have texts that suit their kinds (`proper_lexemes`);
* `Opens` tells the marks that a text may open with, and `lexemes_free` reads free text up to the
  comma behind it.
-/

namespace CilMetadata.TypeName

/-- What makes a word: some characters that are neither blanks nor marks. -/
def IsWord (text : String) : Prop :=
  text.toList ≠ [] ∧ ∀ c ∈ text.toList, isWordChar c = true

instance : DecidablePred IsWord := fun text =>
  decidable_of_iff (text.toList ≠ [] ∧ text.toList.all isWordChar = true)
    (and_congr_right' List.all_eq_true)

/-- A text falls into its first lexeme and what follows it. -/
inductive Scans : List Char → Lexeme → List Char → Prop
  | blank {c : Char} {text rest : List Char} {lexeme : Lexeme} (h : Text.isBlank c = true)
    (hscans : Scans text lexeme rest) : Scans (c :: text) lexeme rest
  | doubleDot {rest : List Char} : Scans ('.' :: '.' :: rest) ⟨.doubleDot, ".."⟩ rest
  | dot {rest : List Char} (h : rest.head? ≠ some '.') : Scans ('.' :: rest) ⟨.dot, "."⟩ rest
  | mark {c : Char} {kind : Terminal} {rest : List Char} (h : markOf? c = some kind) :
    Scans (c :: rest) ⟨kind, String.ofList [c]⟩ rest
  | word {cs rest : List Char} (hne : cs ≠ []) (hword : ∀ c ∈ cs, isWordChar c = true)
    (hrest : ∀ c ∈ rest.head?, isWordChar c = false) : Scans (cs ++ rest) (wordLexeme cs) rest

variable {c : Char} {text rest cs after : List Char} {lexeme : Lexeme} {kind : Terminal}

/-! ### Characters -/

theorem isBlank_of_mark (h : markOf? c = some kind) : Text.isBlank c = false := by
  unfold markOf? at h
  split at h <;> first | rfl | cases h

theorem ne_dot_of_mark (h : markOf? c = some kind) : c ≠ '.' := by
  rintro rfl
  cases h

theorem isWordChar_of_mark (h : markOf? c = some kind) : isWordChar c = false := by
  refine Bool.eq_false_iff.2 fun hword => ?_
  rw [(isWordChar_iff.1 hword).2.1] at h
  cases h

/-! ### First lexemes -/

theorem scan_blank (h : Text.isBlank c = true) : scan (c :: text) = scan text := by
  unfold scan
  rw [List.dropWhile_cons_of_pos h]

theorem scan_dot (h : rest.head? ≠ some '.') :
    scan ('.' :: rest) = some (⟨.dot, "."⟩, rest) := by
  unfold scan
  rw [List.dropWhile_cons_of_neg (by decide)]
  cases rest with
  | nil => rfl
  | cons c rest =>
    split
    · next heq => simp at heq
    · next heq => simp_all
    · next heq => simp_all
    · next c' rest' _ hdot heq => exact absurd (List.cons.inj heq).1.symm hdot

theorem scan_cons (hblank : Text.isBlank c = false) (hdot : c ≠ '.') :
    scan (c :: rest) =
      match markOf? c with
      | some kind => some (⟨kind, String.ofList [c]⟩, rest)
      | none =>
        some (wordLexeme ((c :: rest).takeWhile isWordChar), (c :: rest).dropWhile isWordChar) := by
  unfold scan
  rw [List.dropWhile_cons_of_neg (by simp [hblank])]
  split
  · next heq => simp at heq
  · next heq => simp_all
  · next heq => simp_all
  · next heq =>
    cases heq
    rfl

/-- Taking a lexeme off a text is what splits it. -/
theorem scan_of_scans (h : Scans text lexeme rest) : scan text = some (lexeme, rest) := by
  induction h with
  | blank h _ ih => rw [scan_blank h, ih]
  | doubleDot => rfl
  | dot h => exact scan_dot h
  | mark h => rw [scan_cons (isBlank_of_mark h) (ne_dot_of_mark h), h]
  | @word cs rest hne hword hrest =>
    obtain ⟨c, cs, rfl⟩ := List.exists_cons_of_ne_nil hne
    obtain ⟨hblank, hmark, hdot⟩ := isWordChar_iff.1 (hword c List.mem_cons_self)
    have htake : rest.takeWhile isWordChar = [] := by
      cases rest with
      | nil => rfl
      | cons d rest => exact List.takeWhile_cons_of_neg (by simp [hrest d rfl])
    have hdrop : rest.dropWhile isWordChar = rest := by
      cases rest with
      | nil => rfl
      | cons d rest => exact List.dropWhile_cons_of_neg (by simp [hrest d rfl])
    rw [List.cons_append, scan_cons hblank hdot, hmark]
    dsimp only
    rw [← List.cons_append, List.takeWhile_append_of_pos hword, List.dropWhile_append_of_pos hword,
      htake, hdrop, List.append_nil]

theorem scans_of_scan (h : scan text = some (lexeme, rest)) : Scans text lexeme rest := by
  induction text with
  | nil => cases h
  | cons c text ih =>
    by_cases hblank : Text.isBlank c = true
    · rw [scan_blank hblank] at h
      exact .blank hblank (ih h)
    · have hblank := Bool.eq_false_iff.2 hblank
      by_cases hdot : c = '.'
      · subst hdot
        by_cases hhead : text.head? = some '.'
        · obtain ⟨rest', rfl⟩ := List.head?_eq_some_iff.1 hhead
          cases h
          exact .doubleDot
        · rw [scan_dot hhead] at h
          cases h
          exact .dot hhead
      · rw [scan_cons hblank hdot] at h
        cases hmark : markOf? c with
        | some kind =>
          rw [hmark] at h
          cases h
          exact .mark hmark
        | none =>
          rw [hmark] at h
          cases h
          have hc : isWordChar c = true := isWordChar_iff.2 ⟨hblank, hmark, hdot⟩
          have hscans : Scans ((c :: text).takeWhile isWordChar ++ (c :: text).dropWhile isWordChar)
              (wordLexeme ((c :: text).takeWhile isWordChar))
              ((c :: text).dropWhile isWordChar) := by
            refine .word ?_ (fun d => List.mem_takeWhile_imp) fun d hd => ?_
            · rw [List.takeWhile_cons_of_pos hc]
              exact List.cons_ne_nil _ _
            · have hnot := List.head?_dropWhile_not isWordChar (c :: text)
              rwa [hd] at hnot
          rwa [List.takeWhile_append_dropWhile] at hscans

theorem scan_eq_some_iff : scan text = some (lexeme, rest) ↔ Scans text lexeme rest :=
  ⟨scans_of_scan, scan_of_scans⟩

theorem scan_eq_none_iff : scan text = none ↔ ∀ c ∈ text, Text.isBlank c = true := by
  rw [← List.dropWhile_eq_nil_iff]
  unfold scan
  split
  · next heq => simp [heq]
  · next heq => simp [heq]
  · next heq => simp [heq]
  · next heq =>
    simp only [heq, reduceCtorEq, iff_false]
    split <;> simp

/-! ### All lexemes -/

theorem lexemes_of_scans (h : Scans text lexeme rest) :
    lexemes text = lexeme :: lexemes rest := by
  have hscan := scan_eq_some_iff.2 h
  rw [lexemes]
  split
  · next hnone => rw [hscan] at hnone; cases hnone
  · next hsome => rw [hscan] at hsome; cases hsome; rfl

theorem lexemes_of_blank (h : ∀ c ∈ text, Text.isBlank c = true) : lexemes text = [] := by
  have hscan := scan_eq_none_iff.2 h
  rw [lexemes]
  split
  · rfl
  · next hsome => rw [hscan] at hsome; cases hsome

theorem lexemes_cons_of_blank (h : Text.isBlank c = true) : lexemes (c :: text) = lexemes text := by
  cases hscan : scan text with
  | none =>
    have hblank := scan_eq_none_iff.1 hscan
    rw [lexemes_of_blank hblank, lexemes_of_blank (List.forall_mem_cons.2 ⟨h, hblank⟩)]
  | some found =>
    have hscans := scan_eq_some_iff.1 hscan
    rw [lexemes_of_scans hscans, lexemes_of_scans (.blank h hscans)]

/-- What holds of a text that is blank, and of one that falls into a lexeme and a text of which it
holds, holds of every text. -/
theorem lexemes_induction {P : List Char → Prop}
    (blank : ∀ text, (∀ c ∈ text, Text.isBlank c = true) → P text)
    (more : ∀ text lexeme rest, Scans text lexeme rest → P rest → P text) (text : List Char) :
    P text := by
  induction text using lexemes.induct with
  | case1 text h => exact blank text (scan_eq_none_iff.1 h)
  | case2 text lexeme rest h _ ih => exact more text lexeme rest (scan_eq_some_iff.1 h) ih

/-! ### What lexemes are made of -/

/-- Lexemes lose nothing but blanks. -/
theorem Scans.filter (h : Scans text lexeme rest) :
    text.filter (!Text.isBlank ·) = lexeme.text.toList ++ rest.filter (!Text.isBlank ·) := by
  induction h with
  | blank h _ ih => rw [List.filter_cons_of_neg (by simp [h]), ih]
  | doubleDot => rfl
  | dot _ => rfl
  | mark h =>
    rw [List.filter_cons_of_pos (by simp [isBlank_of_mark h]), String.toList_ofList]
    rfl
  | @word cs _ _ hword _ =>
    have hall : ∀ c ∈ cs, (!Text.isBlank c) = true := fun c hc => by
      simp [(isWordChar_iff.1 (hword c hc)).1]
    rw [List.filter_append, List.filter_eq_self.2 hall, wordLexeme, String.toList_ofList]

theorem joined_lexemes (text : List Char) :
    (joined (lexemes text)).toList = text.filter (!Text.isBlank ·) := by
  induction text using lexemes_induction with
  | blank text h =>
    rw [lexemes_of_blank h, List.filter_eq_nil_iff.2 (by simpa using h)]
    rfl
  | more text lexeme rest h ih =>
    rw [h.filter, ← ih, lexemes_of_scans h, joined, List.map_cons, String.join_cons,
      String.toList_append]
    rfl

/-- A text that opens with a mark is read apart from what stands before it. -/
theorem Scans.append (h : Scans text lexeme rest)
    (hafter : ∀ c ∈ after.head?, (markOf? c).isSome = true) :
    Scans (text ++ after) lexeme (rest ++ after) := by
  have hstop : ∀ {rest : List Char}, (∀ c ∈ rest.head?, isWordChar c = false) →
      ∀ c ∈ (rest ++ after).head?, isWordChar c = false := by
    intro rest hrest c hc
    cases rest with
    | nil =>
      obtain ⟨kind, hkind⟩ := Option.isSome_iff_exists.1 (hafter c hc)
      exact isWordChar_of_mark hkind
    | cons d rest => exact hrest c hc
  induction h with
  | blank h _ ih => exact .blank h ih
  | doubleDot => exact .doubleDot
  | @dot rest h =>
    refine .dot ?_
    cases rest with
    | nil =>
      intro hdot
      have := hafter _ hdot
      cases this
    | cons d rest => exact h
  | mark h => exact .mark h
  | word hne hword hrest =>
    rw [List.append_assoc]
    exact .word hne hword (hstop hrest)

theorem lexemes_append (hafter : ∀ c ∈ after.head?, (markOf? c).isSome = true) (text : List Char) :
    lexemes (text ++ after) = lexemes text ++ lexemes after := by
  induction text using lexemes_induction with
  | blank text h =>
    rw [lexemes_of_blank h, List.nil_append]
    induction text with
    | nil => rfl
    | cons c text ih =>
      obtain ⟨hc, htext⟩ := List.forall_mem_cons.1 h
      rw [List.cons_append, lexemes_cons_of_blank hc, ih htext]
  | more text lexeme rest h ih =>
    rw [lexemes_of_scans (h.append hafter), lexemes_of_scans h, ih, List.cons_append]

/-! ### Free text -/

/-- Whether a character may stand in the name of an assembly and in values. -/
def isFreeChar (c : Char) : Bool := !Text.isBlank c && c != ',' && c != ']'

/-- Text that may be the name of an assembly or a value, as far as its characters go. -/
def IsFree (text : String) : Prop := ∀ c ∈ text.toList, isFreeChar c = true

instance : DecidablePred IsFree := fun text =>
  decidable_of_iff (text.toList.all isFreeChar = true) List.all_eq_true

theorem isFreeChar_of_mark (h : markOf? c = some kind) :
    isFreeChar c = true ↔ kind ≠ .comma ∧ kind ≠ .closeBracket := by
  unfold markOf? at h
  split at h <;> cases h <;> decide

theorem isFreeChar_of_isWordChar (h : isWordChar c = true) : isFreeChar c = true := by
  obtain ⟨hblank, hmark, -⟩ := isWordChar_iff.1 h
  have hcomma : c ≠ ',' := by
    rintro rfl
    cases hmark
  have hbracket : c ≠ ']' := by
    rintro rfl
    cases hmark
  simp [isFreeChar, hblank, hcomma, hbracket]

theorem terminal_wordLexeme (cs : List Char) :
    (wordLexeme cs).terminal = .number ∨ (wordLexeme cs).terminal = .identifier := by
  unfold wordLexeme
  split_ifs <;> simp

theorem isWord_wordLexeme (cs : List Char) : (wordLexeme cs).isWord = true := by
  rcases terminal_wordLexeme cs with h | h <;> simp [Lexeme.isWord, h]

/-- A lexeme belongs to free text exactly when its characters do. -/
theorem Scans.isFree_iff (h : Scans text lexeme rest) :
    lexeme.isFree = true ↔ IsFree lexeme.text := by
  induction h with
  | blank _ _ ih => exact ih
  | doubleDot => decide
  | dot _ => decide
  | mark h =>
    simp only [Lexeme.isFree, IsFree, String.toList_ofList, List.forall_mem_singleton,
      isFreeChar_of_mark h, Bool.and_eq_true, bne_iff_ne]
  | @word cs _ _ hword _ =>
    have hfree : IsFree (wordLexeme cs).text := fun c hc =>
      isFreeChar_of_isWordChar (hword c (by simpa [wordLexeme] using hc))
    refine iff_of_true ?_ hfree
    rcases terminal_wordLexeme cs with h | h <;> simp [Lexeme.isFree, h]

theorem Scans.isWord (h : Scans text lexeme rest) (hword : lexeme.isWord = true) :
    IsWord lexeme.text := by
  induction h with
  | blank _ _ ih => exact ih hword
  | doubleDot => cases hword
  | dot _ => cases hword
  | mark h =>
    unfold markOf? at h
    split at h <;> cases h <;> cases hword
  | word hne hword _ => exact ⟨by simpa [wordLexeme], by simpa [wordLexeme]⟩

/-- Lexemes the texts of which suit their kinds. -/
def Proper (found : List Lexeme) : Prop :=
  ∀ lexeme ∈ found, (lexeme.isWord = true → IsWord lexeme.text) ∧
    (lexeme.isFree = true ↔ IsFree lexeme.text)

theorem proper_lexemes (text : List Char) : Proper (lexemes text) := by
  induction text using lexemes_induction with
  | blank text h =>
    rw [lexemes_of_blank h]
    exact List.forall_mem_nil _
  | more text lexeme rest h ih =>
    rw [lexemes_of_scans h]
    exact List.forall_mem_cons.2 ⟨⟨h.isWord, h.isFree_iff⟩, ih⟩

theorem isFree_of_mem_lexemes (h : ∀ c ∈ text, isFreeChar c = true) :
    ∀ lexeme ∈ lexemes text, lexeme.isFree = true := by
  intro lexeme hlexeme
  refine (proper_lexemes text lexeme hlexeme).2.2 fun c hc => h c ?_
  have hjoined : c ∈ (joined (lexemes text)).toList := by
    rw [joined, String.toList_join]
    exact List.mem_flatMap.2 ⟨_, List.mem_map_of_mem hlexeme, hc⟩
  rw [joined_lexemes] at hjoined
  exact (List.mem_filter.1 hjoined).1

theorem joined_of_isFree {value : String} (h : IsFree value) :
    joined (lexemes value.toList) = value := by
  refine String.toList_inj.1 ?_
  rw [joined_lexemes, List.filter_eq_self]
  intro c hc
  have hfree := h c hc
  simp only [isFreeChar, Bool.and_eq_true] at hfree
  exact hfree.1.1

/-! ### What texts open with -/

/-- A text that opens with a mark of one of some kinds, or is empty. -/
def Opens (kinds : List Terminal) (text : List Char) : Prop :=
  ∀ c ∈ text.head?, ∃ kind ∈ kinds, markOf? c = some kind

namespace Opens

variable {kinds : List Terminal}

theorem nil : Opens kinds [] := fun _ h => nomatch h

theorem cons (h : markOf? c = some kind) (hkind : kind ∈ kinds) : Opens kinds (c :: text) := by
  rintro d hd
  cases hd
  exact ⟨kind, hkind, h⟩

theorem mono {more : List Terminal} (h : Opens kinds text) (hsubset : kinds ⊆ more) :
    Opens more text := fun c hc =>
  let ⟨kind, hkind, hmark⟩ := h c hc
  ⟨kind, hsubset hkind, hmark⟩

theorem isSome_markOf? (h : Opens kinds text) : ∀ c ∈ text.head?, (markOf? c).isSome = true := by
  intro c hc
  obtain ⟨kind, -, hmark⟩ := h c hc
  rw [hmark]
  rfl

theorem stops (h : Opens kinds text) : ∀ c ∈ text.head?, isWordChar c = false := by
  intro c hc
  obtain ⟨kind, -, hmark⟩ := h c hc
  exact isWordChar_of_mark hmark

/-- The first lexeme is of one of the kinds. -/
theorem terminal_mem (h : Opens kinds text) :
    ∀ lexeme ∈ (lexemes text).head?, lexeme.terminal ∈ kinds := by
  intro lexeme hlexeme
  cases text with
  | nil =>
    rw [lexemes_of_blank (List.forall_mem_nil _)] at hlexeme
    cases hlexeme
  | cons c text =>
    obtain ⟨kind, hkind, hmark⟩ := h c rfl
    rw [lexemes_of_scans (.mark hmark)] at hlexeme
    cases hlexeme
    exact hkind

end Opens

/-- Free text is read up to the comma behind it. -/
theorem lexemes_free {value : String} (h : IsFree value) (hafter : Opens [.comma] after) :
    (lexemes (value.toList ++ after)).takeWhile Lexeme.isFree = lexemes value.toList ∧
      (lexemes (value.toList ++ after)).dropWhile Lexeme.isFree = lexemes after := by
  have hfree := isFree_of_mem_lexemes h
  rw [lexemes_append hafter.isSome_markOf?, List.takeWhile_append_of_pos hfree,
    List.dropWhile_append_of_pos hfree]
  cases hfound : lexemes after with
  | nil => simp
  | cons lexeme found =>
    have hcomma : lexeme.terminal = .comma := by
      simpa using hafter.terminal_mem lexeme (by rw [hfound]; rfl)
    have hstop : ¬ lexeme.isFree = true := by simp [Lexeme.isFree, hcomma]
    rw [List.takeWhile_cons_of_neg hstop, List.dropWhile_cons_of_neg hstop, List.append_nil]
    exact ⟨rfl, rfl⟩

end CilMetadata.TypeName

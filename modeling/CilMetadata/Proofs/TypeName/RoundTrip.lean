import CilMetadata.Proofs.Fault
import CilMetadata.Proofs.TypeName.Lexemes

/-!
# Type names are read back

What a text says of a type outlives blanks and the three spellings of arrays: names that are read
are well-formed, and well-formed names are read back from their text.

* `WellFormed` says which names have a text that means them;
* `wordsAfter_marked`, `readSuffixes_text`, `readProperties_text` and `readAssembly_text` read the
  parts of a text, up to what `Opens` says of the text behind them;
* `wordsAfter_eq_ok`, `readSuffixes_eq_ok`, `readProperties_eq_ok`, `readAssembly_eq_ok` say what is
  read from lexemes that suit their kinds;
* `parse_text`: reading and writing in turn.
-/

namespace CilMetadata.TypeName

/-! ### Well-formed names -/

/-- An assembly with a name, the properties of which have words as keys. -/
structure Assembly.WellFormed (a : Assembly) : Prop where
  name_ne : a.name ≠ ""
  name_free : IsFree a.name
  properties : ∀ property ∈ a.properties, IsWord property.1 ∧ IsFree property.2

/-- A name made of words, with arrays of one rank or more. -/
structure WellFormed (t : TypeName) : Prop where
  qualifier : ∀ qualifier ∈ t.qualifier, ∃ segments : List String,
    segments ≠ [] ∧ (∀ segment ∈ segments, IsWord segment) ∧ qualifier = ".".intercalate segments
  name : IsWord t.name
  nested : ∀ name ∈ t.nested, IsWord name
  ranks : ∀ rank, Suffix.array rank ∈ t.suffixes → 1 ≤ rank
  assembly : ∀ assembly ∈ t.assembly, assembly.WellFormed

variable {found following : List Lexeme} {rest : List Char} {kind : Terminal}

/-! ### Words -/

theorem lexemes_word {name : String} (h : IsWord name)
    (hrest : ∀ c ∈ rest.head?, isWordChar c = false) :
    lexemes (name.toList ++ rest) = wordLexeme name.toList :: lexemes rest :=
  lexemes_of_scans (.word h.1 h.2 hrest)

theorem text_wordLexeme (name : String) : (wordLexeme name.toList).text = name :=
  String.ofList_toList

theorem word_wordLexeme (name : String) (found : List Lexeme) :
    word (wordLexeme name.toList :: found) = .ok (name, found) := by
  rw [word, if_pos (isWord_wordLexeme _), text_wordLexeme]

/-- Names, each behind a mark. -/
def marked (mark : Char) (names : List String) : List Char :=
  names.flatMap fun name => mark :: name.toList

/-- A character that separates words, and the kind of lexeme that it makes. -/
structure Separates (mark : Char) (kind : Terminal) : Prop where
  scans : ∀ {rest : List Char}, rest.head? ≠ some '.' →
    ∃ text, Scans (mark :: rest) ⟨kind, text⟩ rest
  stops : isWordChar mark = false

theorem separates_dot : Separates '.' .dot where
  scans h := ⟨_, .dot h⟩
  stops := by decide

theorem separates_plus : Separates '+' .plus where
  scans _ := ⟨_, .mark rfl⟩
  stops := by decide

theorem stops_marked {mark : Char} (hmark : isWordChar mark = false) (names : List String)
    (hrest : ∀ c ∈ rest.head?, isWordChar c = false) :
    ∀ c ∈ (marked mark names ++ rest).head?, isWordChar c = false := by
  cases names with
  | nil => exact hrest
  | cons name names =>
    rintro c hc
    cases hc
    exact hmark

theorem wordsAfter_of_head (h : ∀ lexeme ∈ found.head?, lexeme.terminal ≠ kind) :
    wordsAfter kind found = .ok ([], found) := by
  cases found with
  | nil => rfl
  | cons lexeme found =>
    have hne := h lexeme rfl
    cases found with
    | nil => rw [wordsAfter, if_neg hne]
    | cons next found => rw [wordsAfter, if_neg hne]

/-- By induction on the names: each one is read behind its mark. -/
theorem wordsAfter_marked {mark : Char} (hseparates : Separates mark kind) {names : List String}
    (hnames : ∀ name ∈ names, IsWord name) (hrest : ∀ c ∈ rest.head?, isWordChar c = false)
    (hhead : ∀ lexeme ∈ (lexemes rest).head?, lexeme.terminal ≠ kind) :
    wordsAfter kind (lexemes (marked mark names ++ rest)) = .ok (names, lexemes rest) := by
  induction names with
  | nil => exact wordsAfter_of_head hhead
  | cons name names ih =>
    obtain ⟨hname, hnames⟩ := List.forall_mem_cons.1 hnames
    have hstop := stops_marked hseparates.stops names hrest
    have hdot : (name.toList ++ (marked mark names ++ rest)).head? ≠ some '.' := by
      intro hhead
      obtain ⟨c, cs, hcs⟩ := List.exists_cons_of_ne_nil hname.1
      rw [hcs] at hhead
      cases hhead
      exact absurd (hname.2 '.' (by simp [hcs])) (by decide)
    obtain ⟨text, hscans⟩ := hseparates.scans hdot
    have hsplit : marked mark (name :: names) ++ rest =
        mark :: (name.toList ++ (marked mark names ++ rest)) := by
      simp [marked]
    rw [hsplit, lexemes_of_scans hscans, lexemes_word hname hstop, wordsAfter, if_pos rfl,
      if_pos (isWord_wordLexeme _), ih hnames, text_wordLexeme]
    rfl

/-- The words of a name with a namespace are split before the last one. -/
theorem splitLast_append (segments : List String) (first name : String) :
    splitLast first (segments ++ [name]) = (some (".".intercalate (first :: segments)), name) := by
  induction segments generalizing first with
  | nil => rfl
  | cons segment segments ih =>
    rw [List.cons_append, splitLast, ih, String.intercalate_cons_cons]

/-! ### Suffixes -/

theorem lexemes_mark {c : Char} (h : markOf? c = some kind) (rest : List Char) :
    lexemes (c :: rest) = ⟨kind, String.ofList [c]⟩ :: lexemes rest :=
  lexemes_of_scans (.mark h)

/-- Commas in brackets are counted. -/
theorem arraySuffix_commas (rank n : Nat) (tail : List Char) :
    arraySuffix rank false (lexemes (List.replicate n ',' ++ ']' :: tail)) = (do
      let (more, following) ← readSuffixes (lexemes tail)
      return ((if rank + n = 1 then .szArray else .array (rank + n)) :: more, following)) := by
  induction n generalizing rank with
  | zero =>
    rw [List.replicate_zero, List.nil_append, lexemes_mark rfl, arraySuffix]
    simp
  | succ n ih =>
    rw [List.replicate_succ, List.cons_append, lexemes_mark rfl, arraySuffix]
    dsimp only
    rw [ih, Nat.add_right_comm, Nat.add_assoc]

theorem toList_text_array {rank : Nat} (h : rank ≠ 1) :
    (Suffix.array rank).text.toList = '[' :: (List.replicate (rank - 1) ',' ++ [']']) := by
  simp [Suffix.text]

/-- One suffix is read, whatever follows. -/
theorem readSuffixes_cons {suffix : Suffix} (hrank : ∀ rank, suffix = .array rank → 1 ≤ rank)
    (tail : List Char) :
    readSuffixes (lexemes (suffix.text.toList ++ tail)) = (do
      let (more, following) ← readSuffixes (lexemes tail)
      return (suffix :: more, following)) := by
  cases suffix with
  | pointer =>
    change readSuffixes (lexemes ('*' :: tail)) = _
    rw [lexemes_mark rfl, readSuffixes]
  | byRef =>
    change readSuffixes (lexemes ('&' :: tail)) = _
    rw [lexemes_mark rfl, readSuffixes]
  | szArray =>
    change readSuffixes (lexemes ('[' :: (List.replicate 0 ',' ++ ']' :: tail))) = _
    rw [lexemes_mark rfl, readSuffixes]
    exact arraySuffix_commas 1 0 tail
  | array rank =>
    match rank, hrank rank rfl with
    | 1, _ =>
      change readSuffixes (lexemes ('[' :: '*' :: ']' :: tail)) = _
      rw [lexemes_mark rfl, lexemes_mark rfl, lexemes_mark rfl, readSuffixes]
      dsimp only
      rw [arraySuffix]
      dsimp only
      rw [arraySuffix]
      simp
    | n + 2, _ =>
      rw [toList_text_array (by omega), List.cons_append, List.append_assoc, lexemes_mark rfl,
        readSuffixes]
      dsimp only [List.singleton_append]
      rw [arraySuffix_commas, if_neg (by omega)]
      congr! 6
      omega

theorem readSuffixes_of_head
    (h : ∀ lexeme ∈ found.head?, lexeme.terminal ∉ [.star, .ampersand, .openBracket]) :
    readSuffixes found = .ok ([], found) := by
  cases found with
  | nil => rw [readSuffixes]
  | cons lexeme found =>
    have hne := h lexeme rfl
    rw [readSuffixes]
    split <;> simp_all

theorem readSuffixes_text {suffixes : List Suffix}
    (hranks : ∀ rank, Suffix.array rank ∈ suffixes → 1 ≤ rank) (hrest : Opens [.comma] rest) :
    readSuffixes (lexemes (suffixes.flatMap (·.text.toList) ++ rest)) =
      .ok (suffixes, lexemes rest) := by
  induction suffixes with
  | nil =>
    refine readSuffixes_of_head fun lexeme hlexeme => ?_
    have hcomma := hrest.terminal_mem lexeme hlexeme
    simp_all
  | cons suffix suffixes ih =>
    have ih := ih fun rank hrank => hranks rank (List.mem_cons_of_mem _ hrank)
    have hrank : ∀ rank, suffix = .array rank → 1 ≤ rank := by
      rintro rank rfl
      exact hranks rank List.mem_cons_self
    rw [List.flatMap_cons, List.append_assoc, readSuffixes_cons hrank, ih]
    rfl

/-! ### Assemblies -/

/-- The properties of an assembly, each behind a comma. -/
def propertyChars (properties : List (String × String)) : List Char :=
  properties.flatMap fun property => (propertyText property).toList

theorem propertyChars_cons (property : String × String) (properties : List (String × String)) :
    propertyChars (property :: properties) = ',' :: ' ' ::
      (property.1.toList ++ '=' :: (property.2.toList ++ propertyChars properties)) := by
  simp [propertyChars, propertyText]

theorem opens_propertyChars (properties : List (String × String)) :
    Opens [.comma] (propertyChars properties) := by
  cases properties with
  | nil => exact .nil
  | cons property properties =>
    rw [propertyChars_cons]
    exact .cons rfl (by simp)

theorem readProperties_text {properties : List (String × String)}
    (h : ∀ property ∈ properties, IsWord property.1 ∧ IsFree property.2) :
    readProperties (lexemes (propertyChars properties)) = .ok (properties, []) := by
  induction properties with
  | nil =>
    rw [propertyChars, List.flatMap_nil, lexemes_of_blank (List.forall_mem_nil _), readProperties]
  | cons property properties ih =>
    obtain ⟨⟨hkey, hvalue⟩, hmore⟩ := List.forall_mem_cons.1 h
    have hstop : ∀ c ∈ ('=' :: (property.2.toList ++ propertyChars properties)).head?,
        isWordChar c = false := by
      rintro c hc
      cases hc
      decide
    obtain ⟨htake, hdrop⟩ := lexemes_free hvalue (opens_propertyChars properties)
    rw [propertyChars_cons, lexemes_mark rfl, lexemes_cons_of_blank rfl, lexemes_word hkey hstop,
      lexemes_mark rfl, readProperties, if_pos rfl]
    dsimp only
    rw [if_pos (isWord_wordLexeme _), if_pos rfl, htake, hdrop, ih hmore, joined_of_isFree hvalue,
      text_wordLexeme]
    rfl

/-- An assembly behind a comma, if there is one. -/
def assemblyChars : Option Assembly → List Char
  | none => []
  | some assembly => ',' :: ' ' :: (assembly.name.toList ++ propertyChars assembly.properties)

theorem opens_assemblyChars (assembly : Option Assembly) :
    Opens [.comma] (assemblyChars assembly) := by
  cases assembly with
  | none => exact .nil
  | some assembly => exact .cons rfl (by simp)

theorem readAssembly_text {assembly : Option Assembly} (h : ∀ a ∈ assembly, a.WellFormed) :
    readAssembly (lexemes (assemblyChars assembly)) = .ok (assembly, []) := by
  cases assembly with
  | none =>
    rw [assemblyChars, lexemes_of_blank (List.forall_mem_nil _), readAssembly]
  | some assembly =>
    obtain ⟨hne, hname, hproperties⟩ := h assembly rfl
    have hempty : ¬ assembly.name.isEmpty = true := by simpa using hne
    obtain ⟨htake, hdrop⟩ := lexemes_free hname (opens_propertyChars assembly.properties)
    rw [assemblyChars, lexemes_mark rfl, lexemes_cons_of_blank rfl, readAssembly, if_pos rfl,
      htake, hdrop, joined_of_isFree hname]
    dsimp only
    rw [if_neg hempty, readProperties_text hproperties]
    rfl

/-! ### Whole names -/

theorem toList_intercalate_dot (first : String) (segments : List String) :
    (".".intercalate (first :: segments)).toList = first.toList ++ marked '.' segments := by
  induction segments generalizing first with
  | nil => simp [marked]
  | cons segment segments ih =>
    rw [String.intercalate_cons_cons, String.toList_append, ih]
    simp [marked]

/-- The words of a name with its namespace. -/
theorem WellFormed.exists_words {t : TypeName} (h : t.WellFormed) :
    ∃ first more, IsWord first ∧ (∀ name ∈ more, IsWord name) ∧
      t.fullName.toList = first.toList ++ marked '.' more ∧
      splitLast first more = (t.qualifier, t.name) := by
  cases hqualifier : t.qualifier with
  | none =>
    refine ⟨t.name, [], h.name, List.forall_mem_nil _, ?_, rfl⟩
    simp [fullName, hqualifier, marked]
  | some qualifier =>
    obtain ⟨segments, hne, hsegments, rfl⟩ := h.qualifier qualifier hqualifier
    obtain ⟨first, segments, rfl⟩ := List.exists_cons_of_ne_nil hne
    obtain ⟨hfirst, hsegments⟩ := List.forall_mem_cons.1 hsegments
    refine ⟨first, segments ++ [t.name], hfirst, ?_, ?_, splitLast_append segments first t.name⟩
    · exact List.forall_mem_append.2 ⟨hsegments, List.forall_mem_singleton.2 h.name⟩
    · rw [fullName, hqualifier]
      dsimp only
      rw [String.toList_append, String.toList_append, toList_intercalate_dot]
      simp [marked]

/-- The characters of a name in text, part by part. -/
theorem toList_text (t : TypeName) :
    t.text.toList = t.fullName.toList ++ (marked '+' t.nested ++
      (t.suffixes.flatMap (·.text.toList) ++ assemblyChars t.assembly)) := by
  unfold text
  cases t.assembly <;>
    simp [String.toList_join, List.flatMap_map, marked, assemblyChars, Assembly.text, propertyChars]

theorem opens_suffixes (suffixes : List Suffix) (hrest : Opens [.comma] rest) :
    Opens [.star, .ampersand, .openBracket, .comma]
      (suffixes.flatMap (·.text.toList) ++ rest) := by
  cases suffixes with
  | nil => exact hrest.mono (by simp)
  | cons suffix suffixes =>
    rw [List.flatMap_cons, List.append_assoc]
    generalize suffixes.flatMap (·.text.toList) ++ rest = tail
    cases suffix with
    | pointer => exact .cons rfl (by simp)
    | byRef => exact .cons rfl (by simp)
    | szArray => exact .cons rfl (by simp)
    | array rank =>
      by_cases hrank : rank = 1
      · subst hrank
        exact .cons rfl (by simp)
      · rw [toList_text_array hrank]
        exact .cons rfl (by simp)

theorem opens_marked_plus (names : List String)
    (hrest : Opens [.star, .ampersand, .openBracket, .comma] rest) :
    Opens [.plus, .star, .ampersand, .openBracket, .comma] (marked '+' names ++ rest) := by
  cases names with
  | nil => exact hrest.mono (by simp)
  | cons name names => exact .cons rfl (by simp)

/-- A well-formed name is read back from its text. -/
theorem parse_text_of_wellFormed {t : TypeName} (h : t.WellFormed) : parse t.text = .ok t := by
  obtain ⟨first, more, hfirst, hmore, hchars, hsplit⟩ := h.exists_words
  have hassembly := opens_assemblyChars t.assembly
  have hsuffixes := opens_suffixes t.suffixes hassembly
  have hnested := opens_marked_plus t.nested hsuffixes
  have hwords := wordsAfter_marked separates_dot hmore hnested.stops fun lexeme hlexeme hdot => by
    have := hnested.terminal_mem lexeme hlexeme
    simp [hdot] at this
  have hinner := wordsAfter_marked separates_plus h.nested hsuffixes.stops
    fun lexeme hlexeme hplus => by
      have := hsuffixes.terminal_mem lexeme hlexeme
      simp [hplus] at this
  have hstop := stops_marked separates_dot.stops more hnested.stops
  have hlexemes : ofLexemes (lexemes t.text.toList) = .ok (t, []) := by
    rw [toList_text, hchars, List.append_assoc, lexemes_word hfirst hstop]
    refine Fault.bind_eq_ok.2 ⟨_, word_wordLexeme first _, ?_⟩
    refine Fault.bind_eq_ok.2 ⟨_, hwords, ?_⟩
    refine Fault.bind_eq_ok.2 ⟨_, hinner, ?_⟩
    refine Fault.bind_eq_ok.2 ⟨_, readSuffixes_text h.ranks hassembly, ?_⟩
    refine Fault.bind_eq_ok.2 ⟨_, readAssembly_text h.assembly, ?_⟩
    dsimp only
    rw [hsplit]
    rfl
  rw [parse, hlexemes]
  rfl

/-! ### What is read -/

theorem word_eq_ok {name : String} (h : word found = .ok (name, following))
    (hfound : Proper found) : IsWord name ∧ Proper following := by
  cases found with
  | nil => cases h
  | cons lexeme found =>
    obtain ⟨hlexeme, hfound⟩ := List.forall_mem_cons.1 hfound
    rw [word] at h
    split_ifs at h with hword
    cases h
    exact ⟨hlexeme.1 hword, hfound⟩

theorem wordsAfter_eq_ok {names : List String} (h : wordsAfter kind found = .ok (names, following))
    (hfound : Proper found) : (∀ name ∈ names, IsWord name) ∧ Proper following := by
  induction found using wordsAfter.induct kind generalizing names with
  | case1 =>
    cases h
    exact ⟨List.forall_mem_nil _, hfound⟩
  | case2 lexeme hkind =>
    rw [wordsAfter, if_pos hkind] at h
    cases h
  | case3 lexeme hkind =>
    rw [wordsAfter, if_neg hkind] at h
    cases h
    exact ⟨List.forall_mem_nil _, hfound⟩
  | case4 lexeme next rest hkind hword ih =>
    obtain ⟨-, hnext, hrest⟩ : _ ∧ _ ∧ Proper rest := by
      simpa only [Proper, List.forall_mem_cons] using hfound
    rw [wordsAfter, if_pos hkind, if_pos hword] at h
    obtain ⟨⟨more, _⟩, hmore, hpure⟩ := Fault.bind_eq_ok.1 h
    cases hpure
    obtain ⟨hnames, hfollowing⟩ := ih hmore hrest
    exact ⟨List.forall_mem_cons.2 ⟨hnext.1 hword, hnames⟩, hfollowing⟩
  | case5 lexeme next rest hkind hword =>
    rw [wordsAfter, if_pos hkind, if_neg hword] at h
    cases h
  | case6 lexeme next rest hkind =>
    rw [wordsAfter, if_neg hkind] at h
    cases h
    exact ⟨List.forall_mem_nil _, hfound⟩

mutual

/-- Arrays are read with a rank of one or more. -/
theorem readSuffixes_eq_ok : ∀ {found following : List Lexeme} {suffixes : List Suffix},
    readSuffixes found = .ok (suffixes, following) → Proper found →
    (∀ rank, Suffix.array rank ∈ suffixes → 1 ≤ rank) ∧ Proper following
  | [], following, suffixes, h, hfound => by
    rw [readSuffixes] at h
    cases h
    exact ⟨by simp, hfound⟩
  | lexeme :: rest, following, suffixes, h, hfound => by
    obtain ⟨-, hrest⟩ := List.forall_mem_cons.1 hfound
    rw [readSuffixes] at h
    split at h
    · obtain ⟨⟨more, _⟩, hmore, hpure⟩ := Fault.bind_eq_ok.1 h
      cases hpure
      obtain ⟨hranks, hfollowing⟩ := readSuffixes_eq_ok hmore hrest
      exact ⟨by simpa using hranks, hfollowing⟩
    · obtain ⟨⟨more, _⟩, hmore, hpure⟩ := Fault.bind_eq_ok.1 h
      cases hpure
      obtain ⟨hranks, hfollowing⟩ := readSuffixes_eq_ok hmore hrest
      exact ⟨by simpa using hranks, hfollowing⟩
    · exact arraySuffix_eq_ok (Nat.le_refl 1) h hrest
    · cases h
      exact ⟨by simp, hfound⟩

theorem arraySuffix_eq_ok : ∀ {found following : List Lexeme} {suffixes : List Suffix} {rank : Nat}
    {bounded : Bool}, 1 ≤ rank →
    arraySuffix rank bounded found = .ok (suffixes, following) → Proper found →
    (∀ rank, Suffix.array rank ∈ suffixes → 1 ≤ rank) ∧ Proper following
  | [], following, suffixes, rank, bounded, hrank, h, hfound => by
    rw [arraySuffix] at h
    cases h
  | lexeme :: rest, following, suffixes, rank, bounded, hrank, h, hfound => by
    obtain ⟨-, hrest⟩ := List.forall_mem_cons.1 hfound
    rw [arraySuffix] at h
    split at h
    · exact arraySuffix_eq_ok (Nat.le_succ_of_le hrank) h hrest
    · exact arraySuffix_eq_ok hrank h hrest
    · obtain ⟨⟨more, _⟩, hmore, hpure⟩ := Fault.bind_eq_ok.1 h
      cases hpure
      obtain ⟨hranks, hfollowing⟩ := readSuffixes_eq_ok hmore hrest
      refine ⟨fun other hother => ?_, hfollowing⟩
      rcases List.mem_cons.1 hother with hfirst | hother
      · split_ifs at hfirst
        cases hfirst
        exact hrank
      · exact hranks other hother
    · cases h

end

theorem isFree_joined (hfound : Proper found) :
    IsFree (joined (found.takeWhile Lexeme.isFree)) := by
  intro c hc
  rw [joined, String.toList_join, List.mem_flatMap] at hc
  obtain ⟨text, htext, hc⟩ := hc
  obtain ⟨lexeme, hlexeme, rfl⟩ := List.mem_map.1 htext
  have hmem := (List.takeWhile_prefix _).subset hlexeme
  exact (hfound lexeme hmem).2.1 (List.mem_takeWhile_imp hlexeme) c hc

theorem proper_dropWhile (hfound : Proper found) : Proper (found.dropWhile Lexeme.isFree) :=
  fun lexeme hlexeme => hfound lexeme ((List.dropWhile_suffix _).subset hlexeme)

theorem readProperties_eq_ok {properties : List (String × String)}
    (h : readProperties found = .ok (properties, following)) (hfound : Proper found) :
    (∀ property ∈ properties, IsWord property.1 ∧ IsFree property.2) ∧ Proper following := by
  induction found using readProperties.induct generalizing properties with
  | case1 =>
    rw [readProperties] at h
    cases h
    exact ⟨List.forall_mem_nil _, hfound⟩
  | case4 lexeme hcomma key hkey equals rest hequals ih =>
    obtain ⟨-, hkeyword, -, hrest⟩ : _ ∧ _ ∧ _ ∧ Proper rest := by
      simpa only [Proper, List.forall_mem_cons] using hfound
    unfold readProperties at h
    simp only [if_pos hcomma, if_pos hkey, if_pos hequals] at h
    obtain ⟨⟨more, _⟩, hmore, hpure⟩ := Fault.bind_eq_ok.1 h
    cases hpure
    obtain ⟨hproperties, hfollowing⟩ := ih hmore (proper_dropWhile hrest)
    exact ⟨List.forall_mem_cons.2 ⟨⟨hkeyword.1 hkey, isFree_joined hrest⟩, hproperties⟩, hfollowing⟩
  | case7 lexeme rest hcomma =>
    unfold readProperties at h
    simp only [if_neg hcomma] at h
    cases h
    exact ⟨List.forall_mem_nil _, hfound⟩
  | case2 | case3 | case5 | case6 =>
    unfold readProperties at h
    simp_all

theorem readAssembly_eq_ok {assembly : Option Assembly}
    (h : readAssembly found = .ok (assembly, following)) (hfound : Proper found) :
    (∀ a ∈ assembly, a.WellFormed) ∧ Proper following := by
  cases found with
  | nil =>
    cases h
    exact ⟨by simp, hfound⟩
  | cons lexeme rest =>
    obtain ⟨-, hrest⟩ := List.forall_mem_cons.1 hfound
    rw [readAssembly] at h
    split_ifs at h with hcomma
    · dsimp only at h
      split_ifs at h with hempty
      obtain ⟨⟨properties, _⟩, hproperties, hpure⟩ := Fault.bind_eq_ok.1 h
      cases hpure
      obtain ⟨hall, hfollowing⟩ := readProperties_eq_ok hproperties (proper_dropWhile hrest)
      refine ⟨?_, hfollowing⟩
      rintro a ⟨⟩
      exact ⟨by simpa using hempty, isFree_joined hrest, hall⟩
    · cases h
      exact ⟨by simp, hfound⟩

/-- The words of a name are put together as its namespace and its name. -/
theorem splitLast_eq {first name : String} {more : List String} {qualifier : Option String}
    (h : splitLast first more = (qualifier, name)) (hfirst : IsWord first)
    (hmore : ∀ word ∈ more, IsWord word) :
    (∀ q ∈ qualifier, ∃ segments : List String, segments ≠ [] ∧
      (∀ segment ∈ segments, IsWord segment) ∧ q = ".".intercalate segments) ∧ IsWord name := by
  rcases List.eq_nil_or_concat more with rfl | ⟨segments, last, rfl⟩
  · cases h
    exact ⟨by simp, hfirst⟩
  · rw [List.concat_eq_append] at h hmore
    rw [splitLast_append] at h
    cases h
    obtain ⟨hsegments, hlast⟩ := List.forall_mem_append.1 hmore
    refine ⟨?_, hlast _ List.mem_cons_self⟩
    rintro q ⟨⟩
    exact ⟨first :: segments, List.cons_ne_nil _ _,
      List.forall_mem_cons.2 ⟨hfirst, hsegments⟩, rfl⟩

/-- What is read is well-formed. -/
theorem wellFormed_of_parse {s : String} {t : TypeName} (h : parse s = .ok t) : t.WellFormed := by
  obtain ⟨⟨name, following⟩, hname, hend⟩ := Fault.bind_eq_ok.1 h
  obtain ⟨⟨first, afterWord⟩, hfirst, hname⟩ := Fault.bind_eq_ok.1 hname
  obtain ⟨⟨more, afterWords⟩, hmore, hname⟩ := Fault.bind_eq_ok.1 hname
  obtain ⟨⟨nested, afterNested⟩, hnested, hname⟩ := Fault.bind_eq_ok.1 hname
  obtain ⟨⟨suffixes, afterSuffixes⟩, hsuffixes, hname⟩ := Fault.bind_eq_ok.1 hname
  obtain ⟨⟨assembly, afterAssembly⟩, hassembly, hname⟩ := Fault.bind_eq_ok.1 hname
  obtain ⟨hfirst_word, hproper⟩ := word_eq_ok hfirst (proper_lexemes s.toList)
  obtain ⟨hmore_words, hproper⟩ := wordsAfter_eq_ok hmore hproper
  obtain ⟨hnested_words, hproper⟩ := wordsAfter_eq_ok hnested hproper
  obtain ⟨hranks, hproper⟩ := readSuffixes_eq_ok hsuffixes hproper
  obtain ⟨hassembly_wellFormed, -⟩ := readAssembly_eq_ok hassembly hproper
  obtain ⟨hqualifier, hlast⟩ := splitLast_eq rfl hfirst_word hmore_words
  cases hname
  cases following with
  | nil =>
    cases hend
    exact ⟨hqualifier, hlast, hnested_words, hranks, hassembly_wellFormed⟩
  | cons lexeme following => cases hend

/-- Read a text as a name and write the name again. -/
def respell (s : String) : Except Fault String := return (← parse s).text

/-- What is read is well-formed and is read again from its text, so that a second round changes no
text; and every well-formed name is read back from its text. -/
theorem parse_text :
    (∀ s t, parse s = .ok t → t.WellFormed ∧ parse t.text = .ok t) ∧
    (∀ s, respell s >>= respell = respell s) ∧
    ∀ t : TypeName, t.WellFormed → parse t.text = .ok t := by
  refine ⟨fun s t h => ⟨wellFormed_of_parse h, parse_text_of_wellFormed (wellFormed_of_parse h)⟩,
    fun s => ?_, fun t => parse_text_of_wellFormed⟩
  cases h : parse s with
  | error fault =>
    rw [respell, h]
    rfl
  | ok t =>
    have hagain := parse_text_of_wellFormed (wellFormed_of_parse h)
    have hfirst : respell s = .ok t.text := by
      rw [respell, h]
      rfl
    have hsecond : respell t.text = .ok t.text := by
      rw [respell, hagain]
      rfl
    rw [hfirst]
    exact hsecond

/-- A nested type of an assembly, with suffixes of all kinds. -/
def enumeratorName : TypeName where
  qualifier := some "System.Collections"
  name := "List`1"
  nested := ["Enumerator"]
  suffixes := [.pointer, .byRef, .szArray, .array 2, .array 1]
  assembly := some ⟨"My..App=1", [("Version", "1.2.3.4"), ("Culture", "")]⟩

theorem wellFormed_enumeratorName : enumeratorName.WellFormed where
  qualifier := by
    rintro q ⟨⟩
    exact ⟨["System", "Collections"], by simp, by decide, rfl⟩
  name := by decide
  nested := by decide
  ranks := by
    intro rank hrank
    simp [enumeratorName] at hrank
    omega
  assembly := by
    rintro a ⟨⟩
    exact ⟨by decide, by decide, by decide⟩

/-- The name is read from its text, and its text from what has been read. -/
theorem parse_text_enumeratorName :
    enumeratorName.WellFormed ∧
    parse "System.Collections.List`1+Enumerator*&[][,][*], My..App=1, Version=1.2.3.4, Culture=" =
      .ok enumeratorName ∧
    parse enumeratorName.text = .ok enumeratorName := by
  have htext : enumeratorName.text =
      "System.Collections.List`1+Enumerator*&[][,][*], My..App=1, Version=1.2.3.4, Culture=" := by
    decide
  have hparse := parse_text.2.2 enumeratorName wellFormed_enumeratorName
  rw [htext] at hparse
  exact ⟨wellFormed_enumeratorName, hparse, (parse_text.1 _ _ hparse).2⟩

end CilMetadata.TypeName

import CilMetadata.Proofs.Signature.Resolution
import Mathlib.Data.List.Forall2

/-!
# Expansion stops at loops

Specifications may name each other in circles. A reading that expands them comes to an end all the
same, because it never goes into a specification inside of that specification.

* `TypeSig.Reaches` follows a tree from its root and notes the specifications it goes through;
  `Corresponds` follows along with it what the bytes say, up to the name that they give a modifier;
* `exists_corresponds`: whatever a tree reaches, the bytes say something there;
* `Corresponds.standsFor`: no way through a tree goes through a specification twice, and what is
  reached has been looked up inside of all the specifications on the way;
* `LoopSafe` is what this means for the tree, and `type_loopSafe` says that every reading ends, and
  that every tree it gives is of this kind.
-/

namespace CilMetadata

/-! ### Ways through a tree -/

/-- From the root of the tree one comes to the node through the given specifications, the outermost
one first. -/
inductive TypeSig.Reaches : (tree : TypeSig) → (through : List Token) → (node : TypeSig) → Prop
  | here {tree : TypeSig} : Reaches tree [] tree
  | wrapped {wrapper inner through node} (inside : Reaches inner through node) :
    Reaches (.wrapped wrapper inner) through node
  | array {base shape through node} (inside : Reaches base through node) :
    Reaches (.array base shape) through node
  | argument {form definition arguments argument through node} (among : argument ∈ arguments)
      (inside : Reaches argument through node) :
    Reaches (.applied form definition arguments) through node
  | modifier {required modifier base through node} (inside : Reaches modifier through node) :
    Reaches (.modified required modifier base) through node
  | base {required modifier base through node} (inside : Reaches base through node) :
    Reaches (.modified required modifier base) through node
  | expansion {token expansion through node} (inside : Reaches expansion through node) :
    Reaches (.typeSpec token expansion) (token :: through) node

/-- On the way from the root of the tree to the node, the bytes go from `plain` to `named`: inside
of a specification they are the ones of its blob. -/
inductive Corresponds (r : Resolver) :
    (tree plain : TypeSig) → (through : List Token) → (node named : TypeSig) → Prop
  | here {tree plain} : Corresponds r tree plain [] tree plain
  | wrapped {wrapper wrapper' tree plain through node named}
      (inside : Corresponds r tree plain through node named) :
    Corresponds r (.wrapped wrapper tree) (.wrapped wrapper' plain) through node named
  | array {shape shape' tree plain through node named}
      (inside : Corresponds r tree plain through node named) :
    Corresponds r (.array tree shape) (.array plain shape') through node named
  | argument {form definition form' definition' trees plains tree plain through node named}
      (among : (tree, plain) ∈ trees.zip plains)
      (inside : Corresponds r tree plain through node named) :
    Corresponds r (.applied form definition trees) (.applied form' definition' plains) through node
      named
  | modifier {required required' found plain base base' through node named}
      (inside : Corresponds r found plain through node named) :
    Corresponds r (.modified required found base) (.modified required' plain base') through node
      named
  | base {required required' found found' tree plain through node named}
      (inside : Corresponds r tree plain through node named) :
    Corresponds r (.modified required found tree) (.modified required' found' plain) through node
      named
  | expansion {token blob tree plain through node named} (found : r.specBlob? token = some blob)
      (said : SigDecoder.Says blob plain) (inside : Corresponds r tree plain through node named) :
    Corresponds r (.typeSpec token tree) (.named .cls token) (token :: through) node named

/-- The tree stands for what the bytes say, as a type or as a modifier. -/
def StandsFor (r : Resolver) (path : List Token) (tree plain : TypeSig) : Prop :=
  Resolves r path tree plain ∨ ResolvesModifier r path tree plain

/-- A specification that may be expanded inside the expansions of `path`. -/
structure Expandable (r : Resolver) (path : List Token) (token : Token) : Prop where
  known : r.isType token = true
  spec : token.isIn .typeSpec = true
  fresh : token ∉ path

variable {r : Resolver} {path through : List Token} {tree plain node named : TypeSig}

theorem ResolvesAll.exists_pair {trees plains : List TypeSig} (h : ResolvesAll r path trees plains)
    (hmem : tree ∈ trees) :
    ∃ plain, (tree, plain) ∈ trees.zip plains ∧ Resolves r path tree plain := by
  induction trees generalizing plains with
  | nil => cases hmem
  | cons first trees ih =>
    cases h with
    | @cons _ _ plainFirst _ plains hfirst hrest =>
      rcases List.mem_cons.1 hmem with rfl | hmem
      · exact ⟨plainFirst, by simp, hfirst⟩
      · obtain ⟨plain, hpair, hplain⟩ := ih hrest hmem
        exact ⟨plain, List.mem_cons_of_mem _ hpair, hplain⟩

/-- Whatever a tree reaches, the bytes say something there. -/
theorem exists_corresponds (hreach : tree.Reaches through node) (h : StandsFor r path tree plain) :
    ∃ named, Corresponds r tree plain through node named := by
  induction hreach generalizing path plain with
  | here => exact ⟨plain, .here⟩
  | wrapped _ ih =>
    rcases h with h | h
    · cases h with
      | wrapped hinner =>
        obtain ⟨named, hnamed⟩ := ih (.inl hinner)
        exact ⟨named, .wrapped hnamed⟩
    · cases h
  | array _ ih =>
    rcases h with h | h
    · cases h with
      | array hbase =>
        obtain ⟨named, hnamed⟩ := ih (.inl hbase)
        exact ⟨named, .array hnamed⟩
    · cases h
  | argument hmem _ ih =>
    rcases h with h | h
    · cases h with
      | applied _ harguments =>
        obtain ⟨plain, hpair, hplain⟩ := harguments.exists_pair hmem
        obtain ⟨named, hnamed⟩ := ih (.inl hplain)
        exact ⟨named, .argument hpair hnamed⟩
    · cases h
  | modifier _ ih =>
    rcases h with h | h
    · cases h with
      | modified hmodifier _ =>
        obtain ⟨named, hnamed⟩ := ih (.inr hmodifier)
        exact ⟨named, .modifier hnamed⟩
    · cases h
  | base _ ih =>
    rcases h with h | h
    · cases h with
      | modified _ hbase =>
        obtain ⟨named, hnamed⟩ := ih (.inl hbase)
        exact ⟨named, .base hnamed⟩
    · cases h
  | expansion _ ih =>
    rcases h with h | h
    · cases h
    · cases h with
      | expansion _ _ _ hfound hsaid hinner =>
        obtain ⟨named, hnamed⟩ := ih (.inl hinner)
        exact ⟨named, .expansion hfound hsaid hnamed⟩

/-- A way through a tree goes through each specification once, and through none of those that are
being expanded around the tree. What it reaches has been looked up inside of all of them. -/
theorem Corresponds.standsFor (hway : Corresponds r tree plain through node named)
    (h : StandsFor r path tree plain) :
    through.Nodup ∧ (∀ token ∈ through, Expandable r path token) ∧
      StandsFor r (through.reverse ++ path) node named := by
  induction hway generalizing path with
  | here => exact ⟨.nil, by simp, h⟩
  | wrapped _ ih =>
    rcases h with h | h
    · cases h with
      | wrapped hinner => exact ih (.inl hinner)
    · cases h
  | array _ ih =>
    rcases h with h | h
    · cases h with
      | array hbase => exact ih (.inl hbase)
    · cases h
  | argument hpair _ ih =>
    rcases h with h | h
    · cases h with
      | applied _ harguments =>
        exact ih (.inl (List.forall₂_zip (resolvesAll_iff.1 harguments) hpair))
    · cases h
  | modifier _ ih =>
    rcases h with h | h
    · cases h with
      | modified hmodifier _ => exact ih (.inr hmodifier)
    · cases h
  | base _ ih =>
    rcases h with h | h
    · cases h with
      | modified _ hbase => exact ih (.inl hbase)
    · cases h
  | @expansion token blob _ _ _ _ _ hfound hsaid _ ih =>
    rcases h with h | h
    · cases h
    · cases h with
      | expansion hknown hspec hfresh hfound' hsaid' hinner =>
        obtain rfl : _ = blob := Option.some.inj (hfound'.symm.trans hfound)
        obtain rfl := SigDecoder.says_unique hsaid hsaid'
        obtain ⟨hnodup, hall, hnode⟩ := ih (.inl hinner)
        refine ⟨List.nodup_cons.2 ⟨fun hmem => ?_, hnodup⟩, ?_, by simpa using hnode⟩
        · exact (hall token hmem).fresh List.mem_cons_self
        · intro other hother
          rcases List.mem_cons.1 hother with rfl | hother
          · exact ⟨hknown, hspec, hfresh⟩
          · have hin := hall other hother
            exact ⟨hin.known, hin.spec, fun hpath => hin.fresh (List.mem_cons_of_mem _ hpath)⟩

/-! ### Loops -/

/-- What the expansion of specifications leaves in a tree, when those of `seeds` are being expanded
around it. -/
structure LoopSafe (r : Resolver) (seeds : List Token) (tree plain : TypeSig) : Prop where
  /-- No way from the root goes through a specification twice. -/
  distinct : ∀ through node, tree.Reaches through node → through.Nodup
  /-- What is expanded is an existing specification, and none of those around the tree. -/
  expandable : ∀ through node, tree.Reaches through node →
    ∀ token ∈ through, Expandable r seeds token
  /-- Every modifier of the tree stands in the place of something that the bytes say. -/
  named : ∀ through node, tree.Reaches through node →
    ∃ named, Corresponds r tree plain through node named
  /-- A modifier that the bytes name by an existing specification is a loop exactly where that
  specification is being expanded. -/
  loop : ∀ through required required' modifier base base' token,
    Corresponds r tree plain through (.modified required modifier base)
      (.modified required' (.named .cls token) base') →
    r.isType token = true → token.isIn .typeSpec = true →
      (modifier = .invalid .metadataLoop ↔ token ∈ seeds ∨ token ∈ through)
  /-- Elsewhere what its blob stands for is put in, also where it has been put in before. -/
  expanded : ∀ through required required' modifier base base' token blob,
    Corresponds r tree plain through (.modified required modifier base)
      (.modified required' (.named .cls token) base') →
    r.isType token = true → token.isIn .typeSpec = true → r.specBlob? token = some blob →
      token ∉ seeds → token ∉ through → ∃ expansion, modifier = .typeSpec token expansion

/-- A modifier that is reached stands for the name that the bytes give it. -/
theorem Corresponds.resolvesModifier {required required' : Bool}
    {modifier base said base' : TypeSig}
    (hway : Corresponds r tree plain through (.modified required modifier base)
      (.modified required' said base')) (h : Resolves r path tree plain) :
    ResolvesModifier r (through.reverse ++ path) modifier said := by
  obtain ⟨-, -, hnode | hnode⟩ := hway.standsFor (.inl h)
  · cases hnode with
    | modified hmodifier _ => exact hmodifier
  · cases hnode

theorem Resolves.loopSafe (h : Resolves r path tree plain) : LoopSafe r path tree plain where
  distinct through node hreach := by
    obtain ⟨named, hway⟩ := exists_corresponds hreach (.inl h)
    exact (hway.standsFor (.inl h)).1
  expandable through node hreach := by
    obtain ⟨named, hway⟩ := exists_corresponds hreach (.inl h)
    exact (hway.standsFor (.inl h)).2.1
  named through node hreach := exists_corresponds hreach (.inl h)
  loop through required required' modifier base base' token hway hknown hspec := by
    have haround : token ∈ through.reverse ++ path ↔ token ∈ path ∨ token ∈ through := by
      simp [or_comm]
    cases hway.resolvesModifier h with
    | unknown hunknown => simp [hknown] at hunknown
    | name _ hnot => simp [hspec] at hnot
    | loop _ _ hin => simpa using haround.1 hin
    | missing _ _ hfresh _ => simpa [haround] using hfresh
    | expansion _ _ hfresh _ _ _ => simpa [haround] using hfresh
  expanded through required required' modifier base base' token blob hway hknown hspec hblob
      hseeds hthrough := by
    cases hway.resolvesModifier h with
    | unknown hunknown => simp [hknown] at hunknown
    | name _ hnot => simp [hspec] at hnot
    | loop _ _ hin => simp [hseeds, hthrough] at hin
    | missing _ _ _ hmissing => simp [hblob] at hmissing
    | expansion => exact ⟨_, rfl⟩

/-- Expansions nest at most as deep as there are specifications. -/
theorem LoopSafe.length_le {seeds : List Token} (h : LoopSafe r seeds tree plain)
    {specs : Finset Token}
    (hspecs : ∀ token, r.isType token = true → token.isIn .typeSpec = true → token ∈ specs)
    (hreach : tree.Reaches through node) : through.length ≤ specs.card := by
  rw [← List.toFinset_card_of_nodup (h.distinct through node hreach)]
  refine Finset.card_le_card fun token htoken => ?_
  have hin := h.expandable through node hreach token (List.mem_toFinset.1 htoken)
  exact hspecs token hin.known hin.spec

namespace SigDecoder

/-- **Expansion is safe from loops.** Whatever specifications there are and however they name each
other, every reading of a type ends. In each tree that it gives, expansions nest once per
specification at most, and a modifier is a loop exactly where it names a specification around it. -/
theorem type_loopSafe (r : Resolver) (seeds : Expansions) (s : SigState) :
    Settles (fun maxDepth => type { resolver := some r, maxDepth, expanding := seeds }) s ∧
    ∀ maxDepth tree s',
      type { resolver := some r, maxDepth, expanding := seeds } s = .ok tree s' →
        ∃ plain, type { resolver := none, maxDepth, expanding := seeds } s = .ok plain s' ∧
          LoopSafe r seeds.active tree plain ∧
          ∀ specs : Finset Token,
            (∀ token, r.isType token = true → token.isIn .typeSpec = true → token ∈ specs) →
              ∀ through node, tree.Reaches through node → through.length ≤ specs.card := by
  refine ⟨type_settles { resolver := some r, expanding := seeds } s, ?_⟩
  intro maxDepth tree s' hrun
  obtain ⟨plain, hplain, hresolves⟩ :=
    type_resolves { resolver := some r, maxDepth, expanding := seeds } rfl s s' tree hrun
  have hsafe : LoopSafe r seeds.active tree plain := hresolves.loopSafe
  exact ⟨plain, hplain, hsafe, fun specs hspecs through node => hsafe.length_le hspecs⟩

/-- Two specifications that name each other, the first one also itself. -/
def circle : Resolver where
  isType token := token.value == 0x1B000001 || token.value == 0x1B000002
  specBlob? token :=
    if token.value = 0x1B000001 then some #[0x20, 0x0A, 0x20, 0x06, 0x08]
    else if token.value = 0x1B000002 then some #[0x20, 0x06, 0x08] else none

/-- A type under the first specification of `circle` as a modifier, twice side by side. -/
def circleBlob : Array UInt8 := #[0x20, 0x06, 0x20, 0x06, 0x08]

/-- What the first specification of `circle` stands for: inside of it, it is a loop in its own blob
and in the one of the second specification. -/
def circleExpansion : TypeSig :=
  .typeSpec ⟨0x1B000001⟩ (.modified false
    (.typeSpec ⟨0x1B000002⟩ (.modified false (.invalid .metadataLoop) (.primitive .i4)))
    (.modified false (.invalid .metadataLoop) (.primitive .i4)))

/-- The tree of `circleBlob`. Side by side the expansions are no loops. -/
def circleTree : TypeSig :=
  .modified false circleExpansion (.modified false circleExpansion (.primitive .i4))

theorem type_loopSafe_circle :
    ∃ plain,
      type { resolver := some circle, maxDepth := 64 } { cursor := { bytes := circleBlob } } =
        .ok circleTree { cursor := { bytes := circleBlob, pos := 5 } } ∧
      LoopSafe circle [] circleTree plain := by
  have hread : type { resolver := some circle, maxDepth := 64, expanding := {} }
      { cursor := { bytes := circleBlob } } =
        .ok circleTree { cursor := { bytes := circleBlob, pos := 5 } } := rfl
  obtain ⟨plain, -, hsafe, -⟩ :=
    (type_loopSafe circle {} { cursor := { bytes := circleBlob } }).2 64 _ _ hread
  exact ⟨plain, hread, hsafe⟩

end SigDecoder

end CilMetadata

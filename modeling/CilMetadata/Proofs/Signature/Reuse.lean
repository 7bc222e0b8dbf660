import CilMetadata.Proofs.Signature.Guarded

/-!
# Parsing several signatures with one parser

A parser can be used again, also after a failure. What it carries from one signature to the next is
the place in the blob, the specifications that are being expanded, and the counter of levels.

* `SigParser.run` parses signatures with one parser, `SigParser.freshRun` each with a new one that
  starts at the same place;
* `run_eq_freshRun`: the two are the same up to the first signature that runs out of levels, which
  leaves one of them in use.
-/

namespace CilMetadata.SigParser

open Parsing (Leaks)

variable (resolver : Option Resolver) (maxDepth : Nat)

/-- Parse a signature: the outcome, and the parser afterwards. -/
def parse (kind : SigKind) (p : SigParser) : Except Fault Signature × SigParser :=
  match Parsing.signature resolver maxDepth kind p with
  | .ok sig p' => (.ok sig, p')
  | .error fault p' => (.error fault, p')

/-- Parse signatures one after the other, whether they fail or not: the outcomes, and the parser
after each of them. -/
def run : List SigKind → SigParser → List (Except Fault Signature × SigParser)
  | [], _ => []
  | kind :: rest, p =>
    let result := parse resolver maxDepth kind p
    result :: run rest result.2

/-- Parse signatures one after the other, each with a parser of its own. -/
def freshRun (expanding : Expansions) :
    List SigKind → Cursor → List (Except Fault Signature × Cursor)
  | [], _ => []
  | kind :: rest, cursor =>
    let result := parse resolver maxDepth kind { cursor, expanding }
    (result.1, result.2.cursor) :: freshRun expanding rest result.2.cursor

/-- Whether a signature ran out of levels. -/
def RanOut (outcome : Except Fault Signature) : Prop :=
  ∃ fault, outcome = .error fault ∧ fault.IsLimit

/-- How many levels an outcome leaves in use. -/
def Spends (outcome : Except Fault Signature) (spent : Nat) : Prop :=
  match outcome with
  | .ok _ => spent = 0
  | .error fault => Leaks resolver fault spent

variable {resolver} {maxDepth}

theorem Spends.eq_zero {outcome : Except Fault Signature} {spent : Nat}
    (h : Spends resolver outcome spent) (hout : ¬ RanOut outcome) : spent = 0 := by
  cases outcome with
  | ok sig => exact h
  | error fault =>
    cases h with
    | nothing other => rfl
    | inside limit => rfl
    | outermost limit => exact absurd ⟨_, rfl, limit, rfl⟩ hout

/-- A parse keeps the books, but for the levels that it leaves in use. -/
theorem parse_keeps (kind : SigKind) (p : SigParser) :
    (parse resolver maxDepth kind p).2.expanding = p.expanding ∧
      ∃ spent, Spends resolver (parse resolver maxDepth kind p).1 spent ∧
        (parse resolver maxDepth kind p).2.depth = p.depth + spent := by
  have hthreads := Parsing.signature_threads resolver maxDepth p.depth kind
  unfold parse
  cases hread :
      Signature.decode { resolver, maxDepth, expanding := p.expanding } kind p.toSigState with
  | ok sig s =>
    obtain ⟨-, hparse⟩ := hthreads.ok _ _ _ _ hread
    rw [hparse]
    exact ⟨rfl, 0, rfl, rfl⟩
  | error fault s =>
    obtain ⟨leak, hleak, -, hparse⟩ := hthreads.error _ _ _ _ hread
    rw [hparse]
    exact ⟨rfl, leak, hleak, rfl⟩

/-- The results of a run without the books. -/
def visible (result : Except Fault Signature × SigParser) : Except Fault Signature × Cursor :=
  (result.1, result.2.cursor)

/-- One parser does what new ones do, as long as no signature runs out of levels, and also for the
first one that does. -/
theorem run_eq_freshRun {kinds : List SigKind} {p : SigParser} {n : Nat} (hdepth : p.depth = 0)
    (hlevels : ∀ result ∈ (run resolver maxDepth kinds p).take n, ¬ RanOut result.1) :
    ((run resolver maxDepth kinds p).take (n + 1)).map visible =
      (freshRun resolver maxDepth p.expanding kinds p.cursor).take (n + 1) := by
  induction n generalizing kinds p with
  | zero =>
    cases kinds with
    | nil => rfl
    | cons kind rest =>
      have hfresh : p = { cursor := p.cursor, expanding := p.expanding } := by
        rw [← hdepth]
      simp only [run, freshRun, List.take_succ_cons, List.take_zero, List.map_cons, List.map_nil,
        visible, ← hfresh]
  | succ n ih =>
    cases kinds with
    | nil => rfl
    | cons kind rest =>
      have hfresh : p = { cursor := p.cursor, expanding := p.expanding } := by
        rw [← hdepth]
      obtain ⟨hexpanding, spent, hspent, hnext⟩ := @parse_keeps resolver maxDepth kind p
      simp only [run, List.take_succ_cons, List.forall_mem_cons] at hlevels
      -- The first signature leaves nothing in use, so the parser goes on like a new one.
      rw [hspent.eq_zero hlevels.1, hdepth] at hnext
      have hrest := ih hnext hlevels.2
      rw [hexpanding] at hrest
      simp only [run, freshRun, List.take_succ_cons, List.map_cons, ← hfresh] at hrest ⊢
      rw [← hrest]
      rfl

/-- **A parser can be used again.** Whatever a parse comes to, the specifications that are being
expanded stay the same, and so does the counter of levels unless the parse runs out of them, which
may leave one in use, and does so where nothing is expanded. One parser therefore does what new
ones do that start at the same places, up to and including the first signature that runs out of
levels. -/
theorem reusable (resolver : Option Resolver) (maxDepth : Nat) (p : SigParser) :
    (∀ kind,
      (parse resolver maxDepth kind p).2.expanding = p.expanding ∧
      (¬ RanOut (parse resolver maxDepth kind p).1 →
        (parse resolver maxDepth kind p).2.depth = p.depth) ∧
      (RanOut (parse resolver maxDepth kind p).1 →
        (parse resolver maxDepth kind p).2.depth = p.depth + 1 ∨
          resolver ≠ none ∧ (parse resolver maxDepth kind p).2.depth = p.depth)) ∧
    ∀ kinds n, p.depth = 0 →
      (∀ result ∈ (run resolver maxDepth kinds p).take n, ¬ RanOut result.1) →
      ((run resolver maxDepth kinds p).take (n + 1)).map visible =
        (freshRun resolver maxDepth p.expanding kinds p.cursor).take (n + 1) := by
  refine ⟨fun kind => ?_, fun kinds n hdepth hlevels => run_eq_freshRun hdepth hlevels⟩
  obtain ⟨hexpanding, spent, hspent, hdepth⟩ := @parse_keeps resolver maxDepth kind p
  refine ⟨hexpanding, fun hout => ?_, fun hout => ?_⟩
  · rw [hdepth, hspent.eq_zero hout, Nat.add_zero]
  · rw [hdepth]
    obtain ⟨fault, houtcome, limit, rfl⟩ := hout
    rw [houtcome] at hspent
    cases hspent with
    | nothing other => exact absurd ⟨limit, rfl⟩ other
    | inside _ resolves => exact .inr ⟨resolves, rfl⟩
    | outermost _ => exact .inl rfl

/-- A pointer to an integer, and an integer. -/
def pointerAndInteger : SigParser := { cursor := { bytes := #[0x0F, 0x08, 0x08] } }

/-- With one level the pointer runs out of levels, and then nothing can be parsed any more, although
a new parser finds the integer. -/
theorem pointerAndInteger_not_reusable :
    (parse none 1 .type pointerAndInteger).2.depth ≠ pointerAndInteger.depth ∧
      (run none 1 [.type, .type] pointerAndInteger).map visible =
        [(.error (.recursionLimit 1), { bytes := #[0x0F, 0x08, 0x08], pos := 1 }),
         (.error (.recursionLimit 1), { bytes := #[0x0F, 0x08, 0x08], pos := 1 })] ∧
      freshRun none 1 pointerAndInteger.expanding [.type, .type] pointerAndInteger.cursor =
        [(.error (.recursionLimit 1), { bytes := #[0x0F, 0x08, 0x08], pos := 1 }),
         (.ok (.type (.primitive .i4)), { bytes := #[0x0F, 0x08, 0x08], pos := 2 })] :=
  ⟨by decide, rfl, rfl⟩

/-- A byte that starts no type, and an integer. -/
def refusedAndInteger : SigParser := { cursor := { bytes := #[0x17, 0x08] } }

theorem reusable_refusedAndInteger :
    (∀ result ∈ (run none 1 [.type, .type] refusedAndInteger).take 1, ¬ RanOut result.1) ∧
      (run none 1 [.type, .type] refusedAndInteger).map visible =
        freshRun none 1 {} [.type, .type] refusedAndInteger.cursor := by
  have hfirst : (run none 1 [.type, .type] refusedAndInteger).take 1 =
      [(.error (.malformed (.elementType 0x17 0)),
        { cursor := { bytes := #[0x17, 0x08], pos := 1 } })] := rfl
  have hlevels : ∀ result ∈ (run none 1 [.type, .type] refusedAndInteger).take 1,
      ¬ RanOut result.1 := by
    intro result hresult
    rw [hfirst, List.mem_singleton] at hresult
    subst hresult
    rintro ⟨fault, hfault, limit, rfl⟩
    cases hfault
  exact ⟨hlevels, (reusable none 1 refusedAndInteger).2 [.type, .type] 1 rfl hlevels⟩

end CilMetadata.SigParser

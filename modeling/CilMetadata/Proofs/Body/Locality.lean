import CilMetadata.Proofs.Body.RoundTrip
import CilMetadata.Proofs.Bytes.Advance
import CilMetadata.Proofs.Bytes.Extension

/-!
# Reading stored method bodies from any bytes

The bytes of a body need not be ones that were written. Its sections follow one another as long as
each of them says so, and their sizes are what the bytes claim.

* `SectionsRun` is the loop over the sections as it stands, without a bound on its steps;
  `sectionsRun_readSections` says that it ends, in as many steps as there are bytes;
* `read_extends`: what is read does not depend on what follows;
* `LiesIn`: the code and the clauses are taken from places of their own inside the bytes;
* `decode_local`: all of this for a body at the start of some bytes, and that it can be written
  again.
-/

namespace CilMetadata

open Decoder

/-! ### Clauses -/

namespace Clause

/-- The clause stands somewhere in the bytes, in one of its two forms. -/
def LiesIn (clause : Clause) (bytes : List UInt8) : Prop :=
  clause.smallForm <:+: bytes ∨ clause.fatForm <:+: bytes

theorem LiesIn.mono {clause : Clause} {bytes bytes' : List UInt8} (h : clause.LiesIn bytes)
    (hin : bytes <:+: bytes') : clause.LiesIn bytes' := by
  rcases h with h | h
  · exact .inl (h.trans hin)
  · exact .inr (h.trans hin)

theorem takesAt_decodeSmall (n : Nat) :
    TakesAt n decodeSmall fun bytes clause => bytes = clause.smallForm := by
  refine (takesAt_u16 n).bind ?_
  rintro _ flags rfl
  refine (takesAt_u16 _).bind ?_
  rintro _ tryOffset rfl
  refine (takesAt_byte _).bind ?_
  rintro _ tryLength rfl
  refine (takesAt_u16 _).bind ?_
  rintro _ handlerOffset rfl
  refine (takesAt_byte _).bind ?_
  rintro _ handlerLength rfl
  refine TakesAt.mapForm (takesAt_u32 _) fun classOrFilter => ?_
  simp [smallForm]

theorem takesAt_decodeFat (n : Nat) :
    TakesAt n decodeFat fun bytes clause => bytes = clause.fatForm := by
  refine (takesAt_u32 n).bind ?_
  rintro _ flags rfl
  refine (takesAt_u32 _).bind ?_
  rintro _ tryOffset rfl
  refine (takesAt_u32 _).bind ?_
  rintro _ tryLength rfl
  refine (takesAt_u32 _).bind ?_
  rintro _ handlerOffset rfl
  refine (takesAt_u32 _).bind ?_
  rintro _ handlerLength rfl
  refine TakesAt.mapForm (takesAt_u32 _) fun classOrFilter => ?_
  simp [fatForm]

variable {x : Array UInt8}

theorem decodeSmall_extends : Extends x decodeSmall decodeSmall :=
  extends_u16.bind fun _ => extends_u16.bind fun _ => extends_byte.bind fun _ =>
    extends_u16.bind fun _ => extends_byte.bind fun _ => extends_u32.map _

theorem decodeFat_extends : Extends x decodeFat decodeFat :=
  extends_u32.bind fun _ => extends_u32.bind fun _ => extends_u32.bind fun _ =>
    extends_u32.bind fun _ => extends_u32.bind fun _ => extends_u32.map _

theorem failsWith_decodeSmall : FailsWith decodeSmall Fault.OfData :=
  failsWith_u16.bind fun _ => failsWith_u16.bind fun _ => failsWith_byte.bind fun _ =>
    failsWith_u16.bind fun _ => failsWith_byte.bind fun _ => failsWith_u32.map _

theorem failsWith_decodeFat : FailsWith decodeFat Fault.OfData :=
  failsWith_u32.bind fun _ => failsWith_u32.bind fun _ => failsWith_u32.bind fun _ =>
    failsWith_u32.bind fun _ => failsWith_u32.bind fun _ => failsWith_u32.map _

end Clause

namespace RawBody

/-! ### Sections -/

theorem sectionSize_moves {flags : UInt8} {c c' : Cursor} {size : Nat}
    (h : sectionSize flags c = .ok size c') : c' = c.forward 3 := by
  unfold sectionSize at h
  split at h
  · obtain ⟨_, mid, hbyte, h⟩ := bind_eq_ok.1 h
    obtain ⟨_, -, rfl, rfl⟩ := takesAt_byte _ _ _ _ rfl hbyte
    obtain ⟨_, _, hmove, h⟩ := bind_eq_ok.1 h
    cases hmove
    cases h
    simp
  · obtain ⟨_, mid, hlow, h⟩ := bind_eq_ok.1 h
    obtain ⟨_, -, rfl, rfl⟩ := takesAt_u16 _ _ _ _ rfl hlow
    obtain ⟨_, _, hhigh, h⟩ := bind_eq_ok.1 h
    obtain ⟨_, -, rfl, rfl⟩ := takesAt_byte _ _ _ _ rfl hhigh
    cases h
    simp

theorem form_among {form : Clause → List UInt8} {clauses : List Clause} {clause : Clause}
    (h : clause ∈ clauses) : form clause <:+: clauses.flatMap form := by
  rw [List.flatMap_def]
  exact List.infix_of_mem_flatten (List.mem_map_of_mem h)

/-- The clauses of a section fit into it, and are taken from its bytes. -/
theorem takesAt_sectionClauses (n : Nat) (flags : UInt8) (size : Nat) :
    TakesAt n (sectionClauses flags size) fun bytes clauses =>
      Clause.smallSize * clauses.length ≤ size - sectionHeaderSize ∧
        ∀ clause ∈ clauses, clause.LiesIn bytes := by
  unfold sectionClauses
  split_ifs
  · exact takesAt_pure ⟨Nat.zero_le _, by simp⟩
  · refine (takesAt_times (fun n => (Clause.takesAt_decodeSmall n).mono fun bytes clause hform =>
      ⟨hform, trivial⟩) n _).mono ?_
    rintro _ clauses ⟨hlen, rfl, -⟩
    refine ⟨?_, fun clause hmem => .inl (form_among hmem)⟩
    rw [hlen]
    exact Nat.mul_div_le _ _
  · refine (takesAt_times (fun n => (Clause.takesAt_decodeFat n).mono fun bytes clause hform =>
      ⟨hform, trivial⟩) n _).mono ?_
    rintro _ clauses ⟨hlen, rfl, -⟩
    refine ⟨?_, fun clause hmem => .inr (form_among hmem)⟩
    rw [hlen, Clause.smallSize, Clause.fatSize]
    omega

/-- The clauses lie in the bytes, and there is room for them between the two cursors. -/
structure Covers (c c' : Cursor) (clauses : List Clause) : Prop where
  bytes : c'.bytes = c.bytes
  room : c.pos + Clause.smallSize * clauses.length ≤ c'.pos
  inside : c'.pos ≤ c.bytes.size
  lies : ∀ clause ∈ clauses, clause.LiesIn c.bytes.toList

/-- A section takes its header and room for its clauses, and ends inside the bytes. -/
theorem covers_of_readSection {c c' : Cursor} {clauses : List Clause} {more : Bool}
    (h : readSection c = .ok (clauses, more) c') :
    Covers (c.forward sectionHeaderSize) c' clauses := by
  unfold readSection at h
  obtain ⟨start, _, hstart, h⟩ := bind_eq_ok.1 h
  cases hstart
  obtain ⟨flags, _, hflags, h⟩ := bind_eq_ok.1 h
  obtain ⟨_, -, rfl, rfl⟩ := takesAt_byte _ _ _ _ rfl hflags
  obtain ⟨size, _, hsize, h⟩ := bind_eq_ok.1 h
  obtain rfl := sectionSize_moves hsize
  split at h
  · cases h
  rename_i hheader
  obtain ⟨_, _, hget, h⟩ := bind_eq_ok.1 h
  cases hget
  split at h
  · cases h
  rename_i hinside
  obtain ⟨found, _, hfound, h⟩ := bind_eq_ok.1 h
  obtain ⟨bytes, hahead, rfl, hroom, hlies⟩ := takesAt_sectionClauses _ _ _ _ _ _ rfl hfound
  obtain ⟨_, _, hmove, h⟩ := bind_eq_ok.1 h
  cases hmove
  cases h
  simp only [Cursor.bytes_forward] at hinside
  refine ⟨rfl, ?_, Nat.le_of_not_lt hinside, fun clause hmem => (hlies clause hmem).mono ?_⟩
  · simp only [Cursor.pos_forward]
    omega
  · exact hahead.isInfix.trans (List.drop_suffix _ _).isInfix

/-- All sections together. -/
theorem covers_of_readSections {steps : Nat} {c c' : Cursor} {clauses : List Clause}
    (h : readSections steps c = .ok clauses c') : Covers c c' clauses := by
  induction steps generalizing c clauses with
  | zero => cases h
  | succ steps ih =>
    rw [readSections] at h
    obtain ⟨_, _, halign, h⟩ := bind_eq_ok.1 h
    cases halign
    obtain ⟨⟨first, more⟩, mid, hsection, h⟩ := bind_eq_ok.1 h
    have hfirst := covers_of_readSection hsection
    have hroom := hfirst.room
    simp only [Cursor.pos_forward, sectionHeaderSize] at hroom
    cases more with
    | false =>
      cases h
      exact ⟨hfirst.bytes, by omega, hfirst.inside, hfirst.lies⟩
    | true =>
      obtain ⟨others, _, hothers, h⟩ := bind_eq_ok.1 h
      cases h
      have hrest := ih hothers
      have hsame : mid.bytes = c.bytes := hfirst.bytes
      have hroom' := hrest.room
      refine ⟨hrest.bytes.trans hsame, ?_, hsame ▸ hrest.inside, ?_⟩
      · rw [List.length_append, Nat.mul_add]
        omega
      · intro clause hmem
        rcases List.mem_append.1 hmem with hmem | hmem
        · exact hfirst.lies clause hmem
        · exact hsame ▸ hrest.lies clause hmem

/-! ### The loop over the sections -/

/-- One round of the loop: to a multiple of four, and over a section. -/
def nextSection : Decoder (List Clause × Bool) := do
  alignSection
  readSection

/-- The loop over the sections, without a bound on its steps. -/
inductive SectionsRun : Cursor → EStateM.Result Fault Cursor (List Clause) → Prop
  | last {c c' clauses} (round : nextSection c = .ok (clauses, false) c') :
    SectionsRun c (.ok clauses c')
  | more {c mid c' clauses others} (round : nextSection c = .ok (clauses, true) mid)
      (rest : SectionsRun mid (.ok others c')) : SectionsRun c (.ok (clauses ++ others) c')
  | fails {c c' fault} (round : nextSection c = .error fault c') : SectionsRun c (.error fault c')
  | failsLater {c mid c' clauses fault} (round : nextSection c = .ok (clauses, true) mid)
      (rest : SectionsRun mid (.error fault c')) : SectionsRun c (.error fault c')

theorem readSections_succ (steps : Nat) :
    readSections (steps + 1) = do
      let (clauses, more) ← nextSection
      if more then return clauses ++ (← readSections steps) else return clauses := by
  rw [readSections, nextSection, bind_assoc]

/-- A round that succeeds leaves fewer bytes ahead. -/
theorem remaining_of_nextSection {c mid : Cursor} {parts : List Clause × Bool} {steps : Nat}
    (hround : nextSection c = .ok parts mid) (h : c.remaining < steps + 1) :
    mid.remaining < steps := by
  obtain ⟨_, _, halign, hsection⟩ := bind_eq_ok.1 hround
  cases halign
  have hcovers := covers_of_readSection hsection
  have hroom := hcovers.room
  have hinside := hcovers.inside
  simp only [Cursor.pos_forward, Cursor.bytes_forward, sectionHeaderSize] at hroom hinside
  simp only [Cursor.remaining, hcovers.bytes, Cursor.bytes_forward] at h ⊢
  omega

/-- **The loop over the sections ends.** Every round takes a header at least, so that as many steps
as there are bytes ahead are more than it needs. -/
theorem sectionsRun_readSections {steps : Nat} {c : Cursor} (h : c.remaining < steps) :
    SectionsRun c (readSections steps c) := by
  induction steps generalizing c with
  | zero => exact absurd h (Nat.not_lt_zero _)
  | succ steps ih =>
    have hstep := readSections_succ steps
    cases hround : nextSection c with
    | error fault c' =>
      have hrun : readSections (steps + 1) c = .error fault c' :=
        hstep ▸ bind_eq_error.2 (.inl hround)
      rw [hrun]
      exact .fails hround
    | ok parts mid =>
      obtain ⟨clauses, more⟩ := parts
      cases more with
      | false =>
        have hrun : readSections (steps + 1) c = .ok clauses mid :=
          hstep ▸ bind_eq_ok.2 ⟨_, mid, hround, rfl⟩
        rw [hrun]
        exact .last hround
      | true =>
        have hrest := ih (remaining_of_nextSection hround h)
        cases hothers : readSections steps mid with
        | ok others c' =>
          have hlater : (do return clauses ++ (← readSections steps)) mid =
              .ok (clauses ++ others) c' := bind_eq_ok.2 ⟨others, c', hothers, rfl⟩
          have hrun : readSections (steps + 1) c = .ok (clauses ++ others) c' :=
            hstep ▸ bind_eq_ok.2 ⟨_, mid, hround, hlater⟩
          rw [hothers] at hrest
          rw [hrun]
          exact .more hround hrest
        | error fault c' =>
          have hlater : (do return clauses ++ (← readSections steps)) mid = .error fault c' :=
            bind_eq_error.2 (.inl hothers)
          have hrun : readSections (steps + 1) c = .error fault c' :=
            hstep ▸ bind_eq_error.2 (.inr ⟨_, mid, hround, hlater⟩)
          rw [hothers] at hrest
          rw [hrun]
          exact .failsLater hround hrest

/-! ### More bytes -/

section More

variable {x : Array UInt8}

theorem sectionSize_extends (flags : UInt8) :
    Extends x (sectionSize flags) (sectionSize flags) := by
  refine extends_ite ?_ ?_
  · exact extends_byte.bind fun _ => (extends_modify fun _ => rfl).bind fun _ => extends_pure _
  · exact extends_u16.bind fun _ => extends_byte.map _

theorem sectionClauses_extends (flags : UInt8) (size : Nat) :
    Extends x (sectionClauses flags size) (sectionClauses flags size) := by
  refine extends_ite (extends_pure []) (extends_ite ?_ ?_)
  · exact extends_times Clause.decodeSmall_extends _
  · exact extends_times Clause.decodeFat_extends _

theorem readSection_extends : Extends x readSection readSection := by
  refine extends_position.bind fun start => extends_byte.bind fun flags => ?_
  refine (sectionSize_extends flags).bind fun size => ?_
  refine extends_unless id (Extends.get fun c => ?_)
  refine extends_unless (fun hpast => ?_) ?_
  · rw [Cursor.size_extend] at hpast
    omega
  · refine (sectionClauses_extends flags size).bind fun clauses => ?_
    exact (extends_modify fun _ => rfl).bind fun _ => extends_pure _

/-- More steps change nothing either, where the ones there were have been enough. -/
theorem readSections_extends {steps steps' : Nat} (h : steps ≤ steps') :
    Extends x (readSections steps) (readSections steps') := by
  induction steps generalizing steps' with
  | zero => exact extends_throw _ _
  | succ steps ih =>
    obtain ⟨steps', rfl⟩ := Nat.exists_eq_add_one.2 (Nat.lt_of_lt_of_le steps.succ_pos h)
    refine (extends_modify fun _ => rfl).bind fun _ => readSection_extends.bind fun parts => ?_
    refine extends_ite ?_ (extends_pure _)
    exact (ih (Nat.le_of_succ_le_succ h)).map _

theorem readTiny_extends (head : UInt8) : Extends x (readTiny head) (readTiny head) :=
  (extends_take _).map _

theorem readFat_extends : Extends x readFat readFat := by
  refine Extends.get fun c => extends_unless (fun hshort => ?_) ?_
  · simp only [Cursor.remaining, Cursor.size_extend, Cursor.pos_extend] at hshort ⊢
    omega
  refine extends_position.bind fun start => extends_u16.bind fun word => ?_
  refine extends_u16.bind fun maxStack => extends_u32.bind fun codeSize => ?_
  refine extends_u32.bind fun token => extends_unless id ?_
  refine (extends_modify fun _ => rfl).bind fun _ => (extends_take _).bind fun code => ?_
  refine extends_ite ((extends_pure []).map _) (Extends.get fun c => ?_)
  have hsteps : c.bytes.size ≤ (c.extend x).bytes.size := by
    rw [Cursor.size_extend]
    exact Nat.le_add_right _ _
  exact (readSections_extends hsteps).map _

/-- **What is read does not depend on what follows.** -/
theorem read_extends : Extends x read read := by
  refine extends_peekByte.bind fun head => extends_ite ?_ (extends_ite ?_ ?_)
  · exact (extends_skip 1).bind fun _ => readTiny_extends head
  · exact readFat_extends
  · exact extends_throw _ _

end More

/-! ### Failures -/

theorem failsWith_readSection : FailsWith readSection Fault.OfData := by
  refine failsWith_position.bind fun start => failsWith_byte.bind fun flags => ?_
  refine FailsWith.bind ?_ fun size => ?_
  · refine failsWith_ite (fun _ => ?_) fun _ => ?_
    · exact failsWith_byte.bind fun _ => (failsWith_modify _ _).bind fun _ => failsWith_pure _ _
    · exact failsWith_u16.bind fun _ => failsWith_byte.map _
  refine failsWith_ite (fun _ => failsWith_throw trivial) fun _ => ?_
  refine (failsWith_get _).bind fun c => ?_
  refine failsWith_ite (fun _ => failsWith_throw trivial) fun _ => ?_
  refine FailsWith.bind ?_ fun clauses => ?_
  · refine failsWith_ite (fun _ => failsWith_pure _ _) fun _ => ?_
    refine failsWith_ite (fun _ => ?_) fun _ => ?_
    · exact failsWith_times Clause.failsWith_decodeSmall _
    · exact failsWith_times Clause.failsWith_decodeFat _
  · exact (failsWith_modify _ _).bind fun _ => failsWith_pure _ _

theorem failsWith_readSections (steps : Nat) : FailsWith (readSections steps) Fault.OfData := by
  induction steps with
  | zero => exact failsWith_throw trivial
  | succ steps ih =>
    refine (failsWith_modify _ _).bind fun _ => failsWith_readSection.bind fun parts => ?_
    exact failsWith_ite (fun _ => ih.map _) fun _ => failsWith_pure _ _

theorem failsWith_readFat : FailsWith readFat Fault.OfData := by
  refine (failsWith_get _).bind fun c => ?_
  refine failsWith_ite (fun _ => failsWith_throw trivial) fun _ => ?_
  refine failsWith_position.bind fun start => failsWith_u16.bind fun word => ?_
  refine failsWith_u16.bind fun maxStack => failsWith_u32.bind fun codeSize => ?_
  refine failsWith_u32.bind fun token => ?_
  refine failsWith_ite (fun _ => failsWith_throw trivial) fun _ => ?_
  refine (failsWith_modify _ _).bind fun _ => (failsWith_take _).bind fun code => ?_
  refine failsWith_ite (fun _ => (failsWith_pure _ _).map _) fun _ => ?_
  exact (failsWith_get _).bind fun c => (failsWith_readSections _).map _

/-- A reading fails on its bytes: they end too early, or say something that no body says. -/
theorem failsWith_read : FailsWith read Fault.OfData := by
  refine failsWith_peekByte.bind fun head => failsWith_ite (fun _ => ?_) fun _ => ?_
  · exact (failsWith_skip 1).bind fun _ => (failsWith_take _).map _
  · exact failsWith_ite (fun _ => failsWith_readFat) fun _ => failsWith_throw trivial

/-! ### Bodies -/

/-- The code and the clauses of the body stand in the bytes, and there is room for all of them. -/
structure LiesIn (body : RawBody) (bytes : Array UInt8) : Prop where
  code : body.code.toList <:+: bytes.toList
  clauses : ∀ clause ∈ body.clauses, clause.LiesIn bytes.toList
  room : body.code.size + 12 * body.clauses.length ≤ bytes.size

/-- Code that has been taken stands in the bytes, ahead of the place where the reading goes on. -/
theorem code_of_take {n : Nat} {c c' : Cursor} {code : Array UInt8}
    (h : Decoder.take n c = .ok code c') :
    code.size = n ∧ code.toList <:+: c.bytes.toList ∧ c' = c.forward n ∧
      c.pos + n ≤ c.bytes.size := by
  obtain ⟨bytes, hahead, rfl, hlen, rfl⟩ := takesAt_take _ _ _ _ _ rfl h
  unfold Decoder.take at h
  split at h
  case isTrue hfits =>
    rw [← hlen] at hfits ⊢
    exact ⟨by simp, hahead.isInfix.trans (List.drop_suffix _ _).isInfix, rfl, hfits⟩
  case isFalse => cases h

theorem readTiny_ok {head : UInt8} {c c' : Cursor} {body : RawBody}
    (h : readTiny head c = .ok body c') :
    body.Storable ∧ body.stored = body ∧ body.LiesIn c.bytes := by
  obtain ⟨code, mid, htake, h⟩ := bind_eq_ok.1 h
  cases h
  obtain ⟨hsize, hcode, -, hfits⟩ := code_of_take htake
  have hhead := head.toNat_lt
  refine ⟨?_, rfl, hcode, by simp, ?_⟩
  · refine ⟨?_, rfl, (by decide : Token.null.isNull = true), rfl⟩
    simp only [hsize]
    omega
  · simp only [List.length_nil]
    omega

theorem readFat_ok {c c' : Cursor} {body : RawBody} (h : readFat c = .ok body c') :
    body.isFat = true ∧ body.code.size < 2 ^ 32 ∧ body.LiesIn c.bytes := by
  unfold readFat at h
  obtain ⟨_, _, hget, h⟩ := bind_eq_ok.1 h
  cases hget
  split at h
  · cases h
  obtain ⟨start, _, hstart, h⟩ := bind_eq_ok.1 h
  cases hstart
  obtain ⟨word, _, hword, h⟩ := bind_eq_ok.1 h
  obtain ⟨_, -, rfl, rfl⟩ := takesAt_u16 _ _ _ _ rfl hword
  obtain ⟨maxStack, _, hstack, h⟩ := bind_eq_ok.1 h
  obtain ⟨_, -, rfl, rfl⟩ := takesAt_u16 _ _ _ _ rfl hstack
  obtain ⟨codeSize, _, hcodeSize, h⟩ := bind_eq_ok.1 h
  obtain ⟨_, -, rfl, rfl⟩ := takesAt_u32 _ _ _ _ rfl hcodeSize
  obtain ⟨token, _, htoken, h⟩ := bind_eq_ok.1 h
  obtain ⟨_, -, rfl, rfl⟩ := takesAt_u32 _ _ _ _ rfl htoken
  split at h
  · cases h
  obtain ⟨_, _, hmove, h⟩ := bind_eq_ok.1 h
  cases hmove
  obtain ⟨code, mid, htake, h⟩ := bind_eq_ok.1 h
  obtain ⟨hsize, hcode, rfl, hfits⟩ := code_of_take htake
  simp only [Cursor.bytes_forward] at hcode hfits
  have hlimit := codeSize.toNat_lt
  split at h
  · obtain ⟨clauses, _, hclauses, h⟩ := bind_eq_ok.1 h
    cases hclauses
    cases h
    refine ⟨rfl, by simp only [hsize]; exact hlimit, hcode, by simp, ?_⟩
    simp only [List.length_nil]
    omega
  · obtain ⟨_, _, hget, h⟩ := bind_eq_ok.1 h
    cases hget
    obtain ⟨clauses, _, hsections, h⟩ := bind_eq_ok.1 h
    cases h
    have hcovers := covers_of_readSections hsections
    have hroom := hcovers.room
    have hinside := hcovers.inside
    simp only [Cursor.pos_forward, Cursor.bytes_forward, Clause.smallSize] at hroom hinside
    refine ⟨rfl, by simp only [hsize]; exact hlimit, hcode, hcovers.lies, ?_⟩
    simp only [hsize]
    omega

theorem read_of_decode {bytes : Array UInt8} {body : RawBody} (h : decode bytes = .ok body) :
    ∃ c, read { bytes } = .ok body c := by
  unfold decode at h
  split at h
  · cases h
  · exact value?_eq_ok.1 h

theorem decode_of_read {bytes : Array UInt8} {body : RawBody} {c : Cursor}
    (h : read { bytes } = .ok body c) : decode bytes = .ok body := by
  unfold decode
  split
  case isTrue hempty =>
    -- There is no first byte to look at.
    obtain rfl : bytes = #[] := by simpa using hempty
    cases h
  case isFalse => exact value?_eq_ok.2 ⟨c, h⟩

/-- A body that has been read lies in the bytes, and is the same as its header gives it. -/
theorem read_ok {c c' : Cursor} {body : RawBody} (h : read c = .ok body c') :
    body.stored = body ∧ body.LiesIn c.bytes ∧
      (body.clauses.length ≤ clauseLimit → body.Storable) := by
  unfold read at h
  obtain ⟨head, mid, hpeek, hbody⟩ := bind_eq_ok.1 h
  obtain rfl : c = mid := by
    unfold peekByte at hpeek
    split at hpeek <;> cases hpeek
    rfl
  clear h
  split at hbody
  · obtain ⟨_, behind, hskip, htiny⟩ := bind_eq_ok.1 hbody
    have hbytes : behind.bytes = c.bytes := by
      unfold skip at hskip
      split at hskip <;> cases hskip
      rfl
    obtain ⟨hstorable, hstored, hlies⟩ := readTiny_ok htiny
    exact ⟨hstored, hbytes ▸ hlies, fun _ => hstorable⟩
  · split at hbody
    · obtain ⟨hfat, hcode, hlies⟩ := readFat_ok hbody
      refine ⟨by rw [stored, if_pos hfat], hlies, fun hcount => ?_⟩
      rw [Storable, if_pos hfat]
      exact ⟨hcode, fatSection_fits_iff.2 hcount⟩
    · cases hbody

/-- **Reading a body is safe and local.** A reading of any bytes fails on the bytes alone, and its
loop over the sections ends. A body that is read lies inside the bytes, does not depend on what
follows them, and is read again when it is written. -/
theorem decode_local (d : Array UInt8) :
    (∀ fault, decode d = .error fault → fault.OfData) ∧
    (∀ c : Cursor, c.bytes = d → fatHeaderSize ≤ c.pos → c.pos ≤ d.size →
      SectionsRun c (readSections d.size c)) ∧
    ∀ body, decode d = .ok body →
      (∀ x, decode (d ++ x) = .ok body) ∧ body.LiesIn d ∧
      (body.clauses.length ≤ 699050 →
        ∃ bytes, body.encode = .ok bytes ∧ decode bytes = .ok body) := by
  refine ⟨fun fault hfault => ?_, fun c hbytes hbehind hinside => ?_, fun body hbody => ?_⟩
  · unfold decode at hfault
    split at hfault
    · cases hfault
      trivial
    · unfold Decoder.value? at hfault
      split at hfault
      · cases hfault
      case h_2 hrun =>
        cases hfault
        exact failsWith_read _ _ _ hrun
  · subst hbytes
    apply sectionsRun_readSections
    simp only [fatHeaderSize, Cursor.remaining] at hbehind ⊢
    omega
  · obtain ⟨c, hrun⟩ := read_of_decode hbody
    obtain ⟨hstored, hlies, hstorable⟩ := read_ok hrun
    refine ⟨fun x => decode_of_read (read_extends _ _ _ hrun), hlies, fun hcount => ?_⟩
    obtain ⟨bytes, hne, hencode, hread⟩ := readBack_of_storable (hstorable hcount)
    rw [hstored] at hread
    have hback := decode_of_readsAt hne hread #[]
    rw [Array.append_empty] at hback
    exact ⟨bytes.toArray, hencode, hback⟩

/-- A body with two sections, a small one and a fat one. -/
def sectionChain : Array UInt8 :=
  #[0x1B, 0x30, 0x02, 0x00, 0x01, 0x00, 0x00, 0x00, 0x01, 0x00, 0x00, 0x11,
    0x2A, 0x00, 0x00, 0x00,
    0x81, 0x10, 0x00, 0x00, 0x02, 0x00, 0x00, 0x00, 0x01, 0x01, 0x00, 0x01, 0x00, 0x00, 0x00, 0x00,
    0x41, 0x1C, 0x00, 0x00, 0x00, 0x00, 0x00, 0x00, 0x00, 0x00, 0x00, 0x00, 0x01, 0x00, 0x00, 0x00,
    0x01, 0x00, 0x00, 0x00, 0x01, 0x00, 0x00, 0x00, 0x01, 0x00, 0x00, 0x01]

/-- The body of `sectionChain`. -/
def chainedBody : RawBody where
  isFat := true
  maxStack := 2
  initLocals := true
  localsToken := ⟨0x11000001⟩
  code := #[0x2A]
  clauses := [.finalizing 0 1 1 1, .catching 0 1 1 1 ⟨0x01000001⟩]

theorem decode_local_sectionChain :
    decode sectionChain = .ok chainedBody ∧ chainedBody.LiesIn sectionChain ∧
      decode (sectionChain ++ #[0xFF]) = .ok chainedBody ∧
      ∃ bytes, chainedBody.encode = .ok bytes ∧ decode bytes = .ok chainedBody := by
  have hread : decode sectionChain = .ok chainedBody := rfl
  obtain ⟨hmore, hlies, hagain⟩ := (decode_local sectionChain).2.2 chainedBody hread
  exact ⟨hread, hlies, hmore #[0xFF], hagain (by decide)⟩

end RawBody

end CilMetadata

import CilMetadata.Graph.Code
import CilMetadata.Proofs.Body.Locality
import CilMetadata.Proofs.Body.Pipeline
import CilMetadata.Proofs.Graph.Cache
import CilMetadata.Proofs.Instruction.Tiling

/-!
# Rebuilding a body that has been read

A body that is decoded from a stored one holds the code back to back, and keeps the stored depth.
Building it therefore only checks the labels and chooses the header.

* `Decodes` says what a decoded body has of the stored one; `build_of_decodes` is what building
  makes of it;
* `Graph.Gives` is for steps on a graph that cannot fail; what is looked up in a graph changes the
  local variables and the effects of calls, and nothing else;
* `rebuild_of_decode` puts both together, with and without a graph.
-/

namespace CilMetadata

/-! ### Looking up the tokens of code -/

namespace Graph

variable {α β : Type}

/-- The step succeeds on every graph, with a value that has the property. -/
def Gives (step : GraphM α) (p : α → Prop) : Prop := ∀ g, ∃ a g', step g = .ok a g' ∧ p a

theorem gives_pure {p : α → Prop} {a : α} (h : p a) : Gives (pure a) p := fun g => ⟨a, g, rfl, h⟩

theorem gives_get : Gives (get : GraphM Graph) fun _ => True := fun g => ⟨g, g, rfl, trivial⟩

theorem Gives.bind {step : GraphM α} {f : α → GraphM β} {p : α → Prop} {q : β → Prop}
    (h : Gives step p) (hrest : ∀ a, p a → Gives (f a) q) : Gives (step >>= f) q := by
  intro g
  obtain ⟨a, mid, hstep, ha⟩ := h g
  obtain ⟨b, g', hf, hb⟩ := hrest a ha mid
  exact ⟨b, g', bind_eq_ok.2 ⟨a, mid, hstep, hf⟩, hb⟩

/-- A first step that is chosen by a test. -/
theorem bind_of_ite_ok {p : Prop} [Decidable p] {step other : GraphM α} {f : α → GraphM β}
    {g g' : Graph} {a : α} (h : (if p then step else other) g = .ok a g') :
    (if p then step >>= f else other >>= f) g = f a g' := by
  split_ifs at h ⊢
  · exact bind_of_ok h
  · exact bind_of_ok h

theorem gives_attempt (step : GraphM α) : Gives (attempt step) fun _ => True := by
  intro g
  unfold attempt
  cases step g with
  | ok a g' => exact ⟨_, g', rfl, trivial⟩
  | error fault g' => exact ⟨_, g', rfl, trivial⟩

theorem gives_memberOf (kind : MemberKind) (token : Token) :
    Gives (memberOf kind token) fun _ => True := by
  intro g
  cases hmember : g.members[token]? with
  | some member => exact ⟨member, g, memberOf_of_some hmember, trivial⟩
  | none => exact ⟨_, _, memberOf_of_none hmember, trivial⟩

theorem gives_lookup (token : Token) : Gives (lookup token) fun _ => True := by
  refine gives_get.bind fun g _ => ?_
  split_ifs
  · cases token.table?.bind MemberKind.ofTable? with
    | some kind => exact (gives_memberOf kind token).bind fun _ _ => gives_pure trivial
    | none => exact gives_pure trivial
  · exact gives_pure trivial

theorem gives_calleeOf (member : Member) : Gives (calleeOf member) fun _ => True :=
  (gives_attempt _).bind fun _ _ => gives_pure trivial

theorem gives_callee? (member : Member) : Gives (callee? member) fun _ => True := by
  unfold callee?
  split_ifs
  · refine (gives_attempt _).bind fun method _ => ?_
    cases method.toOption.join with
    | none => exact gives_pure trivial
    | some method => exact gives_calleeOf method
  · exact gives_calleeOf member

theorem gives_effectOf? (value : UInt16) (member : Member) :
    Gives (effectOf? value member) fun _ => True := by
  unfold effectOf?
  split_ifs
  · exact (gives_callee? member).bind fun _ _ => gives_pure trivial
  · exact (gives_callee? member).bind fun _ _ => gives_pure trivial
  · refine (gives_attempt _).bind fun site _ => ?_
    split <;> exact gives_pure trivial
  · exact gives_pure trivial

/-- Of an instruction only the effect of its call is looked up. -/
theorem gives_annotate (ins : Instruction) :
    Gives (annotate ins) fun ins' => ins'.bare = ins.bare := by
  unfold annotate
  split
  · exact gives_pure rfl
  · split_ifs
    · exact gives_pure rfl
    · refine (gives_lookup _).bind fun found _ => ?_
      cases found with
      | none => exact gives_pure rfl
      | some member => exact (gives_effectOf? _ member).bind fun _ _ => gives_pure rfl

theorem gives_annotateAll (code : List Instruction) :
    Gives (annotateAll code) fun code' =>
      code'.map Instruction.bare = code.map Instruction.bare := by
  induction code with
  | nil => exact gives_pure rfl
  | cons ins rest ih =>
    refine (gives_annotate ins).bind fun ins' hins => ih.bind fun rest' hrest => gives_pure ?_
    rw [List.map_cons, List.map_cons, hins, hrest]

theorem gives_localsOf (token : Token) : Gives (localsOf token) fun _ => True := by
  refine (gives_lookup token).bind fun found _ => ?_
  split
  · refine (gives_attempt _).bind fun site _ => ?_
    split <;> exact gives_pure trivial
  · exact gives_pure trivial

end Graph

namespace Instruction

/-! ### Code without the effects of its calls -/

theorem bare_eq_iff {ins ins' : Instruction} :
    ins.bare = ins'.bare ↔
      ins.opcode = ins'.opcode ∧ ins.operand = ins'.operand ∧ ins.offset = ins'.offset := by
  simp [bare]

theorem size_bare (ins : Instruction) : ins.bare.size = ins.size := rfl

theorem totalSize_map_bare (code : List Instruction) :
    totalSize (code.map bare) = totalSize code := by
  induction code with
  | nil => rfl
  | cons ins rest ih => rw [List.map_cons, totalSize_cons, totalSize_cons, ih, size_bare]

theorem layOutFrom_map_bare (n : Nat) (code : List Instruction) :
    layOutFrom n (code.map bare) = (layOutFrom n code).map bare := by
  induction code generalizing n with
  | nil => rfl
  | cons ins rest ih =>
    rw [List.map_cons, layOutFrom, layOutFrom, List.map_cons, ih, size_bare]
    rfl

/-- Whether code is laid out does not depend on the effects of its calls. -/
theorem layOutFrom_eq_self_iff {n : Nat} {code : List Instruction} :
    layOutFrom n (code.map bare) = code.map bare ↔ layOutFrom n code = code := by
  rw [layOutFrom_map_bare]
  refine ⟨fun h => ?_, fun h => by rw [h]⟩
  induction code generalizing n with
  | nil => rfl
  | cons ins rest ih =>
    rw [layOutFrom, List.map_cons, List.map_cons, List.cons.injEq, bare_eq_iff] at h
    obtain ⟨⟨-, -, hoffset⟩, hrest⟩ := h
    rw [layOutFrom, ih hrest]
    exact congrArg (fun offset => { ins with offset } :: rest) hoffset

theorem code?_map_bare (code : List Instruction) : code? (code.map bare) = code? code := by
  have heach : Encoder.each encode (code.map bare) = Encoder.each encode code := by
    induction code with
    | nil => rfl
    | cons ins rest ih =>
      rw [List.map_cons, Encoder.each, Encoder.each, ih]
      rfl
  rw [code?, heach, code?]

end Instruction

/-! ### Building what has been read -/

theorem Instruction.tiles_of_stream {bytes : Array UInt8} {code : List Instruction}
    (h : stream bytes = .ok code) : Tiles 0 bytes.toList code := by
  obtain ⟨c, hrun⟩ := Decoder.value?_eq_ok.1 h
  obtain ⟨taken, hahead, rfl, htiles⟩ := takesAt_decodeAll bytes.size 0 _ c code rfl hrun
  have hend := @atEnd_of_decodeAll bytes.size { bytes } _ code (Nat.sub_le _ _) hrun
  rw [Cursor.hasMore, decide_eq_false_iff_not] at hend
  -- Nothing is left, so what was taken is all there is.
  have hall : taken = bytes.toList :=
    List.IsPrefix.eq_of_length_le hahead (by simpa using hend)
  exact hall ▸ htiles

namespace MethodBody

open Instruction (totalSize bare)

/-- A body that holds what is stored: the code back to back, and the values of the header. Its
stack depth is kept, and it has no local variables where none are stored. -/
structure Decodes (raw : RawBody) (body : MethodBody) : Prop where
  layout : Instruction.layOut body.instructions = body.instructions
  size : totalSize body.instructions = raw.code.size
  code : Instruction.code? body.instructions = .ok raw.code
  clauses : body.clauses = raw.clauses
  localsToken : body.localsToken = raw.localsToken
  maxStack : body.maxStack = raw.maxStack
  initLocals : body.initLocals = raw.initLocals
  keepsDepth : body.computesDepth = false
  noLocals : raw.localsToken.isNull = true → body.locals = []

variable {raw : RawBody} {body plain : MethodBody} {settings : Settings}

theorem ofRaw_eq_ok (h : ofRaw settings raw = .ok body) :
    ∃ code, Instruction.stream raw.code = .ok code ∧ body = {
      instructions := code
      clauses := raw.clauses
      localsToken := raw.localsToken
      maxStack := raw.maxStack
      initLocals := raw.initLocals
      computesDepth := false
      checksLabels := settings.checksLabels } := by
  unfold ofRaw at h
  cases hstream : Instruction.stream raw.code with
  | error fault =>
    rw [hstream] at h
    cases h
  | ok code =>
    rw [hstream] at h
    cases h
    exact ⟨code, rfl, rfl⟩

theorem decodes_of_ofRaw (h : ofRaw settings raw = .ok body) : Decodes raw body := by
  obtain ⟨code, hstream, rfl⟩ := ofRaw_eq_ok h
  have htiles := Instruction.tiles_of_stream hstream
  exact ⟨htiles.layout, htiles.size.symm, htiles.emits.bytes?, rfl, rfl, rfl, rfl, rfl,
    fun _ => rfl⟩

/-- What is decoded does not depend on the effects of calls. -/
theorem Decodes.congr (h : Decodes raw plain) {code : List Instruction} {locals : List TypeSig}
    (hcode : code.map bare = plain.instructions.map bare)
    (hlocals : raw.localsToken.isNull = true → locals = []) :
    Decodes raw { plain with instructions := code, locals } where
  layout := by
    refine Instruction.layOutFrom_eq_self_iff.1 ?_
    rw [hcode]
    exact Instruction.layOutFrom_eq_self_iff.2 h.layout
  size := by
    rw [← h.size, ← Instruction.totalSize_map_bare, hcode, Instruction.totalSize_map_bare]
  code := by
    rw [← h.code, ← Instruction.code?_map_bare, hcode, Instruction.code?_map_bare]
  clauses := h.clauses
  localsToken := h.localsToken
  maxStack := h.maxStack
  initLocals := h.initLocals
  keepsDepth := h.keepsDepth
  noLocals := hlocals

/-- The labels that building reports. -/
def reported (body : MethodBody) (size : Nat) : List BadLabel :=
  if body.checksLabels then body.badLabels size else []

theorem layOut_of_decodes (h : Decodes raw body) : layOut body = .ok raw.code.size body := by
  rw [layOut_eq, laidOut, h.layout, h.size]

theorem checkLabels_of_decodes (h : Decodes raw body) :
    checkLabels body = match body.badLabels raw.code.size with
      | [] => .ok () body
      | labels => .error (.invalidLabels labels) body := by
  have hget : (get : BodyStep MethodBody) body = .ok body body := rfl
  rw [checkLabels, bind_of_ok (layOut_of_decodes h), bind_of_ok hget]
  cases body.badLabels raw.code.size <;> rfl

theorem toRaw_of_decodes (h : Decodes raw body) : body.toRaw = .ok (body.stored raw.code) := by
  rw [toRaw, h.code]
  rfl

/-- What is left to be done when the labels have been checked. -/
theorem finish_of_decodes (h : Decodes raw body) :
    (do
      if (← get).computesDepth then
        let depth ← computeDepth
        modify fun body => { body with maxStack := depth }
      match (← get).toRaw with
      | .ok raw => return raw
      | .error fault => throw fault : BodyStep RawBody) body = .ok (body.stored raw.code) body := by
  have hget : (get : BodyStep MethodBody) body = .ok body body := rfl
  rw [bind_of_ok hget]
  dsimp only
  rw [h.keepsDepth, if_neg Bool.false_ne_true, bind_of_ok hget, toRaw_of_decodes h]
  rfl

/-- Building checks the labels, and changes nothing in the body. -/
theorem build_of_decodes (h : Decodes raw body) :
    build body = match body.reported raw.code.size with
      | [] => .ok (body.stored raw.code) body
      | labels => .error (.invalidLabels labels) body := by
  have hget : (get : BodyStep MethodBody) body = .ok body body := rfl
  rw [build, bind_of_ok (layOut_of_decodes h), bind_of_ok hget, reported]
  cases hchecks : body.checksLabels with
  | false =>
    rw [if_neg Bool.false_ne_true]
    exact finish_of_decodes h
  | true =>
    have hcheck := checkLabels_of_decodes h
    rw [if_pos rfl, if_pos rfl]
    cases hlabels : body.badLabels raw.code.size with
    | nil =>
      rw [hlabels] at hcheck
      rw [bind_of_ok hcheck]
      exact finish_of_decodes h
    | cons label labels =>
      rw [hlabels] at hcheck
      rw [bind_of_error hcheck]

/-- A tiny header gives nothing but the code. -/
theorem tiny_of_read {c c' : Cursor} (h : RawBody.read c = .ok raw c')
    (htiny : raw.isFat = false) :
    raw.code.size ≤ 63 ∧ raw = { isFat := false, maxStack := 8, initLocals := false,
                                 localsToken := .null, code := raw.code, clauses := [] } := by
  unfold RawBody.read at h
  obtain ⟨head, mid, -, hbody⟩ := bind_eq_ok.1 h
  split at hbody
  · obtain ⟨_, behind, -, hrest⟩ := bind_eq_ok.1 hbody
    have hsize := (RawBody.readTiny_ok hrest).1
    rw [RawBody.Storable, htiny, if_neg Bool.false_ne_true] at hsize
    obtain ⟨code, _, -, hcode⟩ := bind_eq_ok.1 hrest
    cases hcode
    exact ⟨hsize.1, rfl⟩
  · split at hbody
    · have hfat := (RawBody.readFat_ok hbody).1
      rw [htiny] at hfat
      cases hfat
    · cases hbody

theorem codeSize_of_decodes (h : Decodes raw body) (hsize : raw.code.size < 0x100000000) :
    body.codeSize = raw.code.size := by
  have hcodeSize := codeSize_laidOut (by rwa [h.size]) body.maxStack
  rwa [laidOut, h.layout, h.size] at hcodeSize

/-- A tiny body, or one that gets a fat header, is stored as it was. -/
theorem stored_of_decodes {c c' : Cursor} (hread : RawBody.read c = .ok raw c')
    (h : Decodes raw body) (hheader : raw.isFat = false ∨ body.isFat = true) :
    body.stored raw.code = raw := by
  cases hform : raw.isFat with
  | false =>
    obtain ⟨hsize, hraw⟩ := tiny_of_read hread hform
    have hnull : raw.localsToken.isNull = true := by
      rw [hraw]
      exact (by decide : Token.null.isNull = true)
    have htiny : body.isFat = false := by
      refine (isFat_eq_false_iff body).2 ⟨?_, h.noLocals hnull, ?_, ?_⟩
      · rw [h.clauses, hraw]
      · rw [h.maxStack, hraw]
        exact UInt16.le_refl 8
      · rw [codeSize_of_decodes h (by omega)]
        exact hsize
    rw [stored, htiny, h.maxStack, h.clauses, hraw]
    simp
  | true =>
    have hfat : body.isFat = true := hheader.resolve_left (by simp [hform])
    rw [stored, hfat, h.maxStack, h.clauses, h.localsToken, h.initLocals, Bool.and_true, if_pos rfl,
      ← hform]

/-! ### Rebuilding -/

/-- What building a body that holds a stored one comes to: the labels are reported, or the code,
the clauses and the stack depth are stored again, and all else unless a fat header gets lost. -/
def Rebuilds (raw : RawBody) (body : MethodBody) : Prop :=
  (∃ label labels, body.reported raw.code.size = label :: labels ∧
    build body = .error (.invalidLabels (label :: labels)) body) ∨
  (body.reported raw.code.size = [] ∧ ∃ raw', build body = .ok raw' body ∧
    raw'.code = raw.code ∧ raw'.clauses = raw.clauses ∧ raw'.maxStack = raw.maxStack ∧
    (raw.isFat = false ∨ body.isFat = true → raw' = raw))

theorem rebuilds_of_decodes {c c' : Cursor} (hread : RawBody.read c = .ok raw c')
    (h : Decodes raw body) : Rebuilds raw body := by
  have hbuild := build_of_decodes h
  cases hlabels : body.reported raw.code.size with
  | cons label labels =>
    rw [hlabels] at hbuild
    exact .inl ⟨label, labels, hlabels, hbuild⟩
  | nil =>
    rw [hlabels] at hbuild
    exact .inr ⟨hlabels, body.stored raw.code, hbuild, rfl, h.clauses, h.maxStack,
      stored_of_decodes hread h⟩

end MethodBody

namespace Graph

open MethodBody (ofRaw)

variable {bytes : Array UInt8} {raw : RawBody} {g : Graph}

theorem read_eq_ofRaw (hraw : RawBody.decode bytes = .ok raw) (settings : Settings) :
    MethodBody.read settings bytes = ofRaw settings raw := by
  rw [MethodBody.read, hraw]
  rfl

theorem readBody_of_error (hraw : RawBody.decode bytes = .ok raw) {fault : Fault}
    (h : ofRaw g.settings raw = .error fault) : readBody bytes g = .error fault g := by
  rw [readBody, get_bind_apply, read_eq_ofRaw hraw, h]
  rfl

/-- The local variables are looked up if there are any. -/
theorem gives_locals (settings : Settings) (token : Token) :
    Gives (if settings.readsLocals && !token.isNull then localsOf token else pure [])
      fun locals => token.isNull = true → locals = [] := by
  split_ifs with hread
  · intro g
    obtain ⟨locals, g', hrun, -⟩ := gives_localsOf token g
    refine ⟨locals, g', hrun, fun hnull => ?_⟩
    simp [hnull] at hread
  · exact gives_pure fun _ => rfl

theorem gives_instructions (settings : Settings) (code : List Instruction) :
    Gives (if settings.annotatesCalls then annotateAll code else pure code)
      fun code' => code'.map Instruction.bare = code.map Instruction.bare := by
  split_ifs
  · exact gives_annotateAll code
  · exact gives_pure rfl

/-- In a graph a body is decoded as it is without one; then the local variables are looked up, if
there are any, and the effects of the calls. -/
theorem readBody_of_ok (hraw : RawBody.decode bytes = .ok raw) {plain : MethodBody}
    (h : ofRaw g.settings raw = .ok plain) :
    ∃ code locals g', readBody bytes g = .ok { plain with instructions := code, locals } g' ∧
      code.map Instruction.bare = plain.instructions.map Instruction.bare ∧
      (raw.localsToken.isNull = true → locals = []) := by
  have htoken := (MethodBody.decodes_of_ofRaw h).localsToken
  rw [readBody, get_bind_apply, read_eq_ofRaw hraw, h]
  obtain ⟨locals, mid, hlocals, hnone⟩ := gives_locals g.settings plain.localsToken g
  obtain ⟨code, g', hcode, hsame⟩ := gives_instructions g.settings plain.instructions mid
  refine ⟨code, locals, g', ?_, hsame, htoken ▸ hnone⟩
  exact (bind_of_ite_ok hlocals).trans (bind_of_ite_ok hcode)

end Graph

namespace MethodBody

open Instruction (bare)

theorem ofRaw_congr (settings settings' : Settings) (raw : RawBody) :
    ofRaw settings' raw = (ofRaw settings raw).map fun body =>
      { body with checksLabels := settings'.checksLabels } := by
  unfold ofRaw
  cases Instruction.stream raw.code <;> rfl

/-- **A body that is read and not changed is built as it was stored.** Building it reports labels,
or gives back the code, the clauses and the stack depth, and all of a body with a tiny header or of
one that gets a fat header. A graph does not change whether the body is read; it adds the types of
local variables and the effects of calls. -/
theorem rebuild_of_decode {bytes : Array UInt8} {raw : RawBody}
    (hraw : RawBody.decode bytes = .ok raw) (settings : Settings) :
    (∀ fault, ofRaw settings raw = .error fault → ∀ g : Graph,
      Graph.readBody bytes g = .error fault g) ∧
    ∀ plain, ofRaw settings raw = .ok plain → Rebuilds raw plain ∧
      ∀ g : Graph, ∃ body g', Graph.readBody bytes g = .ok body g' ∧ Rebuilds raw body ∧
        body.instructions.map bare = plain.instructions.map bare ∧
        body = { plain with instructions := body.instructions, locals := body.locals,
                            checksLabels := g.settings.checksLabels } := by
  obtain ⟨c, hread⟩ := RawBody.read_of_decode hraw
  refine ⟨fun fault hfault g => ?_, fun plain hplain => ⟨?_, fun g => ?_⟩⟩
  · refine Graph.readBody_of_error hraw ?_
    rw [ofRaw_congr settings, hfault]
    rfl
  · exact rebuilds_of_decodes hread (decodes_of_ofRaw hplain)
  · have hhere : ofRaw g.settings raw =
        .ok { plain with checksLabels := g.settings.checksLabels } := by
      rw [ofRaw_congr settings, hplain]
      rfl
    obtain ⟨code, locals, g', hrun, hcode, hlocals⟩ := Graph.readBody_of_ok hraw hhere
    exact ⟨_, g', hrun, rebuilds_of_decodes hread
      ((decodes_of_ofRaw hhere).congr hcode hlocals), hcode, rfl⟩

/-- The bytes of a call in a protected range, with a handler that drops the exception. -/
def guardedBytes : Array UInt8 :=
  #[0x1B, 0x30, 0x01, 0x00, 0x0B, 0x00, 0x00, 0x00, 0x00, 0x00, 0x00, 0x00,
    0x28, 0x01, 0x00, 0x00, 0x06, 0xDE, 0x03, 0x26, 0xDE, 0x00, 0x2A, 0x00,
    0x01, 0x10, 0x00, 0x00, 0x00, 0x00, 0x00, 0x00, 0x07, 0x07, 0x00, 0x03, 0x02, 0x00, 0x00, 0x01]

/-- The stored body in `guardedBytes`. -/
def guardedRaw : RawBody :=
  (guardedCall.laidOut 1).stored
    #[0x28, 0x01, 0x00, 0x00, 0x06, 0xDE, 0x03, 0x26, 0xDE, 0x00, 0x2A]

theorem rebuild_of_decode_guarded :
    RawBody.decode guardedBytes = .ok guardedRaw ∧
      ∃ plain, ofRaw .standard guardedRaw = .ok plain ∧ build plain = .ok guardedRaw plain ∧
        ∀ g : Graph, ∃ body g', Graph.readBody guardedBytes g = .ok body g' ∧
          Rebuilds guardedRaw body := by
  have hraw : RawBody.decode guardedBytes = .ok guardedRaw := rfl
  have hplain : ofRaw .standard guardedRaw =
      .ok { guardedCall.laidOut 1 with
        instructions := (guardedCall.laidOut 1).instructions.map bare } := rfl
  obtain ⟨hrebuilds, hgraph⟩ := (rebuild_of_decode hraw .standard).2 _ hplain
  refine ⟨hraw, _, hplain, ?_, fun g => ?_⟩
  · rcases hrebuilds with ⟨label, labels, hlabels, -⟩ | ⟨-, raw', hbuild, -, -, -, hsame⟩
    · cases hlabels
    · rwa [hsame (.inr rfl)] at hbuild
  · obtain ⟨body, g', hrun, hbody, -⟩ := hgraph g
    exact ⟨body, g', hrun, hbody⟩

end MethodBody

end CilMetadata

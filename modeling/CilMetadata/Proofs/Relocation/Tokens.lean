import CilMetadata.Proofs.Relocation.Flush
import CilMetadata.Proofs.Signature.Substitution
import CilMetadata.Relocation.Values

/-!
# Where relocations find tokens

A relocation goes to every token of a value, and what it does there depends on nothing but the
token. So relocating is changing tokens by a map, and two relocations in turn are one change by the
composed map.

* `mapTokens f` changes the tokens of trees, signatures, instructions, clauses and bodies; rows and
  tables have it already;
* `relocate_eq` says of each of them that relocating changes tokens by `resolve`;
* `mapTokens_mapTokens` composes two changes, `tokens_mapTokens` says that no token of a tree is
  passed over.

The token of a user string is none of the tokens that are changed. Two changes therefore compose
only as long as the first one makes no other token into one (`KeepsStrings`).
-/

namespace CilMetadata

/-! ### Trees -/

namespace TypeSig

mutual

/-- The tokens of a tree, from left to right: of references, of generic definitions and of
specifications. -/
def tokens : TypeSig → List Token
  | .named _ token => [token]
  | .wrapped _ inner => inner.tokens
  | .array base _ => base.tokens
  | .applied _ definition arguments => definition :: tokensOfAll arguments
  | .modified _ modifier base => modifier.tokens ++ base.tokens
  | .typeSpec token expansion => token :: expansion.tokens
  | .primitive _ | .generic _ | .sentinel | .invalid _ => []

/-- The tokens of several trees. -/
def tokensOfAll : List TypeSig → List Token
  | [] => []
  | type :: rest => type.tokens ++ tokensOfAll rest

end

variable (f g : Token → Token)

mutual

/-- Change the tokens of a tree. -/
def mapTokens : TypeSig → TypeSig
  | .named form token => .named form (f token)
  | .wrapped wrapper inner => .wrapped wrapper inner.mapTokens
  | .array base shape => .array base.mapTokens shape
  | .applied form definition arguments => .applied form (f definition) (mapTokensOfAll arguments)
  | .modified required modifier base => .modified required modifier.mapTokens base.mapTokens
  | .typeSpec token expansion => .typeSpec (f token) expansion.mapTokens
  | .primitive type => .primitive type
  | .generic param => .generic param
  | .sentinel => .sentinel
  | .invalid cause => .invalid cause

/-- Change the tokens of several trees. -/
def mapTokensOfAll : List TypeSig → List TypeSig
  | [] => []
  | type :: rest => type.mapTokens :: mapTokensOfAll rest

end

theorem mapTokensOfAll_eq (sigs : List TypeSig) :
    mapTokensOfAll f sigs = sigs.map (mapTokens f) := by
  induction sigs with
  | nil => rfl
  | cons sig rest ih => rw [mapTokensOfAll, List.map_cons, ih]

mutual

/-- No token of a tree is passed over. -/
theorem tokens_mapTokens (sig : TypeSig) : (sig.mapTokens f).tokens = sig.tokens.map f := by
  match sig with
  | .primitive _ | .named _ _ | .generic _ | .sentinel | .invalid _ => rfl
  | .wrapped _ inner => exact tokens_mapTokens inner
  | .array base _ => exact tokens_mapTokens base
  | .applied _ _ arguments => simp only [mapTokens, tokens, List.map_cons, tokensOfAll_mapTokens]
  | .modified _ modifier base =>
    simp only [mapTokens, tokens, List.map_append, tokens_mapTokens modifier,
      tokens_mapTokens base]
  | .typeSpec _ expansion =>
    simp only [mapTokens, tokens, List.map_cons, tokens_mapTokens expansion]

theorem tokensOfAll_mapTokens (sigs : List TypeSig) :
    tokensOfAll (mapTokensOfAll f sigs) = (tokensOfAll sigs).map f := by
  match sigs with
  | [] => rfl
  | sig :: rest =>
    simp only [mapTokensOfAll, tokensOfAll, List.map_append, tokens_mapTokens sig,
      tokensOfAll_mapTokens rest]

end

mutual

theorem mapTokens_mapTokens (sig : TypeSig) :
    (sig.mapTokens f).mapTokens g = sig.mapTokens (g ∘ f) := by
  match sig with
  | .primitive _ | .named _ _ | .generic _ | .sentinel | .invalid _ => rfl
  | .wrapped _ inner => simp only [mapTokens, mapTokens_mapTokens inner]
  | .array base _ => simp only [mapTokens, mapTokens_mapTokens base]
  | .applied _ _ arguments =>
    simp only [mapTokens, mapTokensOfAll_mapTokensOfAll arguments, Function.comp_apply]
  | .modified _ modifier base =>
    simp only [mapTokens, mapTokens_mapTokens modifier, mapTokens_mapTokens base]
  | .typeSpec _ expansion =>
    simp only [mapTokens, mapTokens_mapTokens expansion, Function.comp_apply]

theorem mapTokensOfAll_mapTokensOfAll (sigs : List TypeSig) :
    mapTokensOfAll g (mapTokensOfAll f sigs) = mapTokensOfAll (g ∘ f) sigs := by
  match sigs with
  | [] => rfl
  | sig :: rest =>
    simp only [mapTokensOfAll, mapTokens_mapTokens sig, mapTokensOfAll_mapTokensOfAll rest]

end

variable (moves : Relocation)

mutual

theorem relocate_eq (sig : TypeSig) : sig.relocate moves = sig.mapTokens moves.resolve := by
  match sig with
  | .primitive _ | .named _ _ | .generic _ | .sentinel | .invalid _ => rfl
  | .wrapped _ inner => rw [relocate, mapTokens, relocate_eq inner]
  | .array base _ => rw [relocate, mapTokens, relocate_eq base]
  | .applied _ _ arguments => rw [relocate, mapTokens, relocateAll_eq arguments]
  | .modified _ modifier base =>
    rw [relocate, mapTokens, relocate_eq modifier, relocate_eq base]
  | .typeSpec _ expansion => rw [relocate, mapTokens, relocate_eq expansion]

theorem relocateAll_eq (sigs : List TypeSig) :
    relocateAll moves sigs = mapTokensOfAll moves.resolve sigs := by
  match sigs with
  | [] => rfl
  | sig :: rest => rw [relocateAll, mapTokensOfAll, relocate_eq sig, relocateAll_eq rest]

end

end TypeSig

/-! ### Signatures -/

namespace Signature

/-- Change the tokens of a signature. -/
def mapTokens (f : Token → Token) (sig : Signature) : Signature :=
  sig.mapTrees (TypeSig.mapTokens f)

theorem relocate_eq (moves : Relocation) (sig : Signature) :
    sig.relocate moves = sig.mapTokens moves.resolve := by
  cases sig <;>
    simp only [relocate, mapTokens, mapTrees, MethodSig.relocate, LocalsSig.relocate,
      TypeSig.relocate_eq, TypeSig.relocateAll_eq, TypeSig.mapTokensOfAll_eq]

end Signature

namespace MethodSig

/-- Change the tokens of a method signature. -/
def mapTokens (f : Token → Token) (sig : MethodSig) : MethodSig :=
  { sig with
    returnType := sig.returnType.mapTokens f
    params := sig.params.map (TypeSig.mapTokens f)
    varargs := sig.varargs.map (TypeSig.mapTokens f) }

theorem relocate_eq (moves : Relocation) (sig : MethodSig) :
    sig.relocate moves = sig.mapTokens moves.resolve := by
  simp only [relocate, mapTokens, TypeSig.relocate_eq, TypeSig.relocateAll_eq,
    TypeSig.mapTokensOfAll_eq]

theorem mapTokens_mapTokens (f g : Token → Token) (sig : MethodSig) :
    (sig.mapTokens f).mapTokens g = sig.mapTokens (g ∘ f) := by
  simp [mapTokens, TypeSig.mapTokens_mapTokens]

end MethodSig

/-! ### Method bodies -/

/-- A change of tokens that makes no other token into the one of a user string. -/
def KeepsStrings (f : Token → Token) : Prop :=
  ∀ token, token.tag ≠ Token.userStringTag → (f token).tag ≠ Token.userStringTag

/-- Change the token of an operand, unless it names a user string. -/
def Operand.mapToken (f : Token → Token) : Operand → Operand
  | .token reference =>
    .token (if reference.tag = Token.userStringTag then reference else f reference)
  | operand => operand

/-- Change the token of an instruction. -/
def Instruction.mapToken (f : Token → Token) (ins : Instruction) : Instruction :=
  { ins with operand := ins.operand.mapToken f }

/-- Change the type that a clause catches, if it catches one. -/
def Clause.mapToken (f : Token → Token) (clause : Clause) : Clause :=
  { clause with
    classOrFilter := if clause.isCatch then (f ⟨clause.classOrFilter⟩).value
      else clause.classOrFilter }

/-- Change the tokens of a method body. -/
def MethodBody.mapTokens (f : Token → Token) (body : MethodBody) : MethodBody :=
  { body with
    instructions := body.instructions.map (Instruction.mapToken f)
    clauses := body.clauses.map (Clause.mapToken f)
    localsToken := f body.localsToken
    locals := body.locals.map (TypeSig.mapTokens f) }

theorem Operand.mapToken_mapToken {f : Token → Token} (hf : KeepsStrings f) (g : Token → Token)
    (operand : Operand) : (operand.mapToken f).mapToken g = operand.mapToken (g ∘ f) := by
  cases operand with
  | token reference =>
    by_cases htag : reference.tag = Token.userStringTag
    · simp [mapToken, htag]
    · simp [mapToken, htag, hf reference htag]
  | _ => rfl

theorem Instruction.mapToken_mapToken {f : Token → Token} (hf : KeepsStrings f) (g : Token → Token)
    (ins : Instruction) : (ins.mapToken f).mapToken g = ins.mapToken (g ∘ f) :=
  congrArg (fun operand => { ins with operand }) (Operand.mapToken_mapToken hf g ins.operand)

theorem Instruction.relocate_eq (moves : Relocation) (ins : Instruction) :
    ins.relocate moves = ins.mapToken moves.resolve := by
  obtain ⟨opcode, operand, offset, callEffect⟩ := ins
  cases operand with
  | token reference =>
    by_cases htag : reference.tag = Token.userStringTag <;>
      simp [relocate, mapToken, Operand.mapToken, htag]
  | _ => rfl

theorem Clause.relocate_eq (moves : Relocation) (clause : Clause) :
    clause.relocate moves = clause.mapToken moves.resolve := by
  by_cases hcatch : clause.isCatch = true <;> simp [relocate, mapToken, caughtType?, hcatch]

theorem Clause.mapToken_mapToken (f g : Token → Token) (clause : Clause) :
    (clause.mapToken f).mapToken g = clause.mapToken (g ∘ f) := by
  by_cases hcatch : clause.flags = 0 <;> simp [mapToken, isCatch, hcatch]

namespace MethodBody

theorem relocate_eq (moves : Relocation) (body : MethodBody) :
    body.relocate moves = body.mapTokens moves.resolve := by
  simp only [relocate, mapTokens, TypeSig.relocateAll_eq, TypeSig.mapTokensOfAll_eq,
    funext (Instruction.relocate_eq moves), funext (Clause.relocate_eq moves)]

theorem mapTokens_mapTokens {f : Token → Token} (hf : KeepsStrings f) (g : Token → Token)
    (body : MethodBody) : (body.mapTokens f).mapTokens g = body.mapTokens (g ∘ f) := by
  simp [mapTokens, TypeSig.mapTokens_mapTokens, Instruction.mapToken_mapToken hf,
    Clause.mapToken_mapToken]

end MethodBody

/-! ### Tables -/

section Tables

variable (f g : Token → Token)

theorem ColumnType.mapToken_mapToken (type : ColumnType) (cell : type.Cell) :
    type.mapToken g (type.mapToken f cell) = type.mapToken (g ∘ f) cell := by
  cases type <;> rfl

theorem Cells.mapTokens_mapTokens (columns : List Column) (cells : Cells columns) :
    mapTokens g columns (mapTokens f columns cells) = mapTokens (g ∘ f) columns cells := by
  induction columns with
  | nil => rfl
  | cons column rest ih =>
    obtain ⟨cell, cells⟩ := cells
    rw [mapTokens, mapTokens, mapTokens, ColumnType.mapToken_mapToken, ih]

/-- Changing the tokens of one row leaves the other rows as they are. -/
theorem RowArray.getElem?_mapTokensAt {kind : RowKind} (rows : RowArray kind) (place i : Nat) :
    (rows.mapTokensAt f (place + 1))[i]? = rows[i]?.map fun row =>
      if i = place then { row.mapTokens f with rid := place + 1 } else row := by
  rw [mapTokensAt, row?_succ]
  by_cases hplace : i = place
  · subst hplace
    cases hrow : rows[i]? with
    | none => simp [hrow]
    | some row =>
      have hlt := (Array.getElem?_eq_some_iff.1 hrow).1
      simp [replace_succ, hlt]
  · cases hrow : rows[place]? with
    | none => simp [hplace]
    | some row => simp [replace_succ, hplace, Ne.symm hplace]

/-- By induction on the number of rows whose tokens have been changed: the rows from there on are
as they were. -/
theorem RowArray.getElem?_foldl_mapTokensAt {kind : RowKind} (rows : RowArray kind) (n i : Nat) :
    ((List.range' 1 n).foldl (mapTokensAt f) rows)[i]? = rows[i]?.map fun row =>
      if i < n then { row.mapTokens f with rid := i + 1 } else row := by
  induction n with
  | zero => simp
  | succ n ih =>
    rw [List.range'_1_concat, List.foldl_append, List.foldl_cons, List.foldl_nil, Nat.add_comm 1 n,
      getElem?_mapTokensAt, ih, Option.map_map]
    congr 1
    funext row
    rcases Nat.lt_trichotomy i n with hlt | rfl | hgt
    · simp [Nat.ne_of_lt hlt, hlt, Nat.lt_succ_of_lt hlt]
    · simp
    · have hnot : ¬ i < n + 1 := by omega
      simp [Nat.ne_of_gt hgt, Nat.not_lt.2 (Nat.le_of_lt hgt), hnot]

/-- The rows of a table are numbered by their places when their tokens are changed. -/
theorem RowArray.toList_mapTokens {kind : RowKind} (rows : RowArray kind) :
    (rows.mapTokens f).toList =
      rows.toList.mapIdx fun i row => { row.mapTokens f with rid := i + 1 } := by
  apply List.ext_getElem?
  intro i
  rw [Array.getElem?_toList, mapTokens, getElem?_foldl_mapTokensAt, List.getElem?_mapIdx,
    Array.getElem?_toList]
  cases hrow : rows[i]? with
  | none => rfl
  | some row => simp [(Array.getElem?_eq_some_iff.1 hrow).1]

theorem RowArray.mapTokens_mapTokens {kind : RowKind} (rows : RowArray kind) :
    (rows.mapTokens f).mapTokens g = rows.mapTokens (g ∘ f) := by
  apply Array.toList_inj.1
  rw [toList_mapTokens, toList_mapTokens, toList_mapTokens, List.mapIdx_mapIdx]
  simp only [Function.comp_def, Row.mapTokens, Cells.mapTokens_mapTokens]

theorem Tables.mapTokens_mapTokens (tables : Tables) :
    (tables.mapTokens f).mapTokens g = tables.mapTokens (g ∘ f) := by
  simp only [mapTokens, map, RowArray.mapTokens_mapTokens]

end Tables

end CilMetadata

import CilMetadata.Proofs.Relocation.Tokens
import CilMetadata.Proofs.Signature.Composition

/-!
# Relocating before and after instantiation

A relocation changes tokens and leaves generic parameters alone; an instantiation does it the other
way round. Both may be done in either order, as long as the arguments are relocated along with the
signature they are put into.

* `GenericArguments.mapTokens` changes the tokens of all arguments, used or not;
* `TypeSig.mapTokens_substitute` is the law for trees;
* `Signature.instantiate_relocate` is the result for signatures of every kind, faults included.
-/

namespace CilMetadata

variable (f : Token → Token)

/-! ### Trees -/

namespace TypeSig

mutual

/-- The parameters of a tree stay where they are when its tokens are changed. -/
theorem parameters_mapTokens (sig : TypeSig) : (sig.mapTokens f).parameters = sig.parameters := by
  match sig with
  | .primitive _ | .named _ _ | .generic _ | .sentinel | .invalid _ => rfl
  | .wrapped _ inner => exact parameters_mapTokens inner
  | .array base _ => exact parameters_mapTokens base
  | .applied _ _ arguments => exact parametersOfAll_mapTokensOfAll arguments
  | .modified _ modifier base =>
    rw [mapTokens, parameters, parameters, parameters_mapTokens modifier, parameters_mapTokens base]
  | .typeSpec _ expansion => exact parameters_mapTokens expansion

theorem parametersOfAll_mapTokensOfAll (sigs : List TypeSig) :
    parametersOfAll (mapTokensOfAll f sigs) = parametersOfAll sigs := by
  match sigs with
  | [] => rfl
  | sig :: rest =>
    rw [mapTokensOfAll, parametersOfAll, parametersOfAll, parameters_mapTokens sig,
      parametersOfAll_mapTokensOfAll rest]

end

variable (put : GenericParam → TypeSig)

mutual

/-- The tokens of what is put in are changed along with the others. -/
theorem mapTokens_substitute (sig : TypeSig) :
    (sig.substitute put).mapTokens f =
      (sig.mapTokens f).substitute fun param => (put param).mapTokens f := by
  match sig with
  | .primitive _ | .named _ _ | .generic _ | .sentinel | .invalid _ => rfl
  | .wrapped _ inner => simp only [substitute, mapTokens, mapTokens_substitute inner]
  | .array base _ => simp only [substitute, mapTokens, mapTokens_substitute base]
  | .applied _ _ arguments =>
    simp only [substitute, mapTokens, mapTokensOfAll_substituteAll arguments]
  | .modified _ modifier base =>
    simp only [substitute, mapTokens, mapTokens_substitute modifier, mapTokens_substitute base]
  | .typeSpec _ expansion => simp only [substitute, mapTokens, mapTokens_substitute expansion]

theorem mapTokensOfAll_substituteAll (sigs : List TypeSig) :
    mapTokensOfAll f (substituteAll put sigs) =
      substituteAll (fun param => (put param).mapTokens f) (mapTokensOfAll f sigs) := by
  match sigs with
  | [] => rfl
  | sig :: rest =>
    simp only [substituteAll, mapTokensOfAll, mapTokens_substitute sig,
      mapTokensOfAll_substituteAll rest]

end

end TypeSig

/-! ### Arguments -/

namespace GenericArguments

/-- Change the tokens of all arguments. -/
def mapTokens (ctx : GenericArguments) : GenericArguments where
  typeArguments := ctx.typeArguments.map (List.map (TypeSig.mapTokens f))
  methodArguments := ctx.methodArguments.map (List.map (TypeSig.mapTokens f))

/-- Relocate all arguments. -/
def relocate (moves : Relocation) (ctx : GenericArguments) : GenericArguments where
  typeArguments := ctx.typeArguments.map (TypeSig.relocateAll moves)
  methodArguments := ctx.methodArguments.map (TypeSig.relocateAll moves)

theorem relocate_eq (moves : Relocation) (ctx : GenericArguments) :
    ctx.relocate moves = ctx.mapTokens moves.resolve := by
  have hall : TypeSig.relocateAll moves = List.map (TypeSig.mapTokens moves.resolve) := by
    funext sigs
    rw [TypeSig.relocateAll_eq, TypeSig.mapTokensOfAll_eq]
  rw [relocate, mapTokens, hall]

/-- A parameter has an argument as before, or is missed with the same fault. -/
theorem argument_mapTokens (ctx : GenericArguments) (param : GenericParam) :
    (ctx.mapTokens f).argument param = (ctx.argument param).map (TypeSig.mapTokens f) := by
  have harguments : (ctx.mapTokens f).arguments? param.kind =
      (ctx.arguments? param.kind).map (List.map (TypeSig.mapTokens f)) := by
    cases param.kind <;> rfl
  rw [argument, argument, harguments]
  cases ctx.arguments? param.kind with
  | none => rfl
  | some arguments =>
    simp only [Option.map_some, List.getElem?_map, List.length_map]
    cases arguments[param.index]? <;> rfl

theorem argumentFor_mapTokens (ctx : GenericArguments) :
    (ctx.mapTokens f).argumentFor = fun param => (ctx.argumentFor param).mapTokens f := by
  funext param
  unfold argumentFor
  rw [argument_mapTokens]
  cases ctx.argument param <;> rfl

end GenericArguments

/-- Results may be changed one by one or all together. -/
theorem Fault.mapM_map_result {α β γ : Type} (get : α → Except Fault β) (change : β → γ)
    (items : List α) :
    items.mapM (fun item => (get item).map change) = (items.mapM get).map (List.map change) := by
  induction items with
  | nil => rfl
  | cons item rest ih =>
    rw [List.mapM_cons, List.mapM_cons, ih]
    cases get item with
    | error fault => rfl
    | ok result => cases rest.mapM get <;> rfl

/-! ### Signatures -/

namespace Signature

theorem parameters_mapTokens (sig : Signature) : (sig.mapTokens f).parameters = sig.parameters := by
  simp only [parameters, mapTokens, trees_mapTrees, List.flatMap_map, TypeSig.parameters_mapTokens]

theorem instantiate_mapTokens (ctx : GenericArguments) (sig : Signature) :
    (sig.mapTokens f).instantiate (ctx.mapTokens f) =
      (sig.instantiate ctx).map (Signature.mapTokens f) := by
  have hargument : (ctx.mapTokens f).argument =
      fun param => (ctx.argument param).map (TypeSig.mapTokens f) :=
    funext (ctx.argument_mapTokens f)
  rw [instantiate_eq, instantiate_eq, parameters_mapTokens, hargument, Fault.mapM_map_result,
    ctx.argumentFor_mapTokens]
  cases sig.parameters.mapM ctx.argument with
  | error fault => rfl
  | ok arguments =>
    have htrees : (sig.mapTokens f).mapTrees
        (TypeSig.substitute fun param => (ctx.argumentFor param).mapTokens f) =
          (sig.mapTrees (TypeSig.substitute ctx.argumentFor)).mapTokens f := by
      simp only [mapTokens, mapTrees_mapTrees, TypeSig.mapTokens_substitute]
    exact congrArg Except.ok htrees

/-- **Relocating commutes with instantiation.** Instantiating a relocated signature with relocated
arguments gives the relocated instance of the signature, and fails exactly when instantiating the
signature as it was fails, with the same fault. -/
theorem instantiate_relocate (moves : Relocation) (ctx : GenericArguments) (sig : Signature) :
    (sig.relocate moves).instantiate (ctx.relocate moves) =
      (sig.instantiate ctx).map (Signature.relocate moves) := by
  have hrelocate : Signature.relocate moves = Signature.mapTokens moves.resolve :=
    funext (relocate_eq moves)
  rw [hrelocate, GenericArguments.relocate_eq, instantiate_mapTokens]

end Signature

end CilMetadata

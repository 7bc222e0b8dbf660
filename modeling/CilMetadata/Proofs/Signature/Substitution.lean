import CilMetadata.Proofs.Fault
import CilMetadata.Signature.Any
import Mathlib.Data.List.Basic

/-!
# Instantiation is substitution

Replacing generic parameters stops at every subtree without parameters, which is found out by
another walk over the tree. Here it is compared with the plain substitution, which rebuilds the
whole tree.

* `TypeSig.parameters` are the parameters of a tree from left to right, each place counted;
* `TypeSig.substitute f` puts `f param` in the place of every parameter;
* `TypeSig.instantiate_eq`: instantiation looks up the parameters in their order, and then
  substitutes.

The shortcut makes no difference (`instantiate_eq_rebuild`) because the search for parameters and
the rewriting go into the same subtrees. `Signature.instantiate_substitutes` is the result for
signatures of every kind.
-/

namespace CilMetadata

/-! ### Parameters -/

namespace TypeSig

mutual

/-- The generic parameters of a tree, from left to right: of a type under a modifier first those of
the modifier. -/
def parameters : TypeSig → List GenericParam
  | .generic param => [param]
  | .wrapped _ inner => inner.parameters
  | .array base _ => base.parameters
  | .applied _ _ arguments => parametersOfAll arguments
  | .modified _ modifier base => modifier.parameters ++ base.parameters
  | .typeSpec _ expansion => expansion.parameters
  | .primitive _ | .named _ _ | .sentinel | .invalid _ => []

/-- The generic parameters of several trees. -/
def parametersOfAll : List TypeSig → List GenericParam
  | [] => []
  | type :: rest => type.parameters ++ parametersOfAll rest

end

mutual

/-- Put a tree in the place of every generic parameter, all at once. -/
def substitute (f : GenericParam → TypeSig) : TypeSig → TypeSig
  | .generic param => f param
  | .wrapped wrapper inner => .wrapped wrapper (inner.substitute f)
  | .array base shape => .array (base.substitute f) shape
  | .applied form definition arguments => .applied form definition (substituteAll f arguments)
  | .modified required modifier base =>
    .modified required (modifier.substitute f) (base.substitute f)
  | .typeSpec token expansion => .typeSpec token (expansion.substitute f)
  | .primitive type => .primitive type
  | .named form token => .named form token
  | .sentinel => .sentinel
  | .invalid cause => .invalid cause

/-- Put a tree in the place of every generic parameter of several trees. -/
def substituteAll (f : GenericParam → TypeSig) : List TypeSig → List TypeSig
  | [] => []
  | type :: rest => type.substitute f :: substituteAll f rest

end

theorem parametersOfAll_eq (sigs : List TypeSig) :
    parametersOfAll sigs = sigs.flatMap parameters := by
  induction sigs with
  | nil => rfl
  | cons sig rest ih => rw [parametersOfAll, List.flatMap_cons, ih]

theorem substituteAll_eq (f : GenericParam → TypeSig) (sigs : List TypeSig) :
    substituteAll f sigs = sigs.map (substitute f) := by
  induction sigs with
  | nil => rfl
  | cons sig rest ih => rw [substituteAll, List.map_cons, ih]

mutual

/-- The search for parameters finds one if there is any. -/
theorem parameters_eq_nil_iff (sig : TypeSig) : sig.parameters = [] ↔ sig.hasGeneric = false := by
  match sig with
  | .primitive _ | .named _ _ | .sentinel | .invalid _ | .generic _ =>
    simp [parameters, hasGeneric]
  | .wrapped _ inner => exact parameters_eq_nil_iff inner
  | .array base _ => exact parameters_eq_nil_iff base
  | .applied _ _ arguments => exact parametersOfAll_eq_nil_iff arguments
  | .modified _ modifier base =>
    rw [parameters, hasGeneric, List.append_eq_nil_iff, Bool.or_eq_false_iff,
      parameters_eq_nil_iff modifier, parameters_eq_nil_iff base]
  | .typeSpec _ expansion => exact parameters_eq_nil_iff expansion

theorem parametersOfAll_eq_nil_iff (sigs : List TypeSig) :
    parametersOfAll sigs = [] ↔ anyGeneric sigs = false := by
  match sigs with
  | [] => simp [parametersOfAll, anyGeneric]
  | sig :: rest =>
    rw [parametersOfAll, anyGeneric, List.append_eq_nil_iff, Bool.or_eq_false_iff,
      parameters_eq_nil_iff sig, parametersOfAll_eq_nil_iff rest]

end

mutual

/-- After a substitution there are the parameters of what was put in, and no others. -/
theorem parameters_substitute (f : GenericParam → TypeSig) (sig : TypeSig) :
    (sig.substitute f).parameters = sig.parameters.flatMap fun param => (f param).parameters := by
  match sig with
  | .primitive _ | .named _ _ | .sentinel | .invalid _ => rfl
  | .generic param => simp [substitute, parameters]
  | .wrapped _ inner => exact parameters_substitute f inner
  | .array base _ => exact parameters_substitute f base
  | .applied _ _ arguments => exact parametersOfAll_substituteAll f arguments
  | .modified _ modifier base =>
    rw [substitute, parameters, parameters, List.flatMap_append, parameters_substitute f modifier,
      parameters_substitute f base]
  | .typeSpec _ expansion => exact parameters_substitute f expansion

theorem parametersOfAll_substituteAll (f : GenericParam → TypeSig) (sigs : List TypeSig) :
    parametersOfAll (substituteAll f sigs) =
      (parametersOfAll sigs).flatMap fun param => (f param).parameters := by
  match sigs with
  | [] => rfl
  | sig :: rest =>
    rw [substituteAll, parametersOfAll, parametersOfAll, List.flatMap_append,
      parameters_substitute f sig, parametersOfAll_substituteAll f rest]

end

end TypeSig

/-- The argument of a parameter, and the parameter itself where it has none. -/
def GenericArguments.argumentFor (ctx : GenericArguments) (param : GenericParam) : TypeSig :=
  match ctx.argument param with
  | .ok argument => argument
  | .error _ => .generic param

/-! ### Rewriting without the shortcut -/

namespace TypeSig

section Shortcut

variable (ctx : GenericArguments)

theorem instantiate_of_closed {sig : TypeSig} (h : sig.hasGeneric = false) :
    sig.instantiate ctx = .ok sig := by
  rw [instantiate.eq_def, h]
  rfl

theorem instantiateAll_of_closed {sigs : List TypeSig} (h : anyGeneric sigs = false) :
    instantiateAll ctx sigs = .ok sigs := by
  induction sigs with
  | nil => rfl
  | cons sig rest ih =>
    obtain ⟨hsig, hrest⟩ := Bool.or_eq_false_iff.1 h
    rw [instantiateAll, instantiate_of_closed ctx hsig, ih hrest]
    rfl

/-- Replace the parameters below a node, whether there are any or not. -/
def rebuild : TypeSig → Except Fault TypeSig
  | .generic param => ctx.argument param
  | .wrapped wrapper inner => return .wrapped wrapper (← inner.instantiate ctx)
  | .array base shape => return .array (← base.instantiate ctx) shape
  | .applied form definition arguments =>
    return .applied form definition (← instantiateAll ctx arguments)
  | .modified required modifier base =>
    return .modified required (← modifier.instantiate ctx) (← base.instantiate ctx)
  | .typeSpec token expansion => return .typeSpec token (← expansion.instantiate ctx)
  | .primitive type => .ok (.primitive type)
  | .named form token => .ok (.named form token)
  | .sentinel => .ok .sentinel
  | .invalid cause => .ok (.invalid cause)

/-- **The shortcut is none.** Where no parameter is found, rebuilding the node gives it back. -/
theorem instantiate_eq_rebuild (sig : TypeSig) : sig.instantiate ctx = sig.rebuild ctx := by
  cases h : sig.hasGeneric with
  | true =>
    rw [instantiate.eq_def, h]
    cases sig <;> rfl
  | false =>
    rw [instantiate_of_closed ctx h]
    cases sig with
    | primitive | named | sentinel | invalid => rfl
    | generic => cases h
    | wrapped _ inner => rw [rebuild, @instantiate_of_closed ctx inner h]; rfl
    | array base _ => rw [rebuild, @instantiate_of_closed ctx base h]; rfl
    | applied _ _ arguments => rw [rebuild, instantiateAll_of_closed ctx h]; rfl
    | modified _ modifier base =>
      obtain ⟨hmodifier, hbase⟩ := Bool.or_eq_false_iff.1 h
      rw [rebuild, instantiate_of_closed ctx hmodifier, instantiate_of_closed ctx hbase]
      rfl
    | typeSpec _ expansion => rw [rebuild, @instantiate_of_closed ctx expansion h]; rfl

mutual

/-- Instantiation looks up the parameters from left to right, and substitutes when all are there. -/
theorem instantiate_eq (sig : TypeSig) :
    sig.instantiate ctx = do
      let _ ← sig.parameters.mapM ctx.argument
      return sig.substitute ctx.argumentFor := by
  rw [instantiate_eq_rebuild]
  match sig with
  | .primitive _ | .named _ _ | .sentinel | .invalid _ => rfl
  | .generic param =>
    cases h : ctx.argument param <;> simp [rebuild, parameters, substitute, h,
      GenericArguments.argumentFor]
  | .wrapped _ inner => simp [rebuild, parameters, substitute, instantiate_eq inner]
  | .array base _ => simp [rebuild, parameters, substitute, instantiate_eq base]
  | .applied _ _ arguments => simp [rebuild, parameters, substitute, instantiateAll_eq arguments]
  | .modified _ modifier base =>
    simp [rebuild, parameters, substitute, instantiate_eq modifier, instantiate_eq base]
  | .typeSpec _ expansion => simp [rebuild, parameters, substitute, instantiate_eq expansion]

theorem instantiateAll_eq (sigs : List TypeSig) :
    instantiateAll ctx sigs = do
      let _ ← (parametersOfAll sigs).mapM ctx.argument
      return substituteAll ctx.argumentFor sigs := by
  match sigs with
  | [] => rfl
  | sig :: rest =>
    simp [instantiateAll, parametersOfAll, substituteAll, instantiate_eq sig,
      instantiateAll_eq rest]

end

/-- What is handed on is the tree itself, and then nothing is looked up. -/
theorem activate_eq_given_iff {sig : TypeSig} :
    sig.activate ctx = .ok .given ↔ sig.hasGeneric = false := by
  unfold activate
  cases sig.hasGeneric with
  | true => cases sig.instantiate ctx <;> simp
  | false => exact ⟨fun _ => rfl, fun _ => rfl⟩

/-- Handed on or built, the tree is the one that instantiation gives. -/
theorem map_tree_activate (sig : TypeSig) :
    (sig.activate ctx).map (Activated.tree sig) = sig.instantiate ctx := by
  unfold activate
  cases h : sig.hasGeneric with
  | true => cases sig.instantiate ctx <;> rfl
  | false =>
    rw [instantiate_of_closed ctx h]
    rfl

end Shortcut

end TypeSig

/-! ### Signatures of every kind -/

namespace Signature

/-- The generic parameters of a signature, in the order of its trees. -/
def parameters (sig : Signature) : List GenericParam := sig.trees.flatMap TypeSig.parameters

/-- Put another tree in the place of every tree of a signature. -/
def mapTrees (f : TypeSig → TypeSig) : Signature → Signature
  | .type sig => .type (f sig)
  | .method sig => .method { sig with
      returnType := f sig.returnType
      params := sig.params.map f
      varargs := sig.varargs.map f }
  | .field sig => .field { fieldType := f sig.fieldType }
  | .property sig => .property { sig with
      propertyType := f sig.propertyType
      params := sig.params.map f }
  | .locals sig => .locals { locals := sig.locals.map f }
  | .methodSpec sig => .methodSpec { arguments := sig.arguments.map f }

@[simp] theorem trees_mapTrees (f : TypeSig → TypeSig) (sig : Signature) :
    (sig.mapTrees f).trees = sig.trees.map f := by
  cases sig <;> simp [mapTrees, trees]

variable (ctx : GenericArguments)

/-- A signature is instantiated tree by tree, in the order of its blob. -/
theorem instantiate_eq (sig : Signature) :
    sig.instantiate ctx = do
      let _ ← sig.parameters.mapM ctx.argument
      return sig.mapTrees (TypeSig.substitute ctx.argumentFor) := by
  have hall (sigs : List TypeSig) : TypeSig.instantiateAll ctx sigs = do
      let _ ← (sigs.flatMap TypeSig.parameters).mapM ctx.argument
      return sigs.map (TypeSig.substitute ctx.argumentFor) := by
    rw [TypeSig.instantiateAll_eq, TypeSig.parametersOfAll_eq, TypeSig.substituteAll_eq]
  cases sig with
  | type sig => simp [instantiate, parameters, trees, mapTrees, TypeSig.instantiate_eq]
  | method sig =>
    simp [instantiate, MethodSig.instantiate, parameters, trees, mapTrees, TypeSig.instantiate_eq,
      hall]
  | field sig =>
    simp [instantiate, FieldSig.instantiate, parameters, trees, mapTrees, TypeSig.instantiate_eq]
  | property sig =>
    simp [instantiate, PropertySig.instantiate, parameters, trees, mapTrees,
      TypeSig.instantiate_eq, hall]
  | locals sig => simp [instantiate, LocalsSig.instantiate, parameters, trees, mapTrees, hall]
  | methodSpec sig =>
    simp [instantiate, MethodSpecSig.instantiate, parameters, trees, mapTrees, hall]

theorem instantiate_eq_ok_iff {sig result : Signature} :
    sig.instantiate ctx = .ok result ↔
      (∀ param ∈ sig.parameters, ∃ argument, ctx.argument param = .ok argument) ∧
        result = sig.mapTrees (TypeSig.substitute ctx.argumentFor) := by
  rw [instantiate_eq, Fault.bind_eq_ok, ← Fault.mapM_isOk_iff]
  constructor
  · rintro ⟨arguments, harguments, hresult⟩
    cases hresult
    exact ⟨⟨arguments, harguments⟩, rfl⟩
  · rintro ⟨⟨arguments, harguments⟩, rfl⟩
    exact ⟨arguments, harguments, rfl⟩

theorem instantiate_eq_error_iff {sig : Signature} {fault : Fault} :
    sig.instantiate ctx = .error fault ↔ ∃ before param after,
      sig.parameters = before ++ param :: after ∧
        (∀ earlier ∈ before, ∃ argument, ctx.argument earlier = .ok argument) ∧
        ctx.argument param = .error fault := by
  rw [instantiate_eq, ← Fault.mapM_eq_error_iff, Fault.bind_eq_error]
  constructor
  · rintro (hfault | ⟨arguments, -, hresult⟩)
    · exact hfault
    · cases hresult
  · exact .inl

/-- A signature has no parameters left if and only if none of the arguments that are put in has
any. -/
theorem closed_mapTrees_iff (f : GenericParam → TypeSig) (sig : Signature) :
    (∀ tree ∈ (sig.mapTrees (TypeSig.substitute f)).trees, tree.hasGeneric = false) ↔
      ∀ param ∈ sig.parameters, (f param).hasGeneric = false := by
  simp only [trees_mapTrees, List.forall_mem_map, ← TypeSig.parameters_eq_nil_iff,
    TypeSig.parameters_substitute, List.flatMap_eq_nil_iff, parameters, List.mem_flatMap]
  exact ⟨fun h param ⟨tree, htree, hparam⟩ => h tree htree param hparam,
    fun h tree htree param hparam => h param ⟨tree, htree, hparam⟩⟩

/-- **Instantiation is simultaneous substitution.** A signature is instantiated if and only if every
parameter in it has an argument, and the result is the signature rebuilt with the arguments in the
places of the parameters, as they are. Otherwise the first parameter without an argument gives the
fault. The result has no parameters if and only if none of the arguments has any. Of the trees of
the signature, those without parameters are handed on, and no others. -/
theorem instantiate_substitutes (sig : Signature) :
    (∀ result, sig.instantiate ctx = .ok result ↔
      (∀ param ∈ sig.parameters, ∃ argument, ctx.argument param = .ok argument) ∧
        result = sig.mapTrees (TypeSig.substitute ctx.argumentFor)) ∧
    (∀ fault, sig.instantiate ctx = .error fault ↔ ∃ before param after,
      sig.parameters = before ++ param :: after ∧
        (∀ earlier ∈ before, ∃ argument, ctx.argument earlier = .ok argument) ∧
        ctx.argument param = .error fault) ∧
    (∀ result, sig.instantiate ctx = .ok result →
      ((∀ tree ∈ result.trees, tree.hasGeneric = false) ↔
        ∀ param ∈ sig.parameters, ∀ argument, ctx.argument param = .ok argument →
          argument.hasGeneric = false)) ∧
    ∀ tree ∈ sig.trees,
      (tree.activate ctx).map (TypeSig.Activated.tree tree) = tree.instantiate ctx ∧
        (tree.activate ctx = .ok .given ↔ tree.hasGeneric = false) := by
  refine ⟨fun result => instantiate_eq_ok_iff ctx, fun fault => instantiate_eq_error_iff ctx, ?_,
    fun tree _ => ⟨tree.map_tree_activate ctx, tree.activate_eq_given_iff ctx⟩⟩
  intro result hresult
  obtain ⟨hsupplied, rfl⟩ := (instantiate_eq_ok_iff ctx).1 hresult
  rw [closed_mapTrees_iff]
  refine forall₂_congr fun param hparam => ?_
  obtain ⟨argument, hargument⟩ := hsupplied param hparam
  simp [GenericArguments.argumentFor, hargument]

/-- Of a modified type without arguments for either of its parameters, the one of the modifier is
missed first, although it stands inside of a specification. -/
theorem instantiate_substitutes_modifier :
    (type (.modified true (.typeSpec ⟨0x1B000001⟩ (.wrapped .szArray (.generic ⟨.method, 3⟩)))
      (.generic ⟨.type, 5⟩))).instantiate { typeArguments := some [.sentinel] } =
        .error (.missingProvider .method) :=
  ((instantiate_substitutes _ _).2.1 _).2 ⟨[], ⟨.method, 3⟩, [⟨.type, 5⟩], rfl, by simp, rfl⟩

end Signature

end CilMetadata

import CilMetadata.Proofs.Signature.Substitution

/-!
# Instantiating twice

What has been instantiated may have parameters again, those of the arguments. Instantiating it a
second time is the same as putting in, once and for all, arguments that have been instantiated
themselves.

* `TypeSig.substitute_substitute` is the law for substitutions;
* `GenericArguments.replace` puts other arguments in the places of those that are used;
* `Signature.instantiate_twice` is the result for signatures of every kind.

Arguments that are not used need not be instantiable, and they are left as they are.
-/

namespace CilMetadata

/-! ### Substitutions -/

namespace TypeSig

variable (f g : GenericParam → TypeSig)

mutual

/-- Substituting in the result of a substitution substitutes in what was put in. -/
theorem substitute_substitute (sig : TypeSig) :
    (sig.substitute f).substitute g = sig.substitute fun param => (f param).substitute g := by
  match sig with
  | .primitive _ | .named _ _ | .sentinel | .invalid _ | .generic _ => rfl
  | .wrapped _ inner => simp only [substitute, substitute_substitute inner]
  | .array base _ => simp only [substitute, substitute_substitute base]
  | .applied _ _ arguments => simp only [substitute, substituteAll_substituteAll arguments]
  | .modified _ modifier base =>
    simp only [substitute, substitute_substitute modifier, substitute_substitute base]
  | .typeSpec _ expansion => simp only [substitute, substitute_substitute expansion]

theorem substituteAll_substituteAll (sigs : List TypeSig) :
    substituteAll g (substituteAll f sigs) =
      substituteAll (fun param => (f param).substitute g) sigs := by
  match sigs with
  | [] => rfl
  | sig :: rest =>
    simp only [substituteAll, substitute_substitute sig, substituteAll_substituteAll rest]

end

variable {f g}

mutual

/-- Only what is put in for the parameters of a tree matters. -/
theorem substitute_congr {sig : TypeSig} (h : ∀ param ∈ sig.parameters, f param = g param) :
    sig.substitute f = sig.substitute g := by
  match sig with
  | .primitive _ | .named _ _ | .sentinel | .invalid _ => rfl
  | .generic param => exact h param (List.mem_singleton_self param)
  | .wrapped _ inner => rw [substitute, substitute, @substitute_congr inner h]
  | .array base _ => rw [substitute, substitute, @substitute_congr base h]
  | .applied _ _ arguments => rw [substitute, substitute, @substituteAll_congr arguments h]
  | .modified _ modifier base =>
    obtain ⟨hmodifier, hbase⟩ := List.forall_mem_append.1 h
    rw [substitute, substitute, substitute_congr hmodifier, substitute_congr hbase]
  | .typeSpec _ expansion => rw [substitute, substitute, @substitute_congr expansion h]

theorem substituteAll_congr {sigs : List TypeSig}
    (h : ∀ param ∈ parametersOfAll sigs, f param = g param) :
    substituteAll f sigs = substituteAll g sigs := by
  match sigs with
  | [] => rfl
  | sig :: rest =>
    obtain ⟨hsig, hrest⟩ := List.forall_mem_append.1 h
    rw [substituteAll, substituteAll, substitute_congr hsig, substituteAll_congr hrest]

end

end TypeSig

/-- A tree is instantiated if every parameter in it has an argument. -/
theorem TypeSig.instantiate_eq_ok_iff {ctx : GenericArguments} {sig result : TypeSig} :
    sig.instantiate ctx = .ok result ↔
      (∀ param ∈ sig.parameters, ∃ argument, ctx.argument param = .ok argument) ∧
        result = sig.substitute ctx.argumentFor := by
  have hwhole : (Signature.type sig).instantiate ctx = .ok (.type result) ↔
      sig.instantiate ctx = .ok result := by
    rw [Signature.instantiate]
    cases sig.instantiate ctx <;> simp
  rw [← hwhole, Signature.instantiate_eq_ok_iff]
  simp [Signature.parameters, Signature.trees, Signature.mapTrees]

namespace Signature

variable {f g h : GenericParam → TypeSig} {sig : Signature}

theorem mapTrees_mapTrees (f g : TypeSig → TypeSig) (sig : Signature) :
    (sig.mapTrees f).mapTrees g = sig.mapTrees fun tree => g (f tree) := by
  cases sig <;> simp [mapTrees, Function.comp_def]

theorem mapTrees_congr {f g : TypeSig → TypeSig} {sig : Signature}
    (h : ∀ tree ∈ sig.trees, f tree = g tree) : sig.mapTrees f = sig.mapTrees g := by
  cases sig with
  | type sig | field sig => simp_all [mapTrees, trees]
  | method sig =>
    obtain ⟨hreturn, htypes⟩ := List.forall_mem_cons.1 h
    obtain ⟨hparams, hvarargs⟩ := List.forall_mem_append.1 htypes
    rw [mapTrees, mapTrees, hreturn, List.map_congr_left hparams, List.map_congr_left hvarargs]
  | property sig =>
    obtain ⟨htype, hparams⟩ := List.forall_mem_cons.1 h
    rw [mapTrees, mapTrees, htype, List.map_congr_left hparams]
  | locals sig => exact congrArg (fun types => locals { locals := types }) (List.map_congr_left h)
  | methodSpec sig =>
    exact congrArg (fun types => methodSpec { arguments := types }) (List.map_congr_left h)

/-- The parameters that are left are those of what was put in. -/
theorem parameters_mapTrees (f : GenericParam → TypeSig) (sig : Signature) :
    (sig.mapTrees (TypeSig.substitute f)).parameters =
      sig.parameters.flatMap fun param => (f param).parameters := by
  simp only [parameters, trees_mapTrees, List.flatMap_map, List.flatMap_assoc,
    TypeSig.parameters_substitute]

/-- Two substitutions in turn are the one that puts in what both of them make of a parameter. -/
theorem mapTrees_substitute_twice
    (hparams : ∀ param ∈ sig.parameters, (f param).substitute g = h param) :
    (sig.mapTrees (TypeSig.substitute f)).mapTrees (TypeSig.substitute g) =
      sig.mapTrees (TypeSig.substitute h) := by
  rw [mapTrees_mapTrees]
  refine mapTrees_congr fun tree htree => ?_
  rw [TypeSig.substitute_substitute]
  exact TypeSig.substitute_congr fun param hparam =>
    hparams param (List.mem_flatMap.2 ⟨tree, htree, hparam⟩)

end Signature

/-! ### Arguments in the place of others -/

namespace GenericArguments

variable (ctx : GenericArguments) (used : List GenericParam) (f : GenericParam → TypeSig)

/-- The arguments of one kind, with others in the places of those that are used. -/
def replaceKind (kind : GenericKind) (arguments : List TypeSig) : List TypeSig :=
  arguments.mapIdx fun index argument =>
    if ⟨kind, index⟩ ∈ used then f ⟨kind, index⟩ else argument

/-- Arguments with `f param` in the place of the argument of every parameter that is used. -/
def replace : GenericArguments where
  typeArguments := ctx.typeArguments.map (replaceKind used f .type)
  methodArguments := ctx.methodArguments.map (replaceKind used f .method)

theorem arguments?_replace (kind : GenericKind) :
    (ctx.replace used f).arguments? kind = (ctx.arguments? kind).map (replaceKind used f kind) := by
  cases kind <;> rfl

/-- Every parameter has an argument as before, and if it is used, another one. -/
theorem argument_replace (param : GenericParam) :
    (ctx.replace used f).argument param =
      (ctx.argument param).map fun argument => if param ∈ used then f param else argument := by
  rw [argument, argument, arguments?_replace]
  cases ctx.arguments? param.kind with
  | none => rfl
  | some arguments =>
    simp only [Option.map_some, replaceKind, List.getElem?_mapIdx, List.length_mapIdx]
    cases arguments[param.index]? <;> rfl

theorem argument_replace_of_mem {param : GenericParam} (hused : param ∈ used) {argument : TypeSig}
    (hargument : ctx.argument param = .ok argument) :
    (ctx.replace used f).argument param = .ok (f param) := by
  rw [argument_replace, hargument]
  exact congrArg Except.ok (if_pos hused)

variable {ctx}

theorem argumentFor_of_ok {param : GenericParam} {argument : TypeSig}
    (hargument : ctx.argument param = .ok argument) : ctx.argumentFor param = argument := by
  rw [argumentFor, hargument]

end GenericArguments

/-! ### Two instantiations -/

namespace Signature

variable {sig : Signature} {first second : GenericArguments}

/-- With other arguments in the places of all that are used, these are put in. -/
theorem instantiate_replace (f : GenericParam → TypeSig)
    (hsupplied : ∀ param ∈ sig.parameters, ∃ argument, first.argument param = .ok argument) :
    sig.instantiate (first.replace sig.parameters f) =
      .ok (sig.mapTrees (TypeSig.substitute f)) := by
  have hreplaced : ∀ param ∈ sig.parameters,
      (first.replace sig.parameters f).argument param = .ok (f param) := by
    intro param hparam
    obtain ⟨argument, hargument⟩ := hsupplied param hparam
    exact first.argument_replace_of_mem _ f hparam hargument
  refine (instantiate_eq_ok_iff _).2 ⟨fun param hparam => ⟨_, hreplaced param hparam⟩, ?_⟩
  refine mapTrees_congr fun tree htree => TypeSig.substitute_congr fun param hparam => ?_
  have hmem : param ∈ sig.parameters := List.mem_flatMap.2 ⟨tree, htree, hparam⟩
  exact (GenericArguments.argumentFor_of_ok (hreplaced param hmem)).symm

/-- **Instantiation composes.** A signature can be instantiated with the first arguments and the
outcome with the second ones exactly when all of the first arguments that are used can be
instantiated with the second ones; what comes of it is the signature instantiated with the first
arguments once these results have taken the places of those that are used. -/
theorem instantiate_twice (sig result : Signature) (first second : GenericArguments) :
    (∃ middle, sig.instantiate first = .ok middle ∧ middle.instantiate second = .ok result) ↔
      ∃ instantiated : GenericParam → TypeSig,
        (∀ param ∈ sig.parameters, ∃ argument, first.argument param = .ok argument ∧
          argument.instantiate second = .ok (instantiated param)) ∧
        sig.instantiate (first.replace sig.parameters instantiated) = .ok result := by
  constructor
  · rintro ⟨middle, hfirst, hsecond⟩
    obtain ⟨hsupplied, rfl⟩ := (instantiate_eq_ok_iff first).1 hfirst
    obtain ⟨hleft, rfl⟩ := (instantiate_eq_ok_iff second).1 hsecond
    rw [parameters_mapTrees] at hleft
    refine ⟨fun param => (first.argumentFor param).substitute second.argumentFor,
      fun param hparam => ?_, ?_⟩
    · obtain ⟨argument, hargument⟩ := hsupplied param hparam
      have hfor := GenericArguments.argumentFor_of_ok hargument
      refine ⟨argument, hargument, TypeSig.instantiate_eq_ok_iff.2 ⟨fun left hmem => ?_, ?_⟩⟩
      · exact hleft left (List.mem_flatMap.2 ⟨param, hparam, hfor.symm ▸ hmem⟩)
      · exact congrArg (TypeSig.substitute second.argumentFor) hfor
    · rw [instantiate_replace _ hsupplied, mapTrees_substitute_twice fun _ _ => rfl]
  · rintro ⟨instantiated, hinstantiated, hresult⟩
    have hsupplied : ∀ param ∈ sig.parameters, ∃ argument, first.argument param = .ok argument :=
      fun param hparam => (hinstantiated param hparam).imp fun _ h => h.1
    rw [instantiate_replace _ hsupplied] at hresult
    cases hresult
    refine ⟨_, (instantiate_eq_ok_iff first).2 ⟨hsupplied, rfl⟩, (instantiate_eq_ok_iff second).2
      ⟨?_, (mapTrees_substitute_twice fun param hparam => ?_).symm⟩⟩
    · -- A parameter that is left is one of an argument, which can be instantiated.
      intro left hleft
      rw [parameters_mapTrees] at hleft
      obtain ⟨param, hparam, hmem⟩ := List.mem_flatMap.1 hleft
      obtain ⟨argument, hargument, hok⟩ := hinstantiated param hparam
      rw [GenericArguments.argumentFor_of_ok hargument] at hmem
      exact (TypeSig.instantiate_eq_ok_iff.1 hok).1 left hmem
    · obtain ⟨argument, hargument, hok⟩ := hinstantiated param hparam
      rw [GenericArguments.argumentFor_of_ok hargument]
      exact (TypeSig.instantiate_eq_ok_iff.1 hok).2.symm

end Signature

end CilMetadata

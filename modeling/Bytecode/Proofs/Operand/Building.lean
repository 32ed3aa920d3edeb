import Bytecode.Proofs.Operand.Soundness
import Mathlib

/-!
# Building the registry

Types are built one after another over the registry of those before them. The dependency order makes
everything a type refers to part of that registry, so the pass gives each type the variants that the
recursion over the dependencies gives it, and it stops only over an unsound definition.

The library is imported whole for the runs, which `cbv` evaluates by the equations stated there.
-/

namespace Bytecode

namespace Registry

open Relation

variable {specs : NameMap OpargSpec} {registry registry' : Registry}
  {names front back : List String} {name : String} {spec : OpargSpec} {type : OpargType}

/-! ### One type more -/

theorem get?_push (other : String) :
    (⟨registry.types ++ [type]⟩ : Registry).get? other =
      (registry.get? other).or (if type.name = other then some type else none) := by
  rw [Registry.get?, List.find?_append, List.find?_singleton, Registry.get?]
  simp

theorem addType_eq_ok_iff (h : specs.get? name = some spec) :
    build.addType specs registry name = .ok registry' ↔
      ∃ type, registry.buildType name spec = .ok type ∧
        registry' = ⟨registry.types ++ [type]⟩ := by
  rw [build.addType, h]
  simp only [bind_eq_ok_iff, pure_eq_ok, Except.ok.injEq, @eq_comm _ registry']

theorem addType_eq_error {e : BuildError} (h : specs.get? name = some spec)
    (hstep : build.addType specs registry name = .error e) :
    registry.buildType name spec = .error e := by
  rw [build.addType, h] at hstep
  cases hbuild : registry.buildType name spec with
  | ok type => simp [hbuild] at hstep
  | error e' => simpa [hbuild] using hstep

theorem name_of_buildType (h : registry.buildType name spec = .ok type) : type.name = name := by
  cases spec with
  | aliased spec =>
      cases h
      rfl
  | named spec =>
      rw [buildType, bind_eq_ok_iff] at h
      obtain ⟨built, hbuilt, hend⟩ := h
      obtain ⟨variants, derivation, -, -, -, rfl⟩ := buildNamed_eq_ok_iff_variantsOf.1 hbuilt
      cases hend
      rfl

/-! ### The types that are there -/

/-- The types called `front` are finished, in this order, and each is of the kind specified. -/
structure Finished (specs : NameMap OpargSpec) (front : List String) (registry : Registry) :
    Prop where
  names : registry.types.map OpargType.name = front
  named : ∀ name ∈ front, IsNamed specs name →
    ∃ type, registry.get? name = some (.named type)

theorem finished_nil : Finished specs [] {} := ⟨rfl, fun _ h => absurd h List.not_mem_nil⟩

theorem Finished.held (h : Finished specs front registry) (hfinishing : Finishing specs names)
    (hsplit : names = front ++ name :: back) {spec : NamedSpec}
    (hspec : specs.get? name = some (.named spec)) : registry.Held spec := by
  intro other hrefers
  have hdep : DependsOn specs other name := ⟨spec, hspec, hrefers⟩
  exact h.named other (hfinishing.mem_front hsplit hdep) (hfinishing.named other name hdep)

theorem Finished.get?_eq_none (h : Finished specs front registry) (hname : name ∉ front) :
    registry.get? name = none := by
  rw [← h.names] at hname
  simpa [Registry.get?] using hname

theorem Finished.step (h : Finished specs front registry) (hfinishing : Finishing specs names)
    (hsplit : names = front ++ name :: back)
    (hstep : build.addType specs registry name = .ok registry') :
    Finished specs (front ++ [name]) registry' := by
  obtain ⟨spec, hspec⟩ := hfinishing.exists_spec hsplit
  obtain ⟨type, htype, rfl⟩ := (addType_eq_ok_iff hspec).1 hstep
  have hcalled : type.name = name := name_of_buildType htype
  refine ⟨by rw [List.map_append, h.names, List.map_singleton, hcalled], ?_⟩
  intro other hother hnamed
  rw [get?_push]
  rcases List.mem_append.1 hother with hother | hother
  · obtain ⟨type, hget⟩ := h.named other hother hnamed
    exact ⟨type, by rw [hget, Option.some_or]⟩
  · obtain rfl : other = name := List.mem_singleton.1 hother
    obtain ⟨named, hnamed⟩ := hnamed
    obtain rfl := Option.some.inj (hspec.symm.trans hnamed)
    rw [buildType, bind_eq_ok_iff] at htype
    obtain ⟨built, -, hend⟩ := htype
    obtain rfl : OpargType.named built = type := Except.ok.inj hend
    rw [h.get?_eq_none (hfinishing.notMem_front hsplit), Option.none_or, if_pos hcalled]
    exact ⟨built, rfl⟩

/-- Over the types before it, a type stops the pass only over its own definition. -/
theorem Finished.eq_invalidDefinition (h : Finished specs front registry)
    (hfinishing : Finishing specs names) (hsplit : names = front ++ name :: back) {e : BuildError}
    (hstep : build.addType specs registry name = .error e) :
    ∃ defect, e = .invalidDefinition name defect := by
  obtain ⟨spec, hspec⟩ := hfinishing.exists_spec hsplit
  have hbuild := addType_eq_error hspec hstep
  cases spec with
  | aliased spec => cases hbuild
  | named spec =>
      have hfails : FailsOver name (registry.buildNamed name spec) :=
        failsOver_buildNamed (h.held hfinishing hsplit hspec)
      exact hfails.bind (fun _ => failsOver_ok _) e hbuild

theorem finished_of_foldlM (hfinishing : Finishing specs names)
    (h : names.foldlM (build.addType specs) {} = .ok registry) : Finished specs names registry :=
  foldlM_induction h finished_nil fun _ _ _ _ _ hsplit ht hstep =>
    ht.step hfinishing hsplit hstep

theorem eq_invalidDefinition_of_foldlM (hfinishing : Finishing specs names) {e : BuildError}
    (h : names.foldlM (build.addType specs) {} = .error e) :
    ∃ name defect, e = .invalidDefinition name defect := by
  obtain ⟨_, name, _, _, hsplit, ht, hstep⟩ :=
    exists_of_foldlM_eq_error h finished_nil fun _ _ _ _ _ hsplit ht hstep =>
      ht.step hfinishing hsplit hstep
  exact ⟨name, ht.eq_invalidDefinition hfinishing hsplit hstep⟩

/-! ### The types that are meant -/

/-- The types called `front` are those that the recursion over the dependencies gives. -/
structure Denoted (acyclic : Acyclic specs) (front : List String) (registry : Registry) :
    Prop extends Finished specs front registry where
  types : ∀ name ∈ front, ∀ spec, specs.get? name = some spec →
    registry.get? name = some (spec.typeOver (meaning acyclic) name)
  sound : ∀ name ∈ front, ∀ spec, specs.get? name = some (.named spec) →
    spec.Sound (meaning acyclic)
  nonempty : ∀ name ∈ front, IsNamed specs name → meaning acyclic name ≠ []

variable {acyclic : Acyclic specs}

theorem denoted_nil : Denoted acyclic [] {} where
  toFinished := finished_nil
  types := fun _ h => absurd h List.not_mem_nil
  sound := fun _ h => absurd h List.not_mem_nil
  nonempty := fun _ h => absurd h List.not_mem_nil

theorem Denoted.provided (h : Denoted acyclic front registry) (hfinishing : Finishing specs names)
    (hsplit : names = front ++ name :: back) {spec : NamedSpec}
    (hspec : specs.get? name = some (.named spec)) :
    spec.Provided registry (meaning acyclic) := by
  intro other hrefers
  have hdep : DependsOn specs other name := ⟨spec, hspec, hrefers⟩
  obtain ⟨named, hnamed⟩ := hfinishing.named other name hdep
  refine ⟨_, h.types other (hfinishing.mem_front hsplit hdep) _ hnamed, ?_⟩
  exact (meaning_eq acyclic hnamed).symm

theorem Denoted.base_nonempty (h : Denoted acyclic front registry)
    (hfinishing : Finishing specs names) (hsplit : names = front ++ name :: back)
    {spec : NamedSpec} (hspec : specs.get? name = some (.named spec)) {derivation : DerivationSpec}
    (hderivation : spec.derivation = some derivation) :
    meaning acyclic derivation.base ≠ [] := by
  have hdep : DependsOn specs derivation.base name := ⟨spec, hspec, .base hderivation⟩
  exact h.nonempty _ (hfinishing.mem_front hsplit hdep) (hfinishing.named _ _ hdep)

/-- No type is larger than the encodings can number. -/
def Countable (specs : NameMap OpargSpec) : Prop :=
  ∀ name spec, specs.get? name = some (.named spec) → spec.variants.length < UInt32.size

theorem Denoted.buildType_eq_ok_iff (h : Denoted acyclic front registry)
    (hfinishing : Finishing specs names) (hsmall : Countable specs)
    (hsplit : names = front ++ name :: back) (hspec : specs.get? name = some spec) :
    registry.buildType name spec = .ok type ↔
      (∀ named, spec = .named named → named.Sound (meaning acyclic)) ∧
        type = spec.typeOver (meaning acyclic) name := by
  cases spec with
  | aliased spec => simp [buildType, OpargSpec.typeOver, eq_comm]
  | named spec =>
      have hbuild : ∀ built, registry.buildNamed name spec = .ok built ↔
          spec.Sound (meaning acyclic) ∧ built = spec.typeOver (meaning acyclic) name :=
        fun _ => buildNamed_eq_ok_iff (h.provided hfinishing hsplit hspec) (hsmall name spec hspec)
          fun _ => h.base_nonempty hfinishing hsplit hspec
      rw [buildType, bind_eq_ok_iff]
      constructor
      · rintro ⟨built, hbuilt, hend⟩
        obtain ⟨hsound, rfl⟩ := (hbuild built).1 hbuilt
        refine ⟨fun named hnamed => ?_, (Except.ok.inj hend).symm⟩
        rwa [← OpargSpec.named.inj hnamed]
      · rintro ⟨hsound, rfl⟩
        exact ⟨_, (hbuild _).2 ⟨hsound spec rfl, rfl⟩, rfl⟩

theorem Denoted.step (h : Denoted acyclic front registry) (hfinishing : Finishing specs names)
    (hsmall : Countable specs)
    (hsplit : names = front ++ name :: back)
    (hstep : build.addType specs registry name = .ok registry') :
    Denoted acyclic (front ++ [name]) registry' := by
  obtain ⟨spec, hspec⟩ := hfinishing.exists_spec hsplit
  obtain ⟨type, htype, rfl⟩ := (addType_eq_ok_iff hspec).1 hstep
  obtain ⟨hsound, rfl⟩ := (h.buildType_eq_ok_iff hfinishing hsmall hsplit hspec).1 htype
  -- The name is not in `front`, so a look-up meets the new type; all others are as they were.
  have hnew := h.get?_eq_none (hfinishing.notMem_front hsplit)
  refine ⟨h.toFinished.step hfinishing hsplit hstep, ?_, ?_, ?_⟩
  · intro other hother spec' hspec'
    rw [get?_push]
    rcases List.mem_append.1 hother with hother | hother
    · rw [h.types other hother spec' hspec', Option.some_or]
    · obtain rfl : other = name := List.mem_singleton.1 hother
      obtain rfl := Option.some.inj (hspec.symm.trans hspec')
      rw [hnew, Option.none_or, if_pos (OpargSpec.name_typeOver _ _ _)]
  · intro other hother spec' hspec'
    rcases List.mem_append.1 hother with hother | hother
    · exact h.sound other hother spec' hspec'
    · obtain rfl : other = name := List.mem_singleton.1 hother
      exact hsound spec' (Option.some.inj (hspec.symm.trans hspec'))
  · intro other hother hnamed
    rcases List.mem_append.1 hother with hother | hother
    · exact h.nonempty other hother hnamed
    · obtain rfl : other = name := List.mem_singleton.1 hother
      obtain ⟨named, hnamed⟩ := hnamed
      rw [meaning_eq acyclic hnamed]
      have hbase : ∀ derivation, named.derivation = some derivation →
          meaning acyclic derivation.base ≠ [] :=
        fun _ => h.base_nonempty hfinishing hsplit hnamed
      have hsound' := hsound named (Option.some.inj (hspec.symm.trans hnamed))
      exact ((NamedSpec.sound_iff hbase).1 hsound').2.1

theorem denoted_of_foldlM (hfinishing : Finishing specs names) (hsmall : Countable specs)
    (h : names.foldlM (build.addType specs) {} = .ok registry) :
    Denoted acyclic names registry :=
  foldlM_induction h denoted_nil fun _ _ _ _ _ hsplit ht hstep =>
    ht.step hfinishing hsmall hsplit hstep

/-- Where every specification is sound, the pass comes to the end. -/
theorem exists_foldlM_eq_ok (hfinishing : Finishing specs names) (hsmall : Countable specs)
    (hsound : ∀ name spec, specs.get? name = some (.named spec) → spec.Sound (meaning acyclic)) :
    ∃ registry, names.foldlM (build.addType specs) {} = .ok registry := by
  cases h : names.foldlM (build.addType specs) {} with
  | ok registry => exact ⟨registry, rfl⟩
  | error e =>
      have hinit : Denoted acyclic [] {} := denoted_nil
      obtain ⟨front, name, back, t, hsplit, ht, hstep⟩ := exists_of_foldlM_eq_error h hinit
        fun _ _ _ _ _ hsplit ht hstep => ht.step hfinishing hsmall hsplit hstep
      obtain ⟨spec, hspec⟩ := hfinishing.exists_spec hsplit
      have hbuild := addType_eq_error hspec hstep
      have hok := (ht.buildType_eq_ok_iff hfinishing hsmall hsplit hspec).2
        ⟨fun named hnamed => hsound name named (hnamed ▸ hspec), rfl⟩
      rw [hok] at hbuild
      cases hbuild

/-! ### The registry -/

/-- The registry is the recursive meaning of the specifications, and there is one exactly where
every reference names a named type, no type depends on itself and every specification is sound. -/
theorem build_eq_meaning (hsmall : Countable specs) :
    ((∃ registry, build specs = .ok registry) ↔
      (∀ dependency name, DependsOn specs dependency name → IsNamed specs dependency) ∧
        ∃ acyclic : Acyclic specs, ∀ name spec, specs.get? name = some (.named spec) →
          spec.Sound (meaning acyclic)) ∧
    ∀ registry, build specs = .ok registry →
      (registry.types.map OpargType.name).Perm specs.names ∧
        ∃ acyclic : Acyclic specs, ∀ name spec, specs.get? name = some spec →
          registry.get? name = some (spec.typeOver (meaning acyclic) name) := by
  have hdenoted : ∀ registry, build specs = .ok registry → ∃ names, Finishing specs names ∧
      ∀ acyclic : Acyclic specs, Denoted acyclic names registry := by
    intro registry hbuild
    rw [build, bind_eq_ok_iff] at hbuild
    obtain ⟨names, horder, hfold⟩ := hbuild
    have hfinishing := finishing_of_finishingOrder horder
    exact ⟨names, hfinishing, fun _ => denoted_of_foldlM hfinishing hsmall hfold⟩
  refine ⟨⟨?_, ?_⟩, ?_⟩
  · rintro ⟨registry, hbuild⟩
    obtain ⟨names, hfinishing, hdenoted⟩ := hdenoted registry hbuild
    refine ⟨hfinishing.named, hfinishing.acyclic, fun name spec hspec => ?_⟩
    have hmem : name ∈ names := hfinishing.perm.mem_iff.2 (NameMap.mem_names_iff.2 ⟨_, hspec⟩)
    exact (hdenoted hfinishing.acyclic).sound name hmem spec hspec
  · rintro ⟨hnamed, acyclic, hsound⟩
    obtain ⟨names, horder, hfinishing⟩ := exists_finishing hnamed acyclic
    obtain ⟨registry, hfold⟩ := exists_foldlM_eq_ok hfinishing hsmall hsound
    exact ⟨registry, by rw [build, horder, ok_bind, hfold]⟩
  · intro registry hbuild
    obtain ⟨names, hfinishing, hdenoted⟩ := hdenoted registry hbuild
    have hall := hdenoted hfinishing.acyclic
    refine ⟨hall.names ▸ hfinishing.perm, hfinishing.acyclic, fun name spec hspec => ?_⟩
    have hmem : name ∈ names := hfinishing.perm.mem_iff.2 (NameMap.mem_names_iff.2 ⟨_, hspec⟩)
    exact hall.types name hmem spec hspec

def accessSpec : NamedSpec where
  variants := [{ name := "None" },
    { name := "All", combine := ["Permission.Both", "Shifted.Both"] }]

/-- Two flags with their union, the same bits shifted, and all of them joined. -/
def permissionSpecs : NameMap OpargSpec := .ofList [
  ("Access", .named accessSpec),
  ("Permission", .named {
    numbering := .flags
    variants := [{ name := "Read" }, { name := "Write" },
      { name := "Both", combine := ["Read", "Write"] }] }),
  ("Shifted", .named { derivation := some ⟨"Permission", 4⟩ })]

theorem build_eq_meaning_permissionSpecs :
    Countable permissionSpecs ∧ ∃ acyclic : Acyclic permissionSpecs,
      (meaning acyclic "Access").map Variant.value = [0, 51] := by
  have hsmall : Countable permissionSpecs := by
    have hall : permissionSpecs.entries.all (fun entry => match entry.2 with
        | .named spec => decide (spec.variants.length < UInt32.size)
        | .aliased _ => true) = true := by decide
    intro name spec hspec
    simpa using List.all_eq_true.1 hall _ (NameMap.get?_eq_some_iff.1 hspec)
  have hvalues : (build permissionSpecs).toOption.bind (fun registry =>
      ((registry.get? "Access").bind OpargType.asNamed?).map fun type =>
        type.variants.map Variant.value) = some [0, 51] := by cbv
  cases hbuild : build permissionSpecs with
  | error e => simp [hbuild, Except.toOption] at hvalues
  | ok registry =>
      obtain ⟨-, acyclic, htypes⟩ := (build_eq_meaning hsmall).2 registry hbuild
      have hspec : permissionSpecs.get? "Access" = some (.named accessSpec) := by decide
      refine ⟨hsmall, acyclic, ?_⟩
      rw [meaning_eq acyclic hspec]
      simpa [hbuild, htypes _ _ hspec, Except.toOption, OpargSpec.typeOver, NamedSpec.typeOver,
        OpargType.asNamed?] using hvalues

/-- A cycle is what stops the building of types whose references are all there, and the two types
reported lie on it. Otherwise they are finished, and listed, behind the types that they need. -/
theorem build_missing_iff_cycle
    (hnamed : ∀ dependency name, DependsOn specs dependency name → IsNamed specs dependency) :
    ((∃ oparg owner, build specs = .error (.missingOpargType oparg owner)) ↔
      ∃ name, TransGen (DependsOn specs) name name) ∧
    (∀ oparg owner, build specs = .error (.missingOpargType oparg owner) →
      DependsOn specs oparg owner ∧ ReflTransGen (DependsOn specs) owner oparg) ∧
    ((¬ ∃ name, TransGen (DependsOn specs) name name) →
      ∃ names, finishingOrder specs = .ok names ∧ names.Perm specs.names ∧
        (∀ dependency name, DependsOn specs dependency name →
          names.idxOf dependency < names.idxOf name) ∧
        build specs = names.foldlM (build.addType specs) {} ∧
        ∀ registry, build specs = .ok registry → registry.types.map OpargType.name = names) := by
  have hreported : ∀ oparg owner, build specs = .error (.missingOpargType oparg owner) →
      DependsOn specs oparg owner ∧ ReflTransGen (DependsOn specs) owner oparg := by
    intro oparg owner hbuild
    cases horder : finishingOrder specs with
    | ok names =>
        rw [build, horder, ok_bind] at hbuild
        obtain ⟨name, defect, he⟩ :=
          eq_invalidDefinition_of_foldlM (finishing_of_finishingOrder horder) hbuild
        cases he
    | error e =>
        obtain ⟨dependency, name, hdep, rfl, hcause⟩ := finishingOrder_eq_error horder
        rw [build, horder, error_bind] at hbuild
        cases hbuild
        exact ⟨hdep, hcause.resolve_left fun hnot => hnot (hnamed oparg owner hdep)⟩
  refine ⟨⟨?_, ?_⟩, hreported, ?_⟩
  · rintro ⟨oparg, owner, hbuild⟩
    obtain ⟨hdep, hreach⟩ := hreported oparg owner hbuild
    exact ⟨oparg, .head' hdep hreach⟩
  · rintro ⟨name, hcycle⟩
    cases horder : finishingOrder specs with
    | ok names => exact absurd hcycle ((finishing_of_finishingOrder horder).acyclic name)
    | error e =>
        obtain ⟨dependency, owner, -, rfl, -⟩ := finishingOrder_eq_error horder
        exact ⟨dependency, owner, by rw [build, horder, error_bind]⟩
  · intro hacyclic
    obtain ⟨names, horder, hfinishing⟩ := exists_finishing hnamed fun name h => hacyclic ⟨name, h⟩
    have hbuild : build specs = names.foldlM (build.addType specs) {} := by
      rw [build, horder, ok_bind]
    refine ⟨names, horder, hfinishing.perm, fun _ _ => hfinishing.idxOf_lt, hbuild, ?_⟩
    intro registry hok
    exact (finished_of_foldlM hfinishing (hbuild ▸ hok)).names

/-- A type and a combination that names a variant of it, of which the type is derived in turn, with
a third type behind them. The name of the variant has a dot of its own. -/
def cyclicSpecs : NameMap OpargSpec := .ofList [
  ("First", .named { derivation := some ⟨"Second", 1⟩ }),
  ("Second", .named { variants := [{ name := "All", combine := ["First.All.Low"] }] }),
  ("Third", .named { variants := [{ name := "Both", combine := ["Second.All", "First.All"] }] })]

theorem build_missing_iff_cycle_cyclicSpecs :
    (∀ dependency name, DependsOn cyclicSpecs dependency name → IsNamed cyclicSpecs dependency) ∧
      build cyclicSpecs = .error (.missingOpargType "Second" "First") ∧
      DependsOn cyclicSpecs "First" "Second" ∧
      ∃ name, TransGen (DependsOn cyclicSpecs) name name := by
  have hgraph : dependencyGraph cyclicSpecs =
      .ok ⟨["First", "Second", "Third"],
        [("Second", "First"), ("First", "Second"), ("Second", "Third"), ("First", "Third")]⟩ := by
    decide
  have hnamed : ∀ dependency name, DependsOn cyclicSpecs dependency name →
      IsNamed cyclicSpecs dependency := fun _ _ => isNamed_of_dependencyGraph hgraph
  have hbuild : build cyclicSpecs = .error (.missingOpargType "Second" "First") := by cbv
  have hqualifies : Qualifies "First.All.Low" "First" "All.Low" := ⟨by decide, by decide⟩
  exact ⟨hnamed, hbuild, ⟨_, rfl, .combination (.head _) (.head _) hqualifies⟩,
    (build_missing_iff_cycle hnamed).1.1 ⟨_, _, hbuild⟩⟩

end Registry

end Bytecode

import Bytecode.Proofs.Emit.Arms
import Mathlib.Data.List.Nodup

/-!
# Finding the emitted functions

Where the emitted types have different names, a function is found by its name and its owner among
all lines, no matter what else is emitted.
-/

namespace Bytecode

open Rust (Token Function Implements isIdentifier function? functionsIn)

namespace GeneratedModel

def emitted (m : GeneratedModel) : List SetModel := m.sets.filter fun set => !set.model.isEmpty

def typeNames (m : GeneratedModel) : List String :=
  m.registry.types.map OpargType.name ++
    m.emitted.flatMap fun set => [set.opcodeEnum, set.instructionEnum]

/-- All names that occur in the emitted functions are identifiers, and those of types differ. -/
structure WellNamed (m : GeneratedModel) : Prop where
  types : ∀ name ∈ m.typeNames, isIdentifier name = true
  distinct : m.typeNames.Nodup
  variants : ∀ type ∈ m.registry.named, ∀ variant ∈ type.variants,
    isIdentifier variant.name = true
  cases : ∀ set ∈ m.emitted, ∀ c ∈ set.model.cases, c.WellNamed

def lines (m : GeneratedModel) : Emit.Lines :=
  (Emit.steps.flatMap fun step => step.modelLines m) ++
    m.emitted.flatMap fun set => Emit.steps.flatMap fun step => step.setLines m set

/-- The text is made of these lines. -/
theorem render_eq (m : GeneratedModel) : m.render = m.lines.render := rfl

end GeneratedModel

namespace Emit

variable {m : GeneratedModel} {set : SetModel} {owner : List Token}

theorem setLines_eq (m : GeneratedModel) (set : SetModel) :
    (steps.flatMap fun step => step.setLines m set) =
      opcodeEnum m set ++ (instructionEnum m set ++ (conversions m set ++ (displayNames m set ++
        (predicates m set ++ (stackEffect m set ++ (deopt m set ++ sizeAssertions m set)))))) := by
  simp [steps, Step.setLines]

theorem modelLines_eq (m : GeneratedModel) :
    (steps.flatMap fun step => step.modelLines m) =
      header m ++ (aliases m ++ (namedTypes m ++ derivedConversions m)) := by
  simp [steps, Step.modelLines]

/-! ### The implementations of a set -/

/-- The functions of the opcodes of a set, apart from those on their names and stack effects. -/
def opcodeFunctions (set : SetModel) : List Function := predicateFunctions set ++ deoptFunctions set

variable {type : String} {lines more : Lines} {fs : List Function}

/-- An implementation of a type, of the kinds that functions are looked up in. -/
def IsOwner (type : String) (owner : List Token) : Prop :=
  owner = inherent type ∨ ∃ source, owner = tryFrom source type

theorem IsOwner.ne_convertsFrom (h : IsOwner type owner) (source other : String) :
    owner ≠ convertsFrom source other := by
  obtain rfl | ⟨_, rfl⟩ := h
  · simp [inherent, convertsFrom]
  · simp [tryFrom, convertsFrom]

theorem IsOwner.ne_displays (h : IsOwner type owner) (other : String) : owner ≠ displays other := by
  obtain rfl | ⟨_, rfl⟩ := h
  · simp [inherent, displays]
  · simp [tryFrom, displays]

theorem IsOwner.eq_of_isOwner {other : String} (h : IsOwner type owner)
    (hother : IsOwner other owner) : type = other := by
  obtain rfl | ⟨_, rfl⟩ := h <;> obtain heq | ⟨_, heq⟩ := hother <;>
    simp_all [inherent, tryFrom]

theorem IsOwner.among_inherent {other : String} (h : IsOwner type owner) (hne : type ≠ other)
    (body : Lines) : among owner (inherent other) body = [] :=
  if_neg fun heq => hne (h.eq_of_isOwner (.inl heq.symm))

theorem IsOwner.among_tryFrom {other : String} (h : IsOwner type owner) (hne : type ≠ other)
    (source : String) (body : Lines) : among owner (tryFrom source other) body = [] :=
  if_neg fun heq => hne (h.eq_of_isOwner (.inr ⟨source, heq.symm⟩))

/-- The bodies of the implementations of a set. Opcodes have one for each group of functions. -/
structure SetBodies where
  instruction : Lines
  conversion : Lines
  name : Lines
  predicates : Lines
  stackEffect : Lines
  opcodeTargets : Lines
  instructionTargets : Lines

namespace SetBodies

variable {bodies : SetBodies}

def belongingTo (bodies : SetBodies) (set : SetModel) (owner : List Token) : List Lines :=
  among owner (inherent set.instructionEnum) bodies.instruction ++
    (among owner (tryFrom set.model.width.name set.opcodeEnum) bodies.conversion ++
      (among owner (inherent set.opcodeEnum) bodies.name ++
        (among owner (inherent set.opcodeEnum) bodies.predicates ++
          (among owner (inherent set.opcodeEnum) bodies.stackEffect ++
            (among owner (inherent set.opcodeEnum) bodies.opcodeTargets ++
              among owner (inherent set.instructionEnum) bodies.instructionTargets)))))

/-- The functions in the bodies. Of those that nothing is looked up in, the names matter only. -/
structure Emitted (bodies : SetBodies) (m : GeneratedModel) (set : SetModel) : Prop where
  instruction : (functionsIn bodies.instruction).map Function.name = ["opcode", "decode", "oparg"]
  conversion : functionsIn bodies.conversion = [opcodeConversion m set]
  name : (functionsIn bodies.name).map Function.name = ["name"]
  predicates : functionsIn bodies.predicates =
    predicateFunctions set ++ [⟨"is_placeholder", "self", [isOneOf (placeholderCases set)]⟩]
  stackEffect : (functionsIn bodies.stackEffect).map Function.name = ["stack_effect"]
  opcodeTargets : functionsIn bodies.opcodeTargets = deoptFunctions set
  instructionTargets : functionsIn bodies.instructionTargets = [instructionDeopt set]

theorem belongingTo_opcodes (h : set.opcodeEnum ≠ set.instructionEnum) :
    bodies.belongingTo set (inherent set.opcodeEnum) =
      [bodies.name, bodies.predicates, bodies.stackEffect, bodies.opcodeTargets] := by
  simp [belongingTo, among_self, among_inherent_tryFrom, among_inherent_inherent h]

theorem belongingTo_instructions (h : set.opcodeEnum ≠ set.instructionEnum) :
    bodies.belongingTo set (inherent set.instructionEnum) =
      [bodies.instruction, bodies.instructionTargets] := by
  simp [belongingTo, among_self, among_inherent_tryFrom, among_inherent_inherent h.symm]

theorem belongingTo_conversion :
    bodies.belongingTo set (tryFrom set.model.width.name set.opcodeEnum) =
      [bodies.conversion] := by
  simp [belongingTo, among_self, among_tryFrom_inherent]

theorem belongingTo_of_ne (h : IsOwner type owner) (hopcode : type ≠ set.opcodeEnum)
    (hinstruction : type ≠ set.instructionEnum) : bodies.belongingTo set owner = [] := by
  simp [belongingTo, h.among_inherent hopcode, h.among_inherent hinstruction,
    h.among_tryFrom hopcode]

end SetBodies

theorem IsOwner.exists_implements_setLines (h : IsOwner type owner) (m : GeneratedModel)
    (hopcode : isIdentifier set.opcodeEnum = true)
    (hinstruction : isIdentifier set.instructionEnum = true) :
    ∃ bodies : SetBodies,
      Implements owner (steps.flatMap fun step => step.setLines m set)
        (bodies.belongingTo set owner) ∧ bodies.Emitted m set := by
  obtain ⟨instruction, hinstructions, hnames⟩ :=
    exists_implements_instructionEnum owner m hinstruction
  obtain ⟨conversion, hconversions, hconversion⟩ :=
    exists_implements_conversions owner m hopcode (h.ne_convertsFrom _ _)
  obtain ⟨nameBody, hdisplay, hname⟩ := exists_implements_displayNames owner m hopcode hinstruction
    ⟨h.ne_displays _, h.ne_displays _⟩
  obtain ⟨predicateBody, hpredicates, hpredicate⟩ := exists_implements_predicates owner m hopcode
  obtain ⟨stackBody, hstackEffect, hstack⟩ := exists_implements_stackEffect owner m hopcode
  obtain ⟨opcodeTargets, instructionTargets, hdeopts, hopcodes, htargets⟩ :=
    exists_implements_deopt owner m hopcode hinstruction
  have htail := hpredicates.append (hstackEffect.append
    (hdeopts.append_nil (implements_sizeAssertions owner m set)))
  have hall := (implements_opcodeEnum owner m set).nil_append
    (hinstructions.append (hconversions.append (hdisplay.append htail)))
  rw [setLines_eq]
  exact ⟨⟨instruction, conversion, nameBody, predicateBody, stackBody, opcodeTargets,
      instructionTargets⟩, hall,
    ⟨hnames, hconversion, hname, hpredicate, hstack, hopcodes, htargets⟩⟩

/-- Among the implementations of a type, these functions are found by name. -/
def Holds (owner : List Token) (lines : Lines) (fs : List Function) : Prop :=
  ∃ bodies, Implements owner lines bodies ∧
    ((bodies.flatMap functionsIn).map Function.name).Nodup ∧
    ∀ f ∈ fs, f ∈ bodies.flatMap functionsIn

theorem holds_opcodes (m : GeneratedModel) (hopcode : isIdentifier set.opcodeEnum = true)
    (hinstruction : isIdentifier set.instructionEnum = true)
    (hne : set.opcodeEnum ≠ set.instructionEnum) :
    Holds (inherent set.opcodeEnum) (steps.flatMap fun step => step.setLines m set)
      (opcodeFunctions set) := by
  have howner : IsOwner set.opcodeEnum (inherent set.opcodeEnum) := .inl rfl
  obtain ⟨bodies, hall, hbodies⟩ := howner.exists_implements_setLines m hopcode hinstruction
  rw [SetBodies.belongingTo_opcodes hne] at hall
  have hnodup : (["name"] ++ Predicate.all.map Predicate.functionName ++
      ["is_placeholder", "stack_effect", "deopt", "is_specialized"]).Nodup := by
    decide
  refine ⟨_, hall, ?_, ?_⟩
  · simpa [hbodies.name, hbodies.predicates, hbodies.stackEffect, hbodies.opcodeTargets,
      predicateFunctions, deoptFunctions, Function.comp_def] using hnodup
  · simp only [List.flatMap_cons, List.flatMap_nil, List.append_nil, hbodies.predicates,
      hbodies.opcodeTargets, opcodeFunctions, List.mem_append]
    rintro f (hf | hf)
    · exact .inr (.inl (.inl hf))
    · exact .inr (.inr (.inr hf))

theorem holds_instructions (m : GeneratedModel) (hopcode : isIdentifier set.opcodeEnum = true)
    (hinstruction : isIdentifier set.instructionEnum = true)
    (hne : set.opcodeEnum ≠ set.instructionEnum) :
    Holds (inherent set.instructionEnum) (steps.flatMap fun step => step.setLines m set)
      [instructionDeopt set] := by
  have howner : IsOwner set.instructionEnum (inherent set.instructionEnum) := .inl rfl
  obtain ⟨bodies, hall, hbodies⟩ := howner.exists_implements_setLines m hopcode hinstruction
  rw [SetBodies.belongingTo_instructions hne] at hall
  refine ⟨_, hall, ?_, ?_⟩
  · simp [hbodies.instruction, hbodies.instructionTargets, instructionDeopt]
  · simp [hbodies.instructionTargets]

theorem holds_conversion (m : GeneratedModel) (hopcode : isIdentifier set.opcodeEnum = true)
    (hinstruction : isIdentifier set.instructionEnum = true) :
    Holds (tryFrom set.model.width.name set.opcodeEnum)
      (steps.flatMap fun step => step.setLines m set) [opcodeConversion m set] := by
  have howner : IsOwner set.opcodeEnum (tryFrom set.model.width.name set.opcodeEnum) :=
    .inr ⟨_, rfl⟩
  obtain ⟨bodies, hall, hbodies⟩ := howner.exists_implements_setLines m hopcode hinstruction
  rw [SetBodies.belongingTo_conversion] at hall
  refine ⟨_, hall, ?_, ?_⟩
  · simp [hbodies.conversion]
  · simp [hbodies.conversion]

/-- What is emitted for a set implements nothing for other types. -/
theorem IsOwner.implements_setLines (h : IsOwner type owner) (m : GeneratedModel)
    (hopcode : isIdentifier set.opcodeEnum = true)
    (hinstruction : isIdentifier set.instructionEnum = true)
    (hne : type ≠ set.opcodeEnum ∧ type ≠ set.instructionEnum) :
    Implements owner (steps.flatMap fun step => step.setLines m set) [] := by
  obtain ⟨_, hall, -⟩ := h.exists_implements_setLines m hopcode hinstruction
  rwa [SetBodies.belongingTo_of_ne h hne.1 hne.2] at hall

/-! ### The implementations of operand types -/

theorem mem_aliases_iff {registry : Registry} {aliased : AliasType} :
    aliased ∈ registry.aliases ↔ .aliased aliased ∈ registry.types := by
  refine List.mem_filterMap.trans ⟨?_, fun h => ⟨_, h, rfl⟩⟩
  rintro ⟨other | other, hother, hview⟩
  · obtain rfl := Option.some.inj hview
    exact hother
  · cases hview

theorem mem_named_iff {registry : Registry} {named : NamedType} :
    named ∈ registry.named ↔ .named named ∈ registry.types := by
  refine List.mem_filterMap.trans ⟨?_, fun h => ⟨_, h, rfl⟩⟩
  rintro ⟨other | other, hother, hview⟩
  · cases hview
  · obtain rfl := Option.some.inj hview
    exact hother

theorem sublist_map_name_named (registry : Registry) :
    (registry.named.map NamedType.name).Sublist (registry.types.map OpargType.name) := by
  unfold Registry.named
  induction registry.types with
  | nil => exact .slnil
  | cons type types ih =>
      cases type with
      | aliased aliased => exact ih.cons _
      | named named => exact ih.cons_cons _

theorem IsOwner.implements_aliases (h : IsOwner type owner)
    (hids : ∀ type ∈ m.registry.types, isIdentifier type.name = true)
    (hne : ∀ aliased ∈ m.registry.aliases, type ≠ aliased.name) :
    Implements owner (aliases m) [] := by
  refine Rust.finds_flatMap_nil fun aliased haliased => ?_
  refine implements_aliasType _ (hids _ (mem_aliases_iff.1 haliased)) ?_
  simp only [ownersOf, List.mem_cons, List.not_mem_nil, or_false, not_or]
  exact ⟨fun heq => hne aliased haliased (h.eq_of_isOwner (.inl heq)),
    fun heq => hne aliased haliased (h.eq_of_isOwner (.inr ⟨_, heq⟩)), h.ne_convertsFrom _ _⟩

theorem IsOwner.implements_derivedConversions (h : IsOwner type owner)
    (hids : ∀ type ∈ m.registry.types, isIdentifier type.name = true) :
    Implements owner (derivedConversions m) [] :=
  Rust.finds_flatMap_nil fun _ hderived =>
    implements_derivedConversion hids (hids _ (mem_named_iff.1 hderived)) h.ne_convertsFrom

theorem IsOwner.implements_namedType (h : IsOwner type owner) (error : String) {named : NamedType}
    (hid : isIdentifier named.name = true) (hne : type ≠ named.name) :
    Implements owner (namedType error named) [] := by
  obtain ⟨_, hnamed, -⟩ := exists_implements_namedType owner error hid (h.ne_convertsFrom _ _)
  rwa [h.among_tryFrom hne] at hnamed

def namedConversion (m : GeneratedModel) (named : NamedType) : Function :=
  ⟨"try_from", "raw", rawArmLines (rawArms named) s!"Err({m.config.errorType}::InvalidOperand)"⟩

theorem holds_namedTypes (hids : ∀ type ∈ m.registry.types, isIdentifier type.name = true)
    (hdistinct : (m.registry.types.map OpargType.name).Nodup) {named : NamedType}
    (hnamed : named ∈ m.registry.named) :
    Holds (tryFrom "u32" named.name) (namedTypes m) [namedConversion m named] := by
  have howner : IsOwner named.name (tryFrom "u32" named.name) := .inr ⟨_, rfl⟩
  obtain ⟨body, hown, hbody⟩ := exists_implements_namedType (tryFrom "u32" named.name)
    m.config.errorType (hids _ (mem_named_iff.1 hnamed)) (howner.ne_convertsFrom _ _)
  rw [among_self] at hown
  have hnames : (m.registry.named.flatMap fun other => [other.name]).Nodup := by
    rw [← List.map_eq_flatMap]
    exact hdistinct.sublist (sublist_map_name_named _)
  refine ⟨[body], Rust.finds_flatMap_of_mem hnames hnamed hown fun other hother hne => ?_, ?_,
    ?_⟩
  · have hne : named.name ≠ other.name := by simpa using hne
    exact howner.implements_namedType _ (hids _ (mem_named_iff.1 hother)) hne
  · simp [hbody]
  · simp [hbody, namedConversion]

/-! ### All lines -/

theorem Holds.nil_append (h : Holds owner more fs) (hlines : Implements owner lines []) :
    Holds owner (lines ++ more) fs := by
  obtain ⟨bodies, hbodies, hfs⟩ := h
  exact ⟨bodies, hlines.nil_append hbodies, hfs⟩

theorem Holds.append_nil (h : Holds owner lines fs) (hmore : Implements owner more []) :
    Holds owner (lines ++ more) fs := by
  obtain ⟨bodies, hbodies, hfs⟩ := h
  exact ⟨bodies, hbodies.append_nil hmore, hfs⟩

theorem Holds.function?_eq (h : Holds owner lines fs) {f : Function} {name : String} (hf : f ∈ fs)
    (hname : f.name = name) : function? lines owner name = some f := by
  obtain ⟨bodies, hbodies, hnames, hmem⟩ := h
  rw [← hname]
  exact hbodies.function?_eq hnames (hmem f hf)

end Emit

namespace GeneratedModel

open Emit

variable {m : GeneratedModel} {set : SetModel} {owner : List Token} {type : String}

theorem WellNamed.isIdentifier_name (h : m.WellNamed) :
    ∀ type ∈ m.registry.types, isIdentifier type.name = true := fun _ htype =>
  h.types _ (List.mem_append_left _ (List.mem_map_of_mem htype))

theorem WellNamed.isIdentifier_enums (h : m.WellNamed) (hset : set ∈ m.emitted) :
    isIdentifier set.opcodeEnum = true ∧ isIdentifier set.instructionEnum = true := by
  have hmem : ∀ name ∈ [set.opcodeEnum, set.instructionEnum], isIdentifier name = true :=
    fun _ hname => h.types _ (List.mem_append_right _ (List.mem_flatMap.2 ⟨set, hset, hname⟩))
  exact ⟨hmem _ (by simp), hmem _ (by simp)⟩

theorem WellNamed.nodup_names (h : m.WellNamed) : (m.registry.types.map OpargType.name).Nodup :=
  (List.nodup_append.1 h.distinct).1

theorem WellNamed.nodup_enums (h : m.WellNamed) :
    (m.emitted.flatMap fun set => [set.opcodeEnum, set.instructionEnum]).Nodup :=
  (List.nodup_append.1 h.distinct).2.1

theorem WellNamed.ne_enum (h : m.WellNamed) {found : OpargType} (hfound : found ∈ m.registry.types)
    (hset : set ∈ m.emitted) :
    found.name ≠ set.opcodeEnum ∧ found.name ≠ set.instructionEnum := by
  have hne : ∀ name ∈ [set.opcodeEnum, set.instructionEnum], found.name ≠ name :=
    fun _ hname => (List.nodup_append.1 h.distinct).2.2 _ (List.mem_map_of_mem hfound) _
      (List.mem_flatMap.2 ⟨set, hset, hname⟩)
  exact ⟨hne _ (by simp), hne _ (by simp)⟩

/-- What is emitted for the operand types implements nothing for the enumerations of a set. -/
theorem WellNamed.implements_modelLines (h : m.WellNamed) (howner : IsOwner type owner)
    (hne : ∀ found ∈ m.registry.types, type ≠ found.name) :
    Implements owner (steps.flatMap fun step => step.modelLines m) [] := by
  rw [modelLines_eq]
  refine (lays_header m).implements_nil.nil_append (.nil_append ?_ (.nil_append ?_ ?_))
  · exact howner.implements_aliases h.isIdentifier_name fun aliased haliased =>
      hne _ (mem_aliases_iff.1 haliased)
  · refine Rust.finds_flatMap_nil fun named hnamed => ?_
    have hmem := mem_named_iff.1 hnamed
    exact howner.implements_namedType _ (h.isIdentifier_name _ hmem) (hne _ hmem)
  · exact howner.implements_derivedConversions h.isIdentifier_name

/-- What is found among the lines of a set is found among all lines. -/
theorem WellNamed.holds_lines (h : m.WellNamed) (hset : set ∈ m.emitted)
    (howner : IsOwner type owner) (htype : type ∈ [set.opcodeEnum, set.instructionEnum])
    {fs : List Function}
    (hfs : Holds owner (steps.flatMap fun step => step.setLines m set) fs) :
    Holds owner m.lines fs := by
  obtain ⟨bodies, hown, hbodies⟩ := hfs
  refine Holds.nil_append
    ⟨bodies, Rust.finds_flatMap_of_mem h.nodup_enums hset hown fun other hother hne => ?_,
      hbodies⟩
    (h.implements_modelLines howner fun found hfound heq => ?_)
  · have hne := hne type htype
    simp only [List.mem_cons, List.not_mem_nil, or_false, not_or] at hne
    obtain ⟨hopcode, hinstruction⟩ := h.isIdentifier_enums hother
    exact howner.implements_setLines m hopcode hinstruction hne
  · have hne := h.ne_enum hfound hset
    simp only [List.mem_cons, List.not_mem_nil, or_false] at htype
    obtain htype | htype := htype
    · exact hne.1 (heq.symm.trans htype)
    · exact hne.2 (heq.symm.trans htype)

theorem WellNamed.opcodeEnum_ne (h : m.WellNamed) (hset : set ∈ m.emitted) :
    set.opcodeEnum ≠ set.instructionEnum := by
  have hnodup := (List.nodup_flatMap.1 h.nodup_enums).1 set hset
  simpa using hnodup

theorem WellNamed.function?_opcodes (h : m.WellNamed) (hset : set ∈ m.emitted) {f : Function}
    (hf : f ∈ opcodeFunctions set) :
    function? m.lines (inherent set.opcodeEnum) f.name = some f := by
  obtain ⟨hopcode, hinstruction⟩ := h.isIdentifier_enums hset
  have hholds := holds_opcodes m hopcode hinstruction (h.opcodeEnum_ne hset)
  exact (h.holds_lines hset (.inl rfl) (by simp) hholds).function?_eq hf rfl

theorem WellNamed.function?_instructionDeopt (h : m.WellNamed) (hset : set ∈ m.emitted) :
    function? m.lines (inherent set.instructionEnum) "deopt" = some (instructionDeopt set) := by
  obtain ⟨hopcode, hinstruction⟩ := h.isIdentifier_enums hset
  have hholds := holds_instructions m hopcode hinstruction (h.opcodeEnum_ne hset)
  exact (h.holds_lines hset (.inl rfl) (by simp) hholds).function?_eq (List.mem_singleton_self _)
    rfl

theorem WellNamed.function?_opcodeConversion (h : m.WellNamed) (hset : set ∈ m.emitted) :
    function? m.lines (tryFrom set.model.width.name set.opcodeEnum) "try_from" =
      some (opcodeConversion m set) := by
  obtain ⟨hopcode, hinstruction⟩ := h.isIdentifier_enums hset
  have hholds := holds_conversion m hopcode hinstruction
  exact (h.holds_lines hset (.inr ⟨_, rfl⟩) (by simp) hholds).function?_eq
    (List.mem_singleton_self _) rfl

theorem WellNamed.function?_namedConversion (h : m.WellNamed) {named : NamedType}
    (hnamed : named ∈ m.registry.named) :
    function? m.lines (tryFrom "u32" named.name) "try_from" = some (namedConversion m named) := by
  have howner : IsOwner named.name (tryFrom "u32" named.name) := .inr ⟨_, rfl⟩
  have hmem := mem_named_iff.1 hnamed
  have hids := h.isIdentifier_name
  have hholds := holds_namedTypes hids h.nodup_names hnamed
  -- Nothing else is of the name of the type: no alias, and no enumeration of a set.
  have haliases : Implements (tryFrom "u32" named.name) (aliases m) [] := by
    refine howner.implements_aliases hids fun aliased haliased heq => ?_
    have hsame := List.inj_on_of_nodup_map h.nodup_names hmem (mem_aliases_iff.1 haliased) heq
    cases hsame
  have hderived := howner.implements_derivedConversions hids
  have hsets : Implements (tryFrom "u32" named.name)
      (m.emitted.flatMap fun set => steps.flatMap fun step => step.setLines m set) [] := by
    refine Rust.finds_flatMap_nil fun set hset => ?_
    obtain ⟨hopcode, hinstruction⟩ := h.isIdentifier_enums hset
    exact howner.implements_setLines m hopcode hinstruction (h.ne_enum hmem hset)
  have hlines := ((hholds.append_nil hderived).nil_append haliases).nil_append
    (lays_header m).implements_nil
  rw [← modelLines_eq] at hlines
  exact (hlines.append_nil hsets).function?_eq (List.mem_singleton_self _) rfl

end GeneratedModel

end Bytecode

import Bytecode.Build
import Bytecode.Proofs.Failing
import Mathlib.Data.List.Nodup

/-!
# The cases of a built set

The cases of a model stand beside the definitions of its set: each has the name and the opcode of its
definition, and the registry holds the type of its operand, whether the operand is its own or inherited.
-/

namespace Bytecode

variable {registry : Registry} {d : Definition} {c : Case} {set : InstructionSet}
  {defaults : DefaultOpargs} {model : InstructionModel}

theorem rel_find? {α β : Type} {R : α → β → Prop} {p : α → Bool} {q : β → Bool} {xs : List α}
    {ys : List β} (h : List.Forall₂ R xs ys) (hpq : ∀ x y, R x y → p x = q y) :
    Option.Rel R (xs.find? p) (ys.find? q) := by
  induction h with
  | nil => exact .none
  | @cons x y xs ys hhead _ ih =>
      have hxy : p x = q y := hpq x y hhead
      cases hp : p x with
      | true =>
          rw [List.find?_cons_of_pos hp, List.find?_cons_of_pos (hxy ▸ hp)]
          exact .some hhead
      | false =>
          have hq : ¬ q y = true := by simp [← hxy, hp]
          rw [List.find?_cons_of_neg (by simp [hp]), List.find?_cons_of_neg hq]
          exact ih

/-- A search for a key in a list whose keys differ. -/
theorem find?_key_eq_some_iff {α κ : Type} [DecidableEq κ] {key : α → κ} {xs : List α}
    (h : (xs.map key).Nodup) {k : κ} {x : α} :
    xs.find? (fun y => key y = k) = some x ↔ x ∈ xs ∧ key x = k := by
  constructor
  · intro hfound
    exact ⟨List.mem_of_find?_eq_some hfound, by simpa using List.find?_some hfound⟩
  · rintro ⟨hx, rfl⟩
    cases hfound : xs.find? (fun y => key y = key x) with
    | none =>
        have hnone := List.find?_eq_none.1 hfound x hx
        simp at hnone
    | some y =>
        have hkey : key y = key x := by simpa using List.find?_some hfound
        rw [List.inj_on_of_nodup_map h (List.mem_of_find?_eq_some hfound) hx hkey]

theorem find?_reverse_key_eq_some_iff {α κ : Type} [DecidableEq κ] {key : α → κ} {xs : List α}
    (h : (xs.map key).Nodup) {k : κ} {x : α} :
    (xs.reverse.find? fun y => key y = k) = some x ↔ x ∈ xs ∧ key x = k := by
  rw [← List.mem_reverse]
  exact find?_key_eq_some_iff (by rwa [List.map_reverse, List.nodup_reverse])

theorem eq_some_of_rel {α β : Type} {R : α → β → Prop} {x : α} {y : Option β}
    (h : Option.Rel R (some x) y) : ∃ b, y = some b ∧ R x b := by
  cases h with
  | some h => exact ⟨_, rfl, h⟩

theorem eq_none_of_rel {α β : Type} {R : α → β → Prop} {y : Option β}
    (h : Option.Rel R none y) : y = none := by
  cases h
  rfl

def Operand.TypeIn (registry : Registry) (operand : Operand) : Prop :=
  ∃ type, registry.get? operand.type = some type

structure Case.Resolves (registry : Registry) (d : Definition) (c : Case) : Prop where
  name : c.name = d.name
  opcode : c.opcode = d.opcode
  operand : ∀ operand, c.operand = some operand → operand.TypeIn registry

theorem resolves_ownCase (h : d.ownCase registry defaults = .ok c) : c.Resolves registry d := by
  rw [Definition.ownCase] at h
  cases hown : d.ownOperand? defaults with
  | none =>
      simp only [hown, Option.bind_none, Except.ok.injEq] at h
      subst h
      exact ⟨rfl, rfl, fun _ h => nomatch h⟩
  | some own =>
      by_cases hcontains : registry.contains own.type = true
      · simp only [hown, Option.bind_some, hcontains, if_true, Except.ok.injEq] at h
        subst h
        refine ⟨rfl, rfl, fun operand hoperand => ?_⟩
        obtain rfl : own = operand := Option.some.inj hoperand
        exact Option.isSome_iff_exists.1 hcontains
      · simp [hown, hcontains] at h

namespace InstructionModel

/-- Inheriting keeps the opcode and takes an operand that is resolved already. -/
theorem resolves_inherit {own : InstructionModel} (h : c.Resolves registry d)
    (hown : ∀ other ∈ own.cases, ∀ operand, other.operand = some operand →
      operand.TypeIn registry) :
    (inherit set own d c).Resolves registry d := by
  unfold inherit
  split
  · exact h
  · split
    · next operand hoperand =>
        refine ⟨h.name, h.opcode, fun inherited hinherited => ?_⟩
        obtain rfl : operand = inherited := Option.some.inj hinherited
        obtain ⟨root, -, hroot⟩ := Option.bind_eq_some_iff.1 hoperand
        obtain ⟨other, hother, hsome⟩ := Option.bind_eq_some_iff.1 hroot
        have hmem : other ∈ own.cases.reverse := List.mem_of_find?_eq_some hother
        exact hown other (List.mem_reverse.1 hmem) operand hsome
    · exact h

theorem forall₂_zipWith {P Q : Definition → Case → Prop} {f : Definition → Case → Case}
    {definitions : List Definition} {cases : List Case} (h : List.Forall₂ P definitions cases)
    (hf : ∀ d c, P d c → Q d (f d c)) :
    List.Forall₂ Q definitions (definitions.zipWith f cases) := by
  induction h with
  | nil => exact .nil
  | cons hhead _ ih => exact .cons (hf _ _ hhead) ih

theorem resolves_build (h : build set registry defaults = .ok model) :
    List.Forall₂ (Case.Resolves registry) set.definitions model.cases := by
  rw [build, bind_eq_ok_iff] at h
  obtain ⟨cases, hcases, hend⟩ := h
  obtain rfl := Except.ok.inj hend
  have hown : List.Forall₂ (Case.Resolves registry) set.definitions cases :=
    (mapM_eq_ok_iff.1 hcases).imp fun _ _ => resolves_ownCase
  refine forall₂_zipWith hown fun d c hc => resolves_inherit hc fun other hother operand hsome => ?_
  obtain ⟨_, -, hresolved⟩ := exists_of_forall₂ hown hother
  exact hresolved.operand operand hsome

theorem kind_of_build (h : build set registry defaults = .ok model) : model.kind = set.kind := by
  rw [build, bind_eq_ok_iff] at h
  obtain ⟨cases, -, hend⟩ := h
  obtain rfl := Except.ok.inj hend
  rfl

theorem width_of_build (h : build set registry defaults = .ok model) :
    model.width = set.width := by
  rw [build, bind_eq_ok_iff] at h
  obtain ⟨cases, -, hend⟩ := h
  obtain rfl := Except.ok.inj hend
  rfl

/-- Names lead to a definition and to its case. -/
theorem rel_get? (h : List.Forall₂ (Case.Resolves registry) set.definitions model.cases)
    (name : String) :
    Option.Rel (Case.Resolves registry) (set.get? name) (model.get? name) :=
  rel_find? (List.rel_reverse h) fun _ _ hc => by simp [hc.name]

/-- Opcodes lead to a definition and to its case. -/
theorem rel_ofOpcode? (h : List.Forall₂ (Case.Resolves registry) set.definitions model.cases)
    (opcode : UInt32) :
    Option.Rel (Case.Resolves registry) (set.ofOpcode? opcode) (model.ofOpcode? opcode) :=
  rel_find? h fun _ _ hc => by simp [hc.opcode]

theorem opcodes_eq (h : List.Forall₂ (Case.Resolves registry) set.definitions model.cases) :
    set.definitions.map Definition.opcode = model.cases.map Case.opcode :=
  map_eq_map_of_forall₂ h fun _ _ hc => hc.opcode.symm

theorem names_eq (h : List.Forall₂ (Case.Resolves registry) set.definitions model.cases) :
    set.definitions.map Definition.name = model.cases.map Case.name :=
  map_eq_map_of_forall₂ h fun _ _ hc => hc.name.symm

theorem get?_eq_some_iff (h : List.Forall₂ (Case.Resolves registry) set.definitions model.cases)
    (hnames : (set.definitions.map Definition.name).Nodup) {name : String} :
    model.get? name = some c ↔ c ∈ model.cases ∧ c.name = name :=
  find?_reverse_key_eq_some_iff (by rwa [← names_eq h])

/-- There is a case for an opcode exactly where there is a definition. -/
theorem ofOpcode?_eq_none_iff
    (h : List.Forall₂ (Case.Resolves registry) set.definitions model.cases) (opcode : UInt32) :
    model.ofOpcode? opcode = none ↔ ∀ d ∈ set.definitions, d.opcode ≠ opcode := by
  have hcases : model.ofOpcode? opcode = none ↔ opcode ∉ model.cases.map Case.opcode := by
    simp [ofOpcode?]
  rw [hcases, ← opcodes_eq h]
  simp

end InstructionModel

/-! ### Built models -/

theorem InstructionSet.kind_of_ofDefinitions {kind : SetKind} {width : Width}
    {definitions : List Definition} (h : ofDefinitions kind width definitions = .ok set) :
    set.kind = kind := by
  unfold ofDefinitions at h
  split at h
  · cases h
  · obtain rfl := Except.ok.inj h
    rfl

theorem InstructionSet.width_of_ofDefinitions {kind : SetKind} {width : Width}
    {definitions : List Definition} (h : ofDefinitions kind width definitions = .ok set) :
    set.width = width := by
  unfold ofDefinitions at h
  split at h
  · cases h
  · obtain rfl := Except.ok.inj h
    rfl

theorem InstructionSet.perm_of_ofDefinitions {kind : SetKind} {width : Width}
    {definitions : List Definition} (h : ofDefinitions kind width definitions = .ok set) :
    set.definitions.Perm definitions := by
  unfold ofDefinitions at h
  split at h
  · cases h
  · obtain rfl := Except.ok.inj h
    exact List.mergeSort_perm _ _

/-- The stages of a built set, each run on the results of those before it. -/
theorem SetModel.build_eq_ok {config : Config} {built : SetModel}
    (h : SetModel.build set registry config = .ok built) :
    built.definitions = set ∧
      InstructionModel.build set registry config.defaultOpargs = .ok built.model ∧
      DeoptMap.resolve set built.model = .ok built.deopt ∧
      StackEffects.compute set built.model = .ok built.stack := by
  unfold SetModel.build at h
  simp only [bind_eq_ok_iff] at h
  obtain ⟨model, hmodel, deopt, hdeopt, stack, hstack, hend⟩ := h
  obtain rfl := Except.ok.inj hend
  exact ⟨rfl, hmodel, hdeopt, hstack⟩

namespace Table

variable {table : Table} {source : PropertySource} {definitions : Definitions}
  {m : GeneratedModel}

/-- The instructions of a table in the order of their names, and its two sets. -/
theorem load_eq_ok (h : table.load source = .ok definitions) :
    ∃ known all, table.byCanonicalName = .ok known ∧
      table.instructions.entries.mapM (define table.config source known) = .ok all ∧
      InstructionSet.ofDefinitions .real (.forLimit table.config.realLimit)
        (all.filter fun d => d.opcode < table.config.realLimit) = .ok definitions.real ∧
      InstructionSet.ofDefinitions .pseudo (.forLimit table.config.pseudoLimit)
        (all.filter fun d => ¬ d.opcode < table.config.realLimit) = .ok definitions.pseudo := by
  unfold load at h
  dsimp only at h
  split at h
  · cases h
  · simp only [bind_eq_ok_iff] at h
    obtain ⟨known, hknown, all, hall, real, hreal, pseudo, hpseudo, hend⟩ := h
    obtain rfl := Except.ok.inj hend
    rw [List.partition_eq_filter_filter] at hreal hpseudo
    refine ⟨known, all, hknown, hall, hreal, ?_⟩
    simp only [decide_not]
    exact hpseudo

theorem kind_of_load (h : table.load source = .ok definitions) (kind : SetKind) :
    (definitions.set kind).kind = kind := by
  obtain ⟨known, all, -, -, hreal, hpseudo⟩ := load_eq_ok h
  cases kind with
  | real => exact InstructionSet.kind_of_ofDefinitions hreal
  | pseudo => exact InstructionSet.kind_of_ofDefinitions hpseudo

/-- A definition of an entry of the table, whose opcode the limits admit. -/
structure Defines (config : Config) (entry : String × InstructionSpec) (d : Definition) : Prop where
  name : d.name = entry.1
  opcode : d.opcode = entry.2.opcode
  canonicalName : d.canonicalName = entry.2.canonicalName
  admitted : d.opcode < config.realLimit ∨ d.opcode < config.pseudoLimit

theorem defines_of_define {known : NameMap String} {entry : String × InstructionSpec}
    (h : define table.config source known entry = .ok d) : Defines table.config entry d := by
  unfold define at h
  simp only [bind_eq_ok_iff] at h
  obtain ⟨_, hcheck, operand, -, properties, -, stackOverride, -, family, -, hend⟩ := h
  obtain rfl := Except.ok.inj hend
  refine ⟨rfl, rfl, rfl, ?_⟩
  unfold checkOpcode at hcheck
  split at hcheck
  · assumption
  · cases hcheck

/-- No two instructions of a loaded set have one name. -/
theorem nodup_names_of_load (h : table.load source = .ok definitions) (kind : SetKind) :
    ((definitions.set kind).definitions.map Definition.name).Nodup := by
  obtain ⟨known, all, -, hall, hreal, hpseudo⟩ := load_eq_ok h
  have hnames : table.instructions.names = all.map Definition.name :=
    map_eq_map_of_forall₂ (mapM_eq_ok_iff.1 hall) fun _ _ hd => (defines_of_define hd).name.symm
  have hnodup : (all.map Definition.name).Nodup := hnames ▸ NameMap.nodup_names _
  have hpart : ∀ p, ((all.filter p).map Definition.name).Nodup := fun p =>
    hnodup.sublist (List.filter_sublist.map _)
  cases kind with
  | real =>
      have hperm := (InstructionSet.perm_of_ofDefinitions hreal).map Definition.name
      exact hperm.nodup_iff.2 (hpart _)
  | pseudo =>
      have hperm := (InstructionSet.perm_of_ofDefinitions hpseudo).map Definition.name
      exact hperm.nodup_iff.2 (hpart _)

/-- A built model consists of a registry and of two sets that are built over it. -/
theorem build_eq_ok (h : table.build source = .ok m) :
    Registry.build table.opargs = .ok m.registry ∧
      ∃ definitions, table.load source = .ok definitions ∧ ∀ kind,
        SetModel.build (definitions.set kind) m.registry table.config = .ok (m.set kind) := by
  unfold build at h
  simp only [bind_eq_ok_iff] at h
  obtain ⟨definitions, hload, registry, hregistry, real, hreal, pseudo, hpseudo, hend⟩ := h
  obtain rfl := Except.ok.inj hend
  refine ⟨hregistry, definitions, hload, fun kind => ?_⟩
  cases kind with
  | real => exact hreal
  | pseudo => exact hpseudo

theorem model_of_build (h : table.build source = .ok m) (kind : SetKind) :
    InstructionModel.build (m.set kind).definitions m.registry table.config.defaultOpargs =
      .ok (m.set kind).model := by
  obtain ⟨-, definitions, -, hset⟩ := build_eq_ok h
  obtain ⟨hdefinitions, hmodel, -⟩ := SetModel.build_eq_ok (hset kind)
  rw [hdefinitions, hmodel]

theorem kind_of_build (h : table.build source = .ok m) (kind : SetKind) :
    (m.set kind).model.kind = kind := by
  obtain ⟨-, definitions, hload, hset⟩ := build_eq_ok h
  rw [InstructionModel.kind_of_build (SetModel.build_eq_ok (hset kind)).2.1]
  exact kind_of_load hload kind

end Table

end Bytecode

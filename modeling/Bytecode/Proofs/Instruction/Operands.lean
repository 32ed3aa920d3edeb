import Bytecode.Proofs.Instruction.Deoptimization
import Bytecode.Proofs.Instruction.Walks

/-!
# Which operand an instruction carries

The operand in the table comes first. Without one, an instruction whose properties have an operand
takes the operand of the root of its families, if that carries one, and an operand of a default type
otherwise. The model looks every definition's own operand up before any operand is inherited, so
that a set is also refused for the lack of a default type that no instruction would carry.
-/

namespace Bytecode

/-! ### Precedence -/

/-- The type of an operand that the properties mention and the table does not: that of a jump comes
first, then that of a constant, then that of a name. -/
inductive DefaultOpargs.Gives (defaults : DefaultOpargs) (flags : Flags) : String → Prop where
  | jump (hjump : flags.jumps = true) : Gives defaults flags defaults.jump
  | constant (hjump : flags.jumps = false) (hconstant : flags.readsConstants = true) :
      Gives defaults flags defaults.constant
  | name (hjump : flags.jumps = false) (hconstant : flags.readsConstants = false)
      (hname : flags.readsNames = true) : Gives defaults flags defaults.name
  | raw (hjump : flags.jumps = false) (hconstant : flags.readsConstants = false)
      (hname : flags.readsNames = false) : Gives defaults flags defaults.raw

theorem DefaultOpargs.gives_iff {defaults : DefaultOpargs} {flags : Flags} {type : String} :
    defaults.Gives flags type ↔ type = defaults.typeFor flags := by
  constructor
  · intro h
    cases h <;> simp [typeFor, *]
  · rintro rfl
    unfold typeFor
    split
    · next hjump => exact .jump hjump
    next hjump =>
      rw [Bool.not_eq_true] at hjump
      split
      · next hconstant => exact .constant hjump hconstant
      next hconstant =>
        rw [Bool.not_eq_true] at hconstant
        split
        · next hname => exact .name hjump hconstant hname
        · next hname => exact .raw hjump hconstant (Bool.not_eq_true _ ▸ hname)

theorem DefaultOpargs.Gives.unique {defaults : DefaultOpargs} {flags : Flags} {type other : String}
    (h : defaults.Gives flags type) (hother : defaults.Gives flags other) : type = other := by
  rw [gives_iff.1 h, gives_iff.1 hother]

/-- The operand that a definition has by itself, before its family is looked at. -/
inductive Definition.Owns (defaults : DefaultOpargs) (d : Definition) : Operand → Prop where
  | stated {operand : OperandReference} (hoperand : d.operand = some operand) :
      Owns defaults d ⟨operand.field.getD "arg", operand.type⟩
  | byDefault {type : String} (hoperand : d.operand = none) (hflag : d.flags.hasOparg = true)
      (htype : defaults.Gives d.flags type) : Owns defaults d ⟨"arg", type⟩

theorem Definition.ownOperand?_eq_some_iff {defaults : DefaultOpargs} {d : Definition}
    {own : Operand} : d.ownOperand? defaults = some own ↔ d.Owns defaults own := by
  constructor
  · intro h
    unfold ownOperand? at h
    split at h
    · next operand hoperand =>
        obtain rfl := Option.some.inj h
        exact .stated hoperand
    · next hoperand =>
        rw [Option.ite_none_right_eq_some] at h
        obtain ⟨hflag, hown⟩ := h
        obtain rfl := Option.some.inj hown
        exact .byDefault hoperand hflag (DefaultOpargs.gives_iff.2 rfl)
  · rintro (hoperand | ⟨hoperand, hflag, htype⟩)
    · rw [ownOperand?, hoperand]
    · rw [ownOperand?, hoperand, if_pos hflag, DefaultOpargs.gives_iff.1 htype]

namespace InstructionSet

variable {set : InstructionSet} {defaults : DefaultOpargs} {d : Definition}
  {operandOf other : Definition → Option Operand}

/-- The operands of the definitions of a set, by precedence. -/
structure Assigns (set : InstructionSet) (defaults : DefaultOpargs)
    (operandOf : Definition → Option Operand) : Prop where
  stated : ∀ d ∈ set.definitions, ∀ operand, d.operand = some operand →
    operandOf d = some ⟨operand.field.getD "arg", operand.type⟩
  absent : ∀ d ∈ set.definitions, d.operand = none → d.flags.hasOparg = false →
    operandOf d = none
  inherited : ∀ d ∈ set.definitions, d.operand = none → d.flags.hasOparg = true →
    ∀ root operand, set.Specializes d root → operandOf root = some operand →
      operandOf d = some operand
  byDefault : ∀ d ∈ set.definitions, d.operand = none → d.flags.hasOparg = true →
    (∀ root, set.Specializes d root → operandOf root = none) →
      ∃ type, defaults.Gives d.flags type ∧ operandOf d = some ⟨"arg", type⟩

theorem Assigns.congr (h : set.Assigns defaults operandOf)
    (heq : ∀ d ∈ set.definitions, other d = operandOf d) : set.Assigns defaults other where
  stated := by
    intro d hd operand hoperand
    rw [heq d hd, h.stated d hd operand hoperand]
  absent := by
    intro d hd hoperand hflag
    rw [heq d hd, h.absent d hd hoperand hflag]
  inherited := by
    intro d hd hoperand hflag root operand hroot hcarried
    rw [heq root hroot.root.mem] at hcarried
    rw [heq d hd, h.inherited d hd hoperand hflag root operand hroot hcarried]
  byDefault := by
    intro d hd hoperand hflag hnone
    rw [heq d hd]
    refine h.byDefault d hd hoperand hflag fun root hroot => ?_
    rw [← heq root hroot.root.mem, hnone root hroot]

theorem Assigns.inherited_or_byDefault (h : set.Assigns defaults operandOf)
    (hd : d ∈ set.definitions) (hoperand : d.operand = none) (hflag : d.flags.hasOparg = true) :
    (∃ root inherited, set.Specializes d root ∧ operandOf root = some inherited ∧
        operandOf d = some inherited) ∨
      (∀ root, set.Specializes d root → operandOf root = none) ∧
        ∃ type, defaults.Gives d.flags type ∧ operandOf d = some ⟨"arg", type⟩ := by
  by_cases hnone : ∀ root, set.Specializes d root → operandOf root = none
  · exact .inr ⟨hnone, h.byDefault d hd hoperand hflag hnone⟩
  · push Not at hnone
    obtain ⟨root, hroot, hcarries⟩ := hnone
    obtain ⟨inherited, hcarried⟩ := Option.ne_none_iff_exists'.1 hcarries
    exact .inl ⟨root, inherited, hroot, hcarried,
      h.inherited d hd hoperand hflag root inherited hroot hcarried⟩

/-- What a definition carries depends on what its root carries alone. -/
theorem Assigns.eq_of_roots (h : set.Assigns defaults operandOf)
    (hother : set.Assigns defaults other) (hd : d ∈ set.definitions)
    (hroots : ∀ root, set.Specializes d root → operandOf root = other root) :
    operandOf d = other d := by
  cases hoperand : d.operand with
  | some operand => rw [h.stated d hd operand hoperand, hother.stated d hd operand hoperand]
  | none =>
      cases hflag : d.flags.hasOparg with
      | false => rw [h.absent d hd hoperand hflag, hother.absent d hd hoperand hflag]
      | true =>
          rcases h.inherited_or_byDefault hd hoperand hflag with
            ⟨root, inherited, hroot, hcarried, hinherited⟩ | ⟨hnone, type, htype, hdefault⟩
          · rw [hroots root hroot] at hcarried
            rw [hinherited, hother.inherited d hd hoperand hflag root inherited hroot hcarried]
          · obtain ⟨type', htype', hdefault'⟩ :=
              hother.byDefault d hd hoperand hflag fun root hroot => by
                rw [← hroots root hroot, hnone root hroot]
            rw [hdefault, hdefault', htype.unique htype']

/-- Precedence leaves nothing open. -/
theorem Assigns.unique (h : set.Assigns defaults operandOf) (hother : set.Assigns defaults other)
    (hd : d ∈ set.definitions) : operandOf d = other d := by
  refine h.eq_of_roots hother hd fun root hroot => ?_
  -- A root declares no family, so that nothing is inherited by it in turn.
  refine h.eq_of_roots hother hroot.root.mem fun above habove => ?_
  exact absurd hroot.root.generic habove.specialized

/-- A definition with an operand of its own carries that one, unless it inherits another. -/
theorem Assigns.own_or_inherited (h : set.Assigns defaults operandOf) (hd : d ∈ set.definitions)
    {own : Operand} (hown : d.Owns defaults own) :
    operandOf d = some own ∨
      d.operand = none ∧ ∃ root inherited, set.Specializes d root ∧
        operandOf root = some inherited ∧ operandOf d = some inherited := by
  cases hown with
  | stated hoperand => exact .inl (h.stated d hd _ hoperand)
  | byDefault hoperand hflag htype =>
      rcases h.inherited_or_byDefault hd hoperand hflag with
        hinherits | ⟨-, type, htype', hcarried⟩
      · exact .inr ⟨hoperand, hinherits⟩
      · rw [htype.unique htype']
        exact .inl hcarried

/-- The operand of a definition: its own, where the root that is looked up has none to inherit. -/
def operandOf? (set : InstructionSet) (defaults : DefaultOpargs) (d : Definition) :
    Option Operand :=
  if d.operand.isSome ∨ (d.ownOperand? defaults).isNone then d.ownOperand? defaults
  else
    ((set.familyRoot? d).bind fun root => root.ownOperand? defaults).or (d.ownOperand? defaults)

theorem operandOf?_of_generic (hfamily : d.family = none) :
    set.operandOf? defaults d = d.ownOperand? defaults := by
  have hroot : set.familyRoot? d = none := by rw [familyRoot?, hfamily]; rfl
  rw [operandOf?, hroot, Option.bind_none, Option.none_or, ite_self]

theorem operandOf?_of_hasOparg (hoperand : d.operand = none) (hflag : d.flags.hasOparg = true) :
    set.operandOf? defaults d =
      ((set.familyRoot? d).bind fun root => root.ownOperand? defaults).or
        (some ⟨"arg", defaults.typeFor d.flags⟩) := by
  have hown : d.ownOperand? defaults = some ⟨"arg", defaults.typeFor d.flags⟩ := by
    simp [Definition.ownOperand?, hoperand, hflag]
  rw [operandOf?, hown, hoperand]
  rfl

theorem assigns_operandOf? (hnames : (set.definitions.map Definition.name).Nodup) :
    set.Assigns defaults (set.operandOf? defaults) where
  stated := by
    intro d _ operand hoperand
    simp [operandOf?, Definition.ownOperand?, hoperand]
  absent := by
    intro d _ hoperand hflag
    simp [operandOf?, Definition.ownOperand?, hoperand, hflag]
  inherited := by
    intro d hd hoperand hflag root operand hroot hcarried
    rw [operandOf?_of_generic hroot.root.generic] at hcarried
    rw [operandOf?_of_hasOparg hoperand hflag, (familyRoot?_eq_some_iff hnames hd).2 hroot,
      Option.bind_some, hcarried, Option.some_or]
  byDefault := by
    intro d hd hoperand hflag hnone
    refine ⟨defaults.typeFor d.flags, DefaultOpargs.gives_iff.2 rfl, ?_⟩
    rw [operandOf?_of_hasOparg hoperand hflag]
    cases hfound : set.familyRoot? d with
    | none => rfl
    | some root =>
        have hroot := (familyRoot?_eq_some_iff hnames hd).1 hfound
        rw [Option.bind_some, ← operandOf?_of_generic hroot.root.generic, hnone root hroot,
          Option.none_or]

end InstructionSet

/-! ### The two passes -/

section Passes

variable {set : InstructionSet} {registry : Registry} {defaults : DefaultOpargs} {d : Definition}
  {c : Case} {model : InstructionModel} {error : BuildError}

inductive Definition.Unresolved (registry : Registry) (defaults : DefaultOpargs) (d : Definition) :
    BuildError → Prop where
  | missing {own : Operand} (hown : d.Owns defaults own) (hmissing : ¬ own.TypeIn registry) :
      Unresolved registry defaults d (.missingOpargType own.type d.name)

theorem Definition.ownCase_eq_error_iff :
    d.ownCase registry defaults = .error error ↔ d.Unresolved registry defaults error := by
  have hcontains : ∀ own : Operand, registry.contains own.type = true ↔ own.TypeIn registry :=
    fun own => Option.isSome_iff_exists
  rw [ownCase]
  constructor
  · intro h
    cases hown : d.ownOperand? defaults with
    | none =>
        rw [hown] at h
        cases h
    | some own =>
        simp only [hown, Option.bind_some] at h
        split at h
        · next missing hmissing =>
            rw [Option.ite_none_left_eq_some] at hmissing
            obtain ⟨hnot, htype⟩ := hmissing
            obtain rfl := Except.error.inj h
            rw [← Option.some.inj htype]
            exact .missing (ownOperand?_eq_some_iff.1 hown) (mt (hcontains own).2 hnot)
        · cases h
  · rintro ⟨hown, hmissing⟩
    rw [ownOperand?_eq_some_iff.2 hown, Option.bind_some, if_neg (mt (hcontains _).1 hmissing)]

/-- A case of a definition, with an operand; the flag for operands says whether there is one, and
the others are those of the properties. -/
structure Case.Carries (operandOf : Definition → Option Operand) (d : Definition) (c : Case) :
    Prop where
  name : c.name = d.name
  operand : c.operand = operandOf d
  flags : c.flags = { d.flags with hasOparg := c.operand.isSome }

theorem Case.carries_ownCase (h : d.ownCase registry defaults = .ok c) :
    c.Carries (Definition.ownOperand? · defaults) d := by
  rw [Definition.ownCase] at h
  dsimp only at h
  split at h
  · cases h
  · obtain rfl := Except.ok.inj h
    exact ⟨rfl, rfl, rfl⟩

namespace InstructionModel

/-- What is inherited is an own operand, that of the root, so that the order in which the cases
inherit does not matter. -/
theorem carries_inherit (hnames : (set.definitions.map Definition.name).Nodup)
    {own : InstructionModel}
    (hown : List.Forall₂ (Case.Carries (Definition.ownOperand? · defaults)) set.definitions
      own.cases)
    (hd : d ∈ set.definitions) (h : c.Carries (Definition.ownOperand? · defaults) d) :
    (inherit set own d c).Carries (set.operandOf? defaults) d := by
  have hroots : ((set.familyRoot? d).bind fun root => (own.get? root.name).bind Case.operand) =
      (set.familyRoot? d).bind fun root => root.ownOperand? defaults := by
    refine Option.bind_congr fun root hroot => ?_
    have hmem : root ∈ set.definitions :=
      ((InstructionSet.familyRoot?_eq_some_iff hnames hd).1 hroot).root.mem
    have hrel : Option.Rel (Case.Carries (Definition.ownOperand? · defaults))
        (set.get? root.name) (own.get? root.name) :=
      rel_find? (List.rel_reverse hown) fun _ _ hc => by simp [hc.name]
    rw [(InstructionSet.get?_eq_some_iff hnames).2 ⟨hmem, rfl⟩] at hrel
    obtain ⟨other, hother, hcarries⟩ := eq_some_of_rel hrel
    rw [hother, Option.bind_some, hcarries.operand]
  have hunchanged : c.operand = d.ownOperand? defaults := h.operand
  have hoperand : set.operandOf? defaults d = if d.operand.isSome ∨ c.operand.isNone then c.operand
      else ((set.familyRoot? d).bind fun root => root.ownOperand? defaults).or c.operand := by
    rw [hunchanged, InstructionSet.operandOf?]
  unfold inherit
  rw [hroots]
  split
  · next hkept =>
      rw [if_pos hkept] at hoperand
      exact ⟨h.name, hoperand.symm, h.flags⟩
  · next hkept =>
      rw [if_neg hkept] at hoperand
      split
      · next inherited hinherited =>
          rw [hinherited, Option.some_or] at hoperand
          have hsome : c.operand.isSome = true := by
            rw [not_or, Option.isNone_iff_eq_none] at hkept
            exact Option.isSome_iff_ne_none.2 hkept.2
          exact ⟨h.name, hoperand.symm, by rw [h.flags, hsome]; rfl⟩
      · next hnone =>
          rw [hnone, Option.none_or] at hoperand
          exact ⟨h.name, hoperand.symm, h.flags⟩

theorem carries_build (hnames : (set.definitions.map Definition.name).Nodup)
    (h : build set registry defaults = .ok model) :
    List.Forall₂ (Case.Carries (set.operandOf? defaults)) set.definitions model.cases := by
  rw [build, bind_eq_ok_iff] at h
  obtain ⟨cases, hcases, hend⟩ := h
  obtain rfl := Except.ok.inj hend
  have hown : List.Forall₂ (Case.Carries (Definition.ownOperand? · defaults)) set.definitions
      cases := (mapM_eq_ok_iff.1 hcases).imp fun _ _ => Case.carries_ownCase
  have hmem := (List.forall₂_and_left _ _).2 ⟨fun d hd => hd, hown⟩
  exact forall₂_zipWith hmem fun d c hc => carries_inherit hnames hown hc.1 hc.2

theorem build_eq_error_iff :
    build set registry defaults = .error error ↔
      ∃ d, set.IsFirst (fun d => ∃ error, d.Unresolved registry defaults error) d ∧
        d.Unresolved registry defaults error := by
  rw [← InstructionSet.mapM_eq_error_iff fun d _ error => d.ownCase_eq_error_iff, build,
    bind_eq_error_iff]
  simp

end InstructionModel

end Passes

/-! ### Loaded sets -/

/-- The properties that a source gives for a definition; a placeholder may be unknown to it. -/
inductive Definition.Records (source : PropertySource) (d : Definition) : Properties → Prop where
  | known {properties : Properties} (h : source d.canonicalName = some properties) :
      Records source d properties
  | unknown (h : source d.canonicalName = none) (hplaceholder : d.placeholder = true) :
      Records source d {}

variable {table : Table} {source : PropertySource} {definitions : Definitions} {kind : SetKind}
  {registry : Registry} {defaults : DefaultOpargs} {model : InstructionModel} {d : Definition}

namespace Table

theorem records_of_propertiesOf {name : String} {spec : InstructionSpec} {properties : Properties}
    (h : propertiesOf source name spec = .ok properties)
    (hcanonical : d.canonicalName = spec.canonicalName)
    (hplaceholder : d.placeholder = spec.placeholder) : d.Records source properties := by
  unfold propertiesOf at h
  rw [← hcanonical, ← hplaceholder] at h
  split at h
  · next found hfound =>
      obtain rfl := Except.ok.inj h
      exact .known hfound
  · next hnone =>
      split at h
      · next hplaceholder =>
          obtain rfl := Except.ok.inj h
          exact .unknown hnone hplaceholder
      · cases h

theorem records_of_define {config : Config} {known : NameMap String}
    {entry : String × InstructionSpec} (h : define config source known entry = .ok d) :
    ∃ properties, d.Records source properties ∧ d.flags = properties.flags := by
  unfold define at h
  simp only [bind_eq_ok_iff] at h
  obtain ⟨_, -, operand, -, properties, hproperties, stackOverride, -, family, -, hend⟩ := h
  obtain rfl := Except.ok.inj hend
  exact ⟨properties, records_of_propertiesOf hproperties rfl rfl, rfl⟩

/-- A loaded definition has the flags of its properties. -/
theorem records_of_load (h : table.load source = .ok definitions)
    (hd : d ∈ (definitions.set kind).definitions) :
    ∃ properties, d.Records source properties ∧ d.flags = properties.flags := by
  obtain ⟨known, all, -, hall, hreal, hpseudo⟩ := load_eq_ok h
  have hmem : d ∈ all := by
    cases kind with
    | real =>
        exact (List.mem_filter.1 ((InstructionSet.perm_of_ofDefinitions hreal).mem_iff.1 hd)).1
    | pseudo =>
        exact (List.mem_filter.1 ((InstructionSet.perm_of_ofDefinitions hpseudo).mem_iff.1 hd)).1
  obtain ⟨_, -, hdefine⟩ := exists_of_forall₂ (mapM_eq_ok_iff.1 hall) hmem
  exact records_of_define hdefine

end Table

namespace InstructionModel

/-- The operands of a built model are those of precedence, and their types are in the registry. The
flags of a case are those of the properties, apart from the one for operands, which says whether the
case carries one. -/
theorem assigns_of_build (hload : table.load source = .ok definitions)
    (hmodel : build (definitions.set kind) registry defaults = .ok model) :
    (definitions.set kind).Assigns defaults
        (fun d => (model.get? d.name).bind Case.operand) ∧
      ∀ d ∈ (definitions.set kind).definitions, ∃ c properties,
        model.get? d.name = some c ∧ model.ofOpcode? d.opcode = some c ∧
        (∀ operand, c.operand = some operand → operand.TypeIn registry) ∧
        d.Records source properties ∧ d.flags = properties.flags ∧
        c.flags = { properties.flags with hasOparg := c.operand.isSome } := by
  have hnames := Table.nodup_names_of_load hload kind
  have hresolves := resolves_build hmodel
  have hcarries := carries_build hnames hmodel
  have hcase : ∀ d ∈ (definitions.set kind).definitions, ∃ c, model.get? d.name = some c ∧
      c.Carries ((definitions.set kind).operandOf? defaults) d := by
    intro d hd
    have hrel : Option.Rel (Case.Carries ((definitions.set kind).operandOf? defaults))
        ((definitions.set kind).get? d.name) (model.get? d.name) :=
      rel_find? (List.rel_reverse hcarries) fun _ _ hc => by simp [hc.name]
    rw [(InstructionSet.get?_eq_some_iff hnames).2 ⟨hd, rfl⟩] at hrel
    exact eq_some_of_rel hrel
  constructor
  · refine (InstructionSet.assigns_operandOf? hnames).congr fun d hd => ?_
    obtain ⟨c, hc, hcarried⟩ := hcase d hd
    rw [hc, Option.bind_some, hcarried.operand]
  · intro d hd
    obtain ⟨c, hc, hcarried⟩ := hcase d hd
    obtain ⟨other, hother, hopcode⟩ := case_of_mem hnames hresolves hd
    obtain rfl : c = other := Option.some.inj (hc.symm.trans hother)
    obtain ⟨properties, hrecords, hflags⟩ := Table.records_of_load hload hd
    have hmem : c ∈ model.cases := List.mem_reverse.1 (List.mem_of_find?_eq_some hc)
    obtain ⟨_, -, hresolved⟩ := exists_of_forall₂ hresolves hmem
    exact ⟨c, properties, hc, hopcode, hresolved.operand, hrecords, hflags,
      hflags ▸ hcarried.flags⟩

/-- A chain of families with an operand of its own in the middle, and instructions whose operands the
table does not mention: one for each flag that decides, and one whose family has no operand. -/
def comparisons : Table where
  opargs := .ofList [("ConstIdx", .aliased {}), ("Delta", .aliased {}), ("Kind", .aliased {}),
    ("NameIdx", .aliased {}), ("Raw", .aliased {})]
  instructions := .ofList [
    ("Compare", {
      opcode := 7
      canonicalName := "COMPARE"
      operand := some { field := some "kind", type := some "Kind" } }),
    ("CompareInt", {
      opcode := 3
      canonicalName := "COMPARE_INT"
      operand := some { type := some "Raw" }
      family := some "Compare" }),
    ("CompareIntLocal", {
      opcode := 5
      canonicalName := "COMPARE_INT_LOCAL"
      family := some "CompareInt" }),
    ("Jump", { opcode := 1, canonicalName := "JUMP" }),
    ("LoadConst", { opcode := 2, canonicalName := "LOAD_CONST" }),
    ("LoadName", { opcode := 4, canonicalName := "LOAD_NAME" }),
    ("Nop", { opcode := 0, canonicalName := "NOP" }),
    ("NopCounted", { opcode := 6, canonicalName := "NOP_COUNTED", family := some "Nop" })]

/-- A jump has all three flags that choose a type, and what reads constants has that of names too. -/
def comparisonProperties : PropertySource := fun name =>
  some { flags := {
    hasOparg := name ≠ "NOP"
    jumps := name = "JUMP"
    readsConstants := name ∈ ["JUMP", "LOAD_CONST"]
    readsNames := name ∈ ["JUMP", "LOAD_CONST", "LOAD_NAME"] } }

theorem assigns_of_build_comparisons :
    ∃ definitions registry model,
      comparisons.load comparisonProperties = .ok definitions ∧
      Registry.build comparisons.opargs = .ok registry ∧
      build (definitions.set .real) registry {} = .ok model ∧
      (definitions.set .real).Assigns {} (fun d => (model.get? d.name).bind Case.operand) ∧
      model.cases.map (fun c => (c.name, c.operand)) = [
        ("Nop", none), ("Jump", some ⟨"arg", "Delta"⟩), ("LoadConst", some ⟨"arg", "ConstIdx"⟩),
        ("CompareInt", some ⟨"arg", "Raw"⟩), ("LoadName", some ⟨"arg", "NameIdx"⟩),
        ("CompareIntLocal", some ⟨"kind", "Kind"⟩), ("NopCounted", some ⟨"arg", "Raw"⟩),
        ("Compare", some ⟨"kind", "Kind"⟩)] := by
  have hrun : (do
      let definitions ← comparisons.load comparisonProperties
      let registry ← Registry.build comparisons.opargs
      let model ← build (definitions.set .real) registry {}
      return model.cases.map fun c => (c.name, c.operand) : Except BuildError _) =
      .ok [("Nop", none), ("Jump", some ⟨"arg", "Delta"⟩),
        ("LoadConst", some ⟨"arg", "ConstIdx"⟩), ("CompareInt", some ⟨"arg", "Raw"⟩),
        ("LoadName", some ⟨"arg", "NameIdx"⟩), ("CompareIntLocal", some ⟨"kind", "Kind"⟩),
        ("NopCounted", some ⟨"arg", "Raw"⟩), ("Compare", some ⟨"kind", "Kind"⟩)] := by cbv
  simp only [bind_eq_ok_iff, pure_eq_ok, Except.ok.injEq] at hrun
  obtain ⟨definitions, hload, registry, hregistry, model, hmodel, hoperands⟩ := hrun
  exact ⟨definitions, registry, model, hload, hregistry, hmodel,
    (assigns_of_build hload hmodel).1, hoperands⟩

/-- A model is not built exactly where a definition's own operand has no type, and the error is that
of the lowest opcode. The operand is the one of precedence unless the definition inherits. -/
theorem build_eq_error_iff_unresolved (hload : table.load source = .ok definitions) :
    ∃ operandOf, (definitions.set kind).Assigns defaults operandOf ∧
      (∀ error, build (definitions.set kind) registry defaults = .error error ↔
        ∃ d, (definitions.set kind).IsFirst
            (fun d => ∃ error, d.Unresolved registry defaults error) d ∧
          d.Unresolved registry defaults error) ∧
      ∀ d ∈ (definitions.set kind).definitions, ∀ own, d.Owns defaults own →
        operandOf d = some own ∨
          d.operand = none ∧ ∃ root inherited, (definitions.set kind).Specializes d root ∧
            operandOf root = some inherited ∧ operandOf d = some inherited := by
  have hnames := Table.nodup_names_of_load hload kind
  have hassigns : (definitions.set kind).Assigns defaults
      ((definitions.set kind).operandOf? defaults) := InstructionSet.assigns_operandOf? hnames
  exact ⟨_, hassigns, fun error => build_eq_error_iff, fun d hd own =>
    hassigns.own_or_inherited hd⟩

/-- A specialized instruction that takes the operand of its family, where the registry does not have
the type of the operand that it would have without one. -/
def inheritances : Table where
  opargs := .ofList [("Kind", .aliased {})]
  instructions := .ofList [
    ("Compare", {
      opcode := 1
      canonicalName := "COMPARE"
      operand := some { type := some "Kind" } }),
    ("CompareInt", { opcode := 2, canonicalName := "COMPARE_INT", family := some "Compare" })]

theorem build_eq_error_iff_unresolved_inheritances :
    ∃ definitions registry operandOf d,
      inheritances.load (fun _ => some { flags := { hasOparg := true } }) = .ok definitions ∧
      Registry.build inheritances.opargs = .ok registry ∧
      (definitions.set .real).Assigns {} operandOf ∧
      (definitions.set .real).IsFirst (fun d => ∃ error, d.Unresolved registry {} error) d ∧
      d.name = "CompareInt" := by
  have hrun : (do
      let definitions ← inheritances.load fun _ => some { flags := { hasOparg := true } }
      let registry ← Registry.build inheritances.opargs
      return build (definitions.set .real) registry {} : Except BuildError _) =
      .ok (.error (.missingOpargType "Raw" "CompareInt")) := by cbv
  simp only [bind_eq_ok_iff, pure_eq_ok, Except.ok.injEq] at hrun
  obtain ⟨definitions, hload, registry, hregistry, herror⟩ := hrun
  obtain ⟨operandOf, hassigns, herrors, -⟩ := build_eq_error_iff_unresolved hload
  obtain ⟨d, hfirst, hunresolved⟩ := (herrors _).1 herror
  refine ⟨definitions, registry, operandOf, d, hload, hregistry, hassigns, hfirst, ?_⟩
  generalize herror : BuildError.missingOpargType "Raw" "CompareInt" = error at hunresolved
  cases hunresolved
  exact (BuildError.missingOpargType.inj herror).2.symm

/-- The set is refused for a type that the instruction does not have by precedence; the one that it
has is in the registry. -/
theorem inheritances_refused :
    ∃ definitions registry,
      inheritances.load (fun _ => some { flags := { hasOparg := true } }) = .ok definitions ∧
      Registry.build inheritances.opargs = .ok registry ∧
      build (definitions.set .real) registry {} =
        .error (.missingOpargType "Raw" "CompareInt") ∧
      ∀ operandOf, (definitions.set .real).Assigns {} operandOf →
        ∃ d ∈ (definitions.set .real).definitions, d.name = "CompareInt" ∧
          operandOf d = some ⟨"arg", "Kind"⟩ ∧ (⟨"arg", "Kind"⟩ : Operand).TypeIn registry := by
  have hrun : (do
      let definitions ← inheritances.load fun _ => some { flags := { hasOparg := true } }
      let registry ← Registry.build inheritances.opargs
      return (build (definitions.set .real) registry {}, registry.contains "Kind",
        (definitions.set .real).definitions.map fun d =>
          (d.name, (definitions.set .real).operandOf? {} d)) : Except BuildError _) =
      .ok (.error (.missingOpargType "Raw" "CompareInt"), true,
        [("Compare", some ⟨"arg", "Kind"⟩), ("CompareInt", some ⟨"arg", "Kind"⟩)]) := by cbv
  simp only [bind_eq_ok_iff, pure_eq_ok, Except.ok.injEq, Prod.mk.injEq] at hrun
  obtain ⟨definitions, hload, registry, hregistry, herror, hcontains, hoperands⟩ := hrun
  refine ⟨definitions, registry, hload, hregistry, herror, fun operandOf h => ?_⟩
  have hassigns : (definitions.set .real).Assigns {} ((definitions.set .real).operandOf? {}) :=
    InstructionSet.assigns_operandOf? (Table.nodup_names_of_load hload .real)
  have hmem : ("CompareInt", some (⟨"arg", "Kind"⟩ : Operand)) ∈
      (definitions.set .real).definitions.map fun d =>
        (d.name, (definitions.set .real).operandOf? {} d) := by simp [hoperands]
  obtain ⟨d, hd, hpair⟩ := List.mem_map.1 hmem
  obtain ⟨hname, hoperand⟩ := Prod.mk.inj hpair
  exact ⟨d, hd, hname, (h.unique hassigns hd).trans hoperand,
    Option.isSome_iff_exists.1 hcontains⟩

end InstructionModel

end Bytecode

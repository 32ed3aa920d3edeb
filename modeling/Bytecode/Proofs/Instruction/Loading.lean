import Bytecode.Proofs.Instruction.Operands
import Bytecode.Proofs.Instruction.Validation

/-!
# Loading reports the first violation

The stages of loading are put together in the order in which they run. Loading succeeds exactly on
the consistent tables, and otherwise the error is the first violation. What is loaded says of every
instruction what the table and the properties say of it.
-/

namespace Bytecode

/-! ### Collisions of opcodes -/

namespace InstructionSet

variable {kind : SetKind} {earlier earlier' : List Definition} {d : Definition}

def extend (kind : SetKind) (earlier : List Definition) (d : Definition) :
    Except BuildError (List Definition) :=
  match earlier.find? fun other => other.opcode = d.opcode with
  | some other => .error (.duplicateOpcode kind d.opcode other.name d.name)
  | none => .ok (earlier ++ [d])

theorem extend_eq_ok (h : extend kind earlier d = .ok earlier') :
    earlier' = earlier ++ [d] ∧ ∀ other ∈ earlier, other.opcode ≠ d.opcode := by
  unfold extend at h
  split at h
  · cases h
  · next hnone =>
      obtain rfl := Except.ok.inj h
      exact ⟨rfl, by simpa using hnone⟩

/-- Looking for a collision is extending the set by one definition after the other. -/
theorem foldlM_extend (kind : SetKind) (earlier rest : List Definition) :
    rest.foldlM (extend kind) earlier =
      match collision? earlier rest with
      | some (first, second) => .error (.duplicateOpcode kind second.opcode first.name second.name)
      | none => .ok (earlier ++ rest) := by
  induction rest generalizing earlier with
  | nil => simp [collision?]
  | cons d rest ih =>
      rw [List.foldlM_cons, extend, collision?]
      cases earlier.find? fun other => other.opcode = d.opcode with
      | some other => rfl
      | none => simp only [ok_bind, ih, List.append_assoc, List.singleton_append]

theorem ofDefinitions_eq_error_iff {width : Width} {definitions : List Definition}
    {error : BuildError} :
    ofDefinitions kind width definitions = .error error ↔
      definitions.foldlM (extend kind) [] = .error error := by
  rw [foldlM_extend, ofDefinitions]
  split
  · next hcollision => simp [hcollision]
  · next hcollision => simp [hcollision]

end InstructionSet

namespace Table

variable {table : Table} {source : PropertySource} {error : BuildError} {name : String}
  {spec : InstructionSpec} {known : NameMap String}

/-! ### The two sets -/

section Sets

variable {kind : SetKind} {width : Width} {all front back : List Definition} {d : Definition}

structure Lists (table : Table) (kind : SetKind) (all : List Definition) : Prop where
  sorted : all.Pairwise fun a b => a.name < b.name
  defined_iff : ∀ name opcode, (∃ d ∈ all, d.name = name ∧ d.opcode = opcode) ↔
    ∃ spec, table.instructions.get? name = some spec ∧ spec.opcode = opcode ∧
      kind.Covers table.config opcode

theorem Lists.of_defines {p : Definition → Bool}
    (h : List.Forall₂ (Defines table.config) table.instructions.entries all)
    (hkind : ∀ d ∈ all, p d = true ↔ kind.Covers table.config d.opcode) :
    table.Lists kind (all.filter p) where
  sorted := by
    have hnames : table.instructions.names = all.map Definition.name :=
      map_eq_map_of_forall₂ h fun _ _ hd => hd.name.symm
    have hsorted : (all.map Definition.name).Pairwise (· < ·) :=
      hnames ▸ List.pairwise_map.2 table.instructions.sorted
    exact (List.pairwise_map.1 hsorted).filter p
  defined_iff name opcode := by
    constructor
    · rintro ⟨d, hd, rfl, rfl⟩
      obtain ⟨hmem, hp⟩ := List.mem_filter.1 hd
      obtain ⟨⟨name, spec⟩, hentry, hdefines⟩ := exists_of_forall₂ h hmem
      refine ⟨spec, ?_, hdefines.opcode.symm, (hkind d hmem).1 hp⟩
      rw [hdefines.name]
      exact NameMap.get?_eq_some_iff.2 hentry
    · rintro ⟨spec, hspec, rfl, hcovers⟩
      obtain ⟨d, hd, hdefines⟩ :=
        exists_of_forall₂ h.flip (NameMap.get?_eq_some_iff.1 hspec)
      rw [← hdefines.opcode] at hcovers
      exact ⟨d, List.mem_filter.2 ⟨hd, (hkind d hd).2 hcovers⟩, hdefines.name, hdefines.opcode⟩

theorem extend_eq_error_iff (h : table.Lists kind all) (hsplit : all = front ++ d :: back)
    (hfront : (front.map Definition.opcode).Nodup) :
    InstructionSet.extend kind front d = .error error ↔
      table.Violation source (.sharedOpcode kind d.name) error := by
  obtain ⟨spec, hspec, hopcode, hcovers⟩ := (h.defined_iff d.name d.opcode).1
    ⟨d, by simp [hsplit], rfl, rfl⟩
  constructor
  · intro herror
    unfold InstructionSet.extend at herror
    split at herror
    · next other hother =>
        obtain rfl := Except.error.inj herror
        obtain ⟨hmem, hsame⟩ := (find?_key_eq_some_iff hfront).1 hother
        obtain ⟨hall, hlt⟩ := (mem_front_iff h.sorted hsplit).1 hmem
        obtain ⟨otherSpec, hotherSpec, hotherOpcode, -⟩ := (h.defined_iff _ _).1
          ⟨other, hall, rfl, hsame⟩
        rw [← hopcode] at hcovers hotherOpcode ⊢
        exact .sharedOpcode hspec hotherSpec hlt hcovers hotherOpcode
    · cases herror
  · intro hviolated
    cases hviolated with
    | sharedOpcode hspec' hother hlt _ hsame =>
        obtain rfl := Option.some.inj (hspec.symm.trans hspec')
        obtain ⟨other, hall, rfl, hotherOpcode⟩ := (h.defined_iff _ _).2
          ⟨_, hother, hsame.trans hopcode, hcovers⟩
        have hmem := (mem_front_iff h.sorted hsplit).2 ⟨hall, hlt⟩
        rw [InstructionSet.extend, (find?_key_eq_some_iff hfront).2 ⟨hmem, hotherOpcode⟩, hopcode]

theorem checks_ofDefinitions (h : table.Lists kind all) :
    Checks (table.Violation source) {p | p.stage = Place.opcodeStage kind}
      (InstructionSet.ofDefinitions kind width all) := by
  have hfold : Checks (table.Violation source) (⋃ d ∈ all, {Place.sharedOpcode kind d.name})
      (all.foldlM (InstructionSet.extend kind) []) := by
    -- The definitions in front differ in their opcodes, so that only one of them can have this one.
    refine Checks.foldlM (fun front t => t = front ∧ (front.map Definition.opcode).Nodup)
      ⟨rfl, List.nodup_nil⟩ ?_ ?_
    · rintro front d back _ hsplit ⟨rfl, hfront⟩
      refine ⟨.singleton fun _ => extend_eq_error_iff h hsplit hfront, fun t' hstep => ?_⟩
      obtain ⟨rfl, hnew⟩ := InstructionSet.extend_eq_ok hstep
      refine ⟨rfl, ?_⟩
      rw [List.map_append, List.map_singleton, ← List.concat_eq_append]
      refine hfront.concat fun hmem => ?_
      obtain ⟨other, hother, hsame⟩ := List.mem_map.1 hmem
      exact hnew other hother hsame
    · refine h.sorted.imp fun hlt p hp q hq => ?_
      rw [Set.mem_singleton_iff.1 hp, Set.mem_singleton_iff.1 hq]
      exact Place.le_of_name_lt rfl hlt
  refine (hfold.of_eq_error_iff fun _ => InstructionSet.ofDefinitions_eq_error_iff).congr
    fun p e hviolated => ?_
  simp only [Set.mem_iUnion, Set.mem_singleton_iff, Set.mem_ofPred_eq,
    Place.stage_eq_opcodeStage_iff]
  constructor
  · rintro ⟨d, -, rfl⟩
    exact ⟨_, rfl⟩
  · rintro ⟨name, rfl⟩
    cases hviolated with
    | sharedOpcode hspec _ _ hcovers _ =>
        obtain ⟨d, hd, rfl, -⟩ := (h.defined_iff _ _).2 ⟨_, hspec, rfl, hcovers⟩
        exact ⟨d, hd, rfl⟩

end Sets

/-! ### The whole table -/

def checkLimits (config : Config) : Except BuildError Unit :=
  if config.pseudoLimit < config.realLimit then
    .error (.invalidDefinition "config" (.limitsReversed config.realLimit config.pseudoLimit))
  else .ok ()

theorem checkLimits_eq_error_iff :
    checkLimits table.config = .error error ↔ table.Violation source .limits error := by
  rw [checkLimits]
  constructor
  · intro herror
    split at herror
    · next hreversed =>
        obtain rfl := Except.error.inj herror
        exact .limits hreversed
    · cases herror
  · rintro ⟨hreversed⟩
    rw [if_pos hreversed]

theorem le_of_checkLimits {config : Config} (h : checkLimits config = .ok ()) :
    config.realLimit ≤ config.pseudoLimit := by
  refine UInt32.not_lt.1 fun hreversed => ?_
  rw [checkLimits, if_pos hreversed] at h
  cases h

theorem load_eq :
    table.load source =
      (checkLimits table.config >>= fun _ =>
      table.byCanonicalName >>= fun known =>
      table.instructions.entries.mapM (define table.config source known) >>= fun all =>
      InstructionSet.ofDefinitions .real (.forLimit table.config.realLimit)
        (all.filter fun d => d.opcode < table.config.realLimit) >>= fun real =>
      InstructionSet.ofDefinitions .pseudo (.forLimit table.config.pseudoLimit)
        (all.filter fun d => ¬ d.opcode < table.config.realLimit) >>= fun pseudo =>
      .ok { real, pseudo }) := by
  unfold load checkLimits
  simp only [List.partition_eq_filter_filter, decide_not]
  split <;> rfl

/-- A stage comes before those that are left. -/
theorem checks_bind_stage {α β : Type} {stage : Nat} {x : Except BuildError α}
    {f : α → Except BuildError β}
    (hx : Checks (table.Violation source) {p | p.stage = stage} x)
    (hf : ∀ a, x = .ok a → Checks (table.Violation source) {p | stage + 1 ≤ p.stage} (f a)) :
    Checks (table.Violation source) {p | stage ≤ p.stage} (x >>= f) := by
  have hordered : ∀ p ∈ ({p | p.stage = stage} : Set Place),
      ∀ q ∈ ({p | stage + 1 ≤ p.stage} : Set Place), p ≤ q := by
    rintro p rfl q hq
    exact Place.le_of_stage_lt hq
  refine (hx.bind hf hordered).congr fun p e _ => ?_
  rw [Set.mem_union, Set.mem_ofPred_eq, Set.mem_ofPred_eq, Set.mem_ofPred_eq, Nat.add_one_le_iff,
    Nat.le_iff_lt_or_eq, or_comm, eq_comm]

theorem lists_of_define {kind : SetKind} {all : List Definition} {p : Definition → Bool}
    (h : table.instructions.entries.mapM (define table.config source known) = .ok all)
    (hkind : ∀ d, (d.opcode < table.config.realLimit ∨ d.opcode < table.config.pseudoLimit) →
      (p d = true ↔ kind.Covers table.config d.opcode)) :
    table.Lists kind (all.filter p) := by
  have hdefines : List.Forall₂ (Defines table.config) table.instructions.entries all :=
    (mapM_eq_ok_iff.1 h).imp fun _ _ => defines_of_define
  refine .of_defines hdefines fun d hd => ?_
  obtain ⟨entry, -, hentry⟩ := exists_of_forall₂ hdefines hd
  exact hkind d hentry.admitted

/-- Every part of loading checks a stage of the places. -/
theorem checks_load : Checks (table.Violation source) Set.univ (table.load source) := by
  suffices h : Checks (table.Violation source) {p | 0 ≤ p.stage} (table.load source) from
    h.congr (by simp)
  rw [load_eq]
  have hlimits : Checks (table.Violation source) {p | p.stage = 0} (checkLimits table.config) :=
    (Checks.singleton fun _ => checkLimits_eq_error_iff).congr fun _ _ _ => by
      simp [Place.stage_eq_zero_iff]
  refine checks_bind_stage hlimits fun _ hordered => ?_
  refine checks_bind_stage checks_byCanonicalName fun known hknown => ?_
  have hindexes := indexes_of_byCanonicalName hknown
  refine checks_bind_stage (checks_instructions (le_of_checkLimits hordered) hindexes)
    fun all hall => ?_
  have hreal : table.Lists .real (all.filter fun d => d.opcode < table.config.realLimit) :=
    lists_of_define hall fun d _ => by simp [SetKind.Covers]
  have hpseudo : table.Lists .pseudo (all.filter fun d => ¬ d.opcode < table.config.realLimit) :=
    lists_of_define hall fun d hadmitted => by
      rw [SetKind.covers_pseudo_iff hadmitted]
      simp
  refine checks_bind_stage (checks_ofDefinitions hreal) fun real _ => ?_
  refine checks_bind_stage (checks_ofDefinitions hpseudo) fun pseudo _ => ?_
  refine (Checks.ok _).congr fun p _ _ => iff_of_false (Set.notMem_empty p) ?_
  exact Nat.not_le.2 (Nat.lt_succ_of_le p.stage_le_four)

/-! ### What is loaded -/

inductive Overrides : Option StackEffectSpec → Option StackOverride → Prop where
  | absent : Overrides none none
  | given {effect : StackEffectSpec} {popped pushed : Expr}
      (hpopped : Expr.parse effect.popped = .ok popped)
      (hpushed : Expr.parse effect.pushed = .ok pushed) :
      Overrides (some effect) (some ⟨popped, pushed⟩)

/-- The family of an instruction is a name of the table. The properties give it by the canonical
name, and only where the table does not say it. -/
inductive Joins (table : Table) (spec : InstructionSpec) (properties : Properties) :
    Option String → Prop where
  | stated {family : String} (h : spec.family = some family) :
      Joins table spec properties (some family)
  | given {name canonical : String} {otherSpec : InstructionSpec} (hnone : spec.family = none)
      (hfamily : properties.family = some canonical)
      (hother : table.instructions.get? name = some otherSpec)
      (hcanonical : otherSpec.canonicalName = canonical) :
      Joins table spec properties (some name)
  | absent (hnone : spec.family = none) (hfamily : properties.family = none) :
      Joins table spec properties none

/-- A definition says what the table and the properties say of its instruction. -/
structure Describes (table : Table) (source : PropertySource) (name : String)
    (spec : InstructionSpec) (d : Definition) : Prop where
  name : d.name = name
  canonicalName : d.canonicalName = spec.canonicalName
  opcode : d.opcode = spec.opcode
  operand : spec.operand = d.operand.map fun operand => ⟨operand.field, some operand.type⟩
  placeholder : d.placeholder = spec.placeholder
  doc : d.doc = spec.doc
  stackOverride : Overrides spec.stackEffect d.stackOverride
  properties : ∃ properties, d.Records source properties ∧ d.flags = properties.flags ∧
    d.layout = properties.stack ∧ table.Joins spec properties d.family

theorem eq_map_of_operandOf {operand : Option OperandReference}
    (h : operandOf name spec = .ok operand) :
    spec.operand = operand.map fun operand => ⟨operand.field, some operand.type⟩ := by
  unfold operandOf at h
  split at h
  · next hnone =>
      obtain rfl := Except.ok.inj h
      exact hnone
  · next hsome =>
      obtain rfl := Except.ok.inj h
      exact hsome
  · cases h
  · cases h

theorem overrides_of_stackOverrideOf {stackOverride : Option StackOverride}
    (h : stackOverrideOf name spec = .ok stackOverride) :
    Overrides spec.stackEffect stackOverride := by
  unfold stackOverrideOf at h
  split at h
  · next hnone =>
      obtain rfl := Except.ok.inj h
      rw [hnone]
      exact .absent
  · next effect heffect =>
      simp only [bind_eq_ok_iff, Expr.parseFor_eq_ok_iff] at h
      obtain ⟨popped, hpopped, pushed, hpushed, hend⟩ := h
      obtain rfl := Except.ok.inj hend
      rw [heffect]
      exact .given hpopped hpushed

theorem joins_of_familyOf {properties : Properties} {family : Option String}
    (hindexes : Indexes table.instructions.entries known)
    (h : familyOf known name spec properties = .ok family) :
    table.Joins spec properties family := by
  unfold familyOf at h
  split at h
  · next hstated =>
      obtain rfl := Except.ok.inj h
      exact .stated hstated
  · next canonical hnone hfamily =>
      split at h
      · next other hother =>
          obtain rfl := Except.ok.inj h
          obtain ⟨otherSpec, hmem, hcanonical⟩ := (hindexes _ _).1 hother
          exact .given hnone hfamily (NameMap.get?_eq_some_iff.2 hmem) hcanonical
      · cases h
  · next hnone hfamily =>
      obtain rfl := Except.ok.inj h
      exact .absent hnone hfamily

theorem describes_of_define {d : Definition}
    (hindexes : Indexes table.instructions.entries known)
    (h : define table.config source known (name, spec) = .ok d) :
    table.Describes source name spec d := by
  unfold define at h
  simp only [bind_eq_ok_iff] at h
  obtain ⟨_, -, operand, hoperand, properties, hproperties, stackOverride, hstackOverride, family,
    hfamily, hend⟩ := h
  obtain rfl := Except.ok.inj hend
  exact {
    name := rfl
    canonicalName := rfl
    opcode := rfl
    operand := eq_map_of_operandOf hoperand
    placeholder := rfl
    doc := rfl
    stackOverride := overrides_of_stackOverrideOf hstackOverride
    properties := ⟨properties, records_of_propertiesOf hproperties rfl rfl, rfl, rfl,
      joins_of_familyOf hindexes hfamily⟩ }

theorem load_ok_iff_consistent :
    (∃ definitions, table.load source = .ok definitions) ↔ table.Consistent source := by
  rw [consistent_iff]
  constructor
  · rintro ⟨definitions, hload⟩ place error
    exact checks_load.passes definitions hload place (Set.mem_univ _) error
  · intro hclear
    cases hload : table.load source with
    | ok definitions => exact ⟨definitions, rfl⟩
    | error error =>
        obtain ⟨place, hfirst⟩ := (checks_load.reports_iff error).1 hload
        exact absurd hfirst.violated (hclear place error)

/-- Loading succeeds on the consistent tables, and otherwise the error is what is wrong at the first
place. The sets hold the instructions of the table, each of them in the set of its kind. -/
theorem load_reports_first (table : Table) (source : PropertySource) :
    ((∃ definitions, table.load source = .ok definitions) ↔ table.Consistent source) ∧
      (∀ error, table.load source = .error error ↔ table.FirstViolation source error) ∧
      ∀ definitions, table.load source = .ok definitions → ∀ kind,
        (∀ d ∈ (definitions.set kind).definitions, ∃ spec,
          table.instructions.get? d.name = some spec ∧ kind.Covers table.config spec.opcode ∧
            table.Describes source d.name spec d) ∧
        ∀ name spec, table.instructions.get? name = some spec →
          kind.Covers table.config spec.opcode →
          ∃ d ∈ (definitions.set kind).definitions, d.name = name := by
  refine ⟨load_ok_iff_consistent, checks_load.reports_iff, fun definitions hload kind => ?_⟩
  obtain ⟨known, all, hknown, hall, -, hmem⟩ := exists_all_of_load hload
  have hindexes := indexes_of_byCanonicalName hknown
  have hdefined := mapM_eq_ok_iff.1 hall
  constructor
  · intro d hd
    obtain ⟨hd, hcovers⟩ := (hmem kind d).1 hd
    obtain ⟨⟨name, spec⟩, hentry, hdefine⟩ := exists_of_forall₂ hdefined hd
    have hdescribes := describes_of_define hindexes hdefine
    rw [hdescribes.opcode] at hcovers
    rw [hdescribes.name]
    exact ⟨spec, NameMap.get?_eq_some_iff.2 hentry, hcovers, hdescribes⟩
  · intro name spec hspec hcovers
    obtain ⟨d, hd, hdefine⟩ :=
      exists_of_forall₂ hdefined.flip (NameMap.get?_eq_some_iff.1 hspec)
    have hdescribes := describes_of_define hindexes hdefine
    rw [← hdescribes.opcode] at hcovers
    exact ⟨d, (hmem kind d).2 ⟨hd, hcovers⟩, hdescribes.name⟩

/-- A specialized instruction whose family only the properties give, by the canonical name. -/
def additions : Table where
  instructions := .ofList [
    ("Add", { opcode := 3, canonicalName := "BINARY_ADD" }),
    ("AddInt", { opcode := 1, canonicalName := "BINARY_ADD_INT" }),
    ("Cache", { opcode := 0, canonicalName := "CACHE", placeholder := true })]

def additionProperties : PropertyRecords := .ofList [
  ("BINARY_ADD", {}), ("BINARY_ADD_INT", { family := some "BINARY_ADD" })]

/-- Two instructions of one opcode, one of them with a field that has no type, and one whose opcode
no set covers. The last is found first: the names decide. -/
def clashes : Table where
  config := { realLimit := 4, pseudoLimit := 8 }
  instructions := .ofList [
    ("Add", { opcode := 1, canonicalName := "BINARY_ADD" }),
    ("AddInt", { opcode := 9, canonicalName := "BINARY_ADD_INT" }),
    ("Call", { opcode := 1, canonicalName := "CALL", operand := some { field := some "count" } })]

theorem load_reports_first_additions :
    (∃ definitions, additions.load additionProperties.source = .ok definitions ∧
        ∃ d ∈ (definitions.set .real).definitions, d.name = "AddInt" ∧ d.family = some "Add") ∧
      additions.Consistent additionProperties.source ∧
      clashes.FirstViolation additionProperties.source
        (.invalidDefinition "AddInt" (.opcodeOutOfRange 9 4 8)) := by
  obtain ⟨hconsistent, -, hloaded⟩ := load_reports_first additions additionProperties.source
  have hrun : (do
      let definitions ← additions.load additionProperties.source
      return definitions.real.definitions.map Definition.name : Except BuildError _) =
      .ok ["Cache", "AddInt", "Add"] := by cbv
  have hclash : clashes.load additionProperties.source =
      .error (.invalidDefinition "AddInt" (.opcodeOutOfRange 9 4 8)) := by cbv
  rw [bind_eq_ok_iff] at hrun
  obtain ⟨definitions, hload, -⟩ := hrun
  have hconsistent := hconsistent.1 ⟨definitions, hload⟩
  refine ⟨⟨definitions, hload, ?_⟩, hconsistent,
    ((load_reports_first clashes additionProperties.source).2.1 _).1 hclash⟩
  obtain ⟨hdescribed, hdefined⟩ := hloaded definitions hload .real
  have hget : additions.instructions.get? "AddInt" =
      some { opcode := 1, canonicalName := "BINARY_ADD_INT" } := by decide
  obtain ⟨d, hd, hname⟩ := hdefined "AddInt" _ hget (show (1 : UInt32) < 256 by decide)
  obtain ⟨spec, hspec, -, hdescribes⟩ := hdescribed d hd
  rw [hname, hget] at hspec
  obtain rfl := Option.some.inj hspec
  have hgiven : additionProperties.source d.canonicalName =
      some { family := some "BINARY_ADD" } := by
    rw [hdescribes.canonicalName]
    decide
  obtain ⟨properties, hrecords, -, -, hjoins⟩ := hdescribes.properties
  obtain rfl : properties = { family := some "BINARY_ADD" } := by
    cases hrecords with
    | known hknown => exact Option.some.inj (hknown.symm.trans hgiven)
    | unknown hunknown => cases hunknown.symm.trans hgiven
  refine ⟨d, hd, hname, ?_⟩
  generalize d.family = family at hjoins
  cases hjoins with
  | stated hstated => cases hstated
  | absent _ hnone => cases hnone
  | given _ hfamily hother hsame =>
      have hadd : additions.instructions.get? "Add" =
          some { opcode := 3, canonicalName := "BINARY_ADD" } := by decide
      rw [hconsistent.canonicalNames _ _ _ _ hother hadd
        (hsame.trans (Option.some.inj hfamily).symm)]

end Table

end Bytecode

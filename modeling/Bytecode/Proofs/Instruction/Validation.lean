import Bytecode.Proofs.Instruction.Violations

/-!
# Checking the instructions of a table

The canonical names, and then the parts of each instruction, are checked in the order of the
instruction names. Each check is matched with the place that it looks at: it fails exactly where
something is wrong there, and with that error.
-/

namespace Bytecode

/-- In a list that is sorted by names, the elements in front of one are those with smaller names. -/
theorem mem_front_iff {α : Type} {name : α → String} {xs front back : List α} {x y : α}
    (h : xs.Pairwise fun a b => name a < name b) (hsplit : xs = front ++ x :: back) :
    y ∈ front ↔ y ∈ xs ∧ name y < name x := by
  rw [hsplit, List.pairwise_append, List.pairwise_cons] at h
  obtain ⟨-, ⟨hback, -⟩, hfront⟩ := h
  rw [hsplit, List.mem_append, List.mem_cons]
  constructor
  · intro hmem
    exact ⟨.inl hmem, hfront y hmem x List.mem_cons_self⟩
  · rintro ⟨hmem | rfl | hmem, hlt⟩
    · exact hmem
    · exact absurd hlt (String.lt_irrefl _)
    · exact absurd hlt (String.lt_asymm (hback y hmem))

namespace Table

variable {table : Table} {source : PropertySource} {error : BuildError} {name : String}
  {spec : InstructionSpec} {known : NameMap String} {front back : List (String × InstructionSpec)}

/-! ### Canonical names -/

theorem take_eq_error_iff (h : Indexes front known)
    (hsplit : table.instructions.entries = front ++ (name, spec) :: back) :
    byCanonicalName.take known (name, spec) = .error error ↔
      table.Violation source (.canonicalName name) error := by
  have hspec : table.instructions.get? name = some spec :=
    NameMap.get?_eq_some_iff.2 (by simp [hsplit])
  rw [byCanonicalName.take]
  constructor
  · intro herror
    split at herror
    · next other hother =>
        obtain rfl := Except.error.inj herror
        obtain ⟨otherSpec, hmem, hsame⟩ := (h _ _).1 hother
        obtain ⟨hentry, hlt⟩ := (mem_front_iff table.instructions.sorted hsplit).1 hmem
        exact .canonicalName hspec (NameMap.get?_eq_some_iff.2 hentry) hlt hsame
    · cases herror
  · rintro (_ | ⟨hspec', hother, hlt, hsame⟩)
    obtain rfl := Option.some.inj (hspec.symm.trans hspec')
    have hmem := (mem_front_iff table.instructions.sorted hsplit).2
      ⟨NameMap.get?_eq_some_iff.1 hother, hlt⟩
    rw [(h _ _).2 ⟨_, hmem, hsame⟩]

theorem checks_byCanonicalName :
    Checks (table.Violation source) {p | p.stage = 1} table.byCanonicalName := by
  have hfold : Checks (table.Violation source)
      (⋃ entry ∈ table.instructions.entries, {Place.canonicalName entry.1})
      table.byCanonicalName := by
    refine Checks.foldlM Indexes (by simp [Indexes, NameMap.get?_empty])
      (fun front entry back known hsplit h => ⟨?_, fun _ => h.take⟩) ?_
    · exact .singleton fun _ => take_eq_error_iff h hsplit
    · refine table.instructions.sorted.imp fun hlt p hp q hq => ?_
      rw [Set.mem_singleton_iff.1 hp, Set.mem_singleton_iff.1 hq]
      exact Place.le_of_name_lt rfl hlt
  refine hfold.congr fun p e hviolated => ?_
  simp only [Set.mem_iUnion, Set.mem_singleton_iff, Set.mem_ofPred_eq, Place.stage_eq_one_iff]
  constructor
  · rintro ⟨entry, -, rfl⟩
    exact ⟨_, rfl⟩
  · rintro ⟨name, rfl⟩
    cases hviolated with
    | canonicalName hspec => exact ⟨_, NameMap.get?_eq_some_iff.1 hspec, rfl⟩

/-! ### One instruction -/

def partsFrom (name : String) (position : Nat) : Set Place :=
  {p | ∃ part : Part, position ≤ part.position ∧ p = .instruction name part}

theorem checks_parts_done {α : Type} (name : String) (a : α) :
    Checks (table.Violation source) (partsFrom name 6) (.ok a) := by
  refine (Checks.ok a).congr fun p e _ => iff_of_false (Set.notMem_empty p) ?_
  rintro ⟨part, hlast, -⟩
  exact absurd hlast (Nat.not_le.2 (Nat.lt_succ_of_le part.position_le_five))

/-- A check of one part comes before those that are left. -/
theorem checks_bind_part {α β : Type} (part : Part) {x : Except BuildError α}
    {f : α → Except BuildError β}
    (hx : ∀ error, x = .error error ↔ table.Violation source (.instruction name part) error)
    (hf : ∀ a, x = .ok a →
      Checks (table.Violation source) (partsFrom name (part.position + 1)) (f a)) :
    Checks (table.Violation source) (partsFrom name part.position) (x >>= f) := by
  have hordered : ∀ p ∈ ({.instruction name part} : Set Place),
      ∀ q ∈ partsFrom name (part.position + 1), p ≤ q := by
    rintro p rfl q ⟨later, hlater, rfl⟩
    exact Place.instruction_le_instruction (Nat.le_of_succ_le hlater)
  refine ((Checks.singleton hx).bind hf hordered).congr fun p e _ => ?_
  constructor
  · rintro (rfl | ⟨later, hlater, rfl⟩)
    · exact ⟨part, le_rfl, rfl⟩
    · exact ⟨later, Nat.le_of_succ_le hlater, rfl⟩
  · rintro ⟨later, hlater, rfl⟩
    rcases hlater.eq_or_lt with heq | hlt
    · rw [Part.position_injective heq]
      exact .inl rfl
    · exact .inr ⟨later, hlt, rfl⟩

section Instruction

variable (hspec : table.instructions.get? name = some spec)
include hspec

theorem checkOpcode_eq_error_iff (hlimits : table.config.realLimit ≤ table.config.pseudoLimit) :
    checkOpcode table.config name spec.opcode = .error error ↔
      table.Violation source (.instruction name .opcode) error := by
  rw [checkOpcode]
  constructor
  · intro herror
    split at herror
    · cases herror
    · next hrange =>
        obtain rfl := Except.error.inj herror
        exact .opcode hspec (UInt32.not_lt.1 (not_or.1 hrange).2)
  · rintro (_ | _ | ⟨hspec', hrange⟩)
    obtain rfl := Option.some.inj (hspec.symm.trans hspec')
    have hreal := UInt32.not_lt.2 (UInt32.le_trans hlimits hrange)
    rw [if_neg (not_or.2 ⟨hreal, UInt32.not_lt.2 hrange⟩)]

theorem operandOf_eq_error_iff :
    operandOf name spec = .error error ↔
      table.Violation source (.instruction name .operand) error := by
  constructor
  · intro herror
    unfold operandOf at herror
    split at herror
    · cases herror
    · cases herror
    · next field hoperand =>
        obtain rfl := Except.error.inj herror
        exact .fieldWithoutType hspec hoperand
    · next hoperand =>
        obtain rfl := Except.error.inj herror
        exact .emptyOperand hspec hoperand
  · intro hviolated
    cases hviolated with
    | fieldWithoutType hspec' hoperand =>
        obtain rfl := Option.some.inj (hspec.symm.trans hspec')
        rw [operandOf, hoperand]
    | emptyOperand hspec' hoperand =>
        obtain rfl := Option.some.inj (hspec.symm.trans hspec')
        rw [operandOf, hoperand]

theorem propertiesOf_eq_error_iff :
    propertiesOf source name spec = .error error ↔
      table.Violation source (.instruction name .properties) error := by
  constructor
  · intro herror
    unfold propertiesOf at herror
    split at herror
    · cases herror
    · next hunknown =>
        split at herror
        · cases herror
        · next hreal =>
            obtain rfl := Except.error.inj herror
            exact .unknown hspec hunknown (Bool.eq_false_of_not_eq_true hreal)
  · intro hviolated
    cases hviolated with
    | unknown hspec' hunknown hreal =>
        obtain rfl := Option.some.inj (hspec.symm.trans hspec')
        rw [propertiesOf, hunknown, hreal]
        rfl

theorem expression_eq_error_iff {effect : StackEffectSpec} (side : Side)
    (heffect : spec.stackEffect = some effect) :
    Expr.parseFor name (side.text effect) = .error error ↔
      table.Violation source (.instruction name (.expression side)) error := by
  constructor
  · exact .expression hspec heffect
  · intro hviolated
    cases hviolated with
    | expression hspec' heffect' herror =>
        obtain rfl := Option.some.inj (hspec.symm.trans hspec')
        obtain rfl := Option.some.inj (heffect.symm.trans heffect')
        exact herror

/-- Without a stack effect of its own an instruction has no expressions to read. -/
theorem checks_stackOverrideOf_bind {α : Type} {f : Option StackOverride → Except BuildError α}
    (hf : ∀ stackOverride,
      Checks (table.Violation source) (partsFrom name 5) (f stackOverride)) :
    Checks (table.Violation source) (partsFrom name 3) (stackOverrideOf name spec >>= f) := by
  cases heffect : spec.stackEffect with
  | none =>
      rw [stackOverrideOf, heffect]
      have hnone : ∀ part error, table.Violation source (.instruction name part) error →
          3 ≤ part.position → 5 ≤ part.position := by
        intro part error hviolated hlater
        cases hviolated with
        | expression hspec' heffect' =>
            obtain rfl := Option.some.inj (hspec.symm.trans hspec')
            simp [heffect] at heffect'
        | family => decide
        | _ => exact absurd hlater (by decide)
      refine (hf none).congr fun p e hviolated => ⟨?_, ?_⟩
      · rintro ⟨part, hlater, rfl⟩
        exact ⟨part, Nat.le_trans (by decide) hlater, rfl⟩
      · rintro ⟨part, hlater, rfl⟩
        exact ⟨part, hnone part e hviolated hlater, rfl⟩
  | some effect =>
      rw [stackOverrideOf, heffect]
      simp only [bind_assoc]
      refine checks_bind_part (.expression .popped)
        (fun _ => expression_eq_error_iff hspec .popped heffect) fun popped _ => ?_
      exact checks_bind_part (.expression .pushed)
        (fun _ => expression_eq_error_iff hspec .pushed heffect) fun pushed _ => hf _

omit hspec in
/-- A family is given by the source, not by the properties of a placeholder. -/
theorem source_of_propertiesOf {properties : Properties} {canonical : String}
    (h : propertiesOf source name spec = .ok properties)
    (hfamily : properties.family = some canonical) :
    source spec.canonicalName = some properties := by
  unfold propertiesOf at h
  split at h
  · next found hfound =>
      obtain rfl := Except.ok.inj h
      exact hfound
  · split at h
    · obtain rfl := Except.ok.inj h
      cases hfamily
    · cases h

theorem familyOf_eq_error_iff {properties : Properties}
    (hindexes : Indexes table.instructions.entries known)
    (hproperties : propertiesOf source name spec = .ok properties) :
    familyOf known name spec properties = .error error ↔
      table.Violation source (.instruction name .family) error := by
  constructor
  · intro herror
    unfold familyOf at herror
    split at herror
    · cases herror
    · next canonical hnone hfamily =>
        split at herror
        · cases herror
        · next hunknown =>
            obtain rfl := Except.error.inj herror
            refine .family hspec hnone (source_of_propertiesOf hproperties hfamily) hfamily
              fun other otherSpec hother hcanonical => ?_
            have hknown := (hindexes canonical other).2
              ⟨otherSpec, NameMap.get?_eq_some_iff.1 hother, hcanonical⟩
            rw [hunknown] at hknown
            cases hknown
    · cases herror
  · intro hviolated
    cases hviolated with
    | @family _ canonical _ found hspec' hnone hfound hfamily habsent =>
        obtain rfl := Option.some.inj (hspec.symm.trans hspec')
        rw [propertiesOf, hfound] at hproperties
        obtain rfl := Except.ok.inj hproperties
        have hunknown : known.get? canonical = none := by
          refine Option.eq_none_iff_forall_not_mem.2 fun other hother => ?_
          obtain ⟨otherSpec, hmem, hcanonical⟩ := (hindexes _ _).1 hother
          exact habsent other otherSpec (NameMap.get?_eq_some_iff.2 hmem) hcanonical
        rw [familyOf, hnone, hfamily]
        dsimp only
        rw [hunknown]

theorem checks_define (hlimits : table.config.realLimit ≤ table.config.pseudoLimit)
    (hindexes : Indexes table.instructions.entries known) :
    Checks (table.Violation source) (partsFrom name 0)
      (define table.config source known (name, spec)) := by
  refine checks_bind_part .opcode
    (fun _ => checkOpcode_eq_error_iff hspec hlimits) fun _ _ => ?_
  refine checks_bind_part .operand
    (fun _ => operandOf_eq_error_iff hspec) fun operand _ => ?_
  refine checks_bind_part .properties
    (fun _ => propertiesOf_eq_error_iff hspec) fun properties hproperties => ?_
  refine checks_stackOverrideOf_bind hspec fun stackOverride => ?_
  refine checks_bind_part .family
    (fun _ => familyOf_eq_error_iff hspec hindexes hproperties) fun family _ => ?_
  exact checks_parts_done _ _

end Instruction

theorem checks_instructions (hlimits : table.config.realLimit ≤ table.config.pseudoLimit)
    (hindexes : Indexes table.instructions.entries known) :
    Checks (table.Violation source) {p | p.stage = 2}
      (table.instructions.entries.mapM (define table.config source known)) := by
  have hmap : Checks (table.Violation source)
      (⋃ entry ∈ table.instructions.entries, partsFrom entry.1 0)
      (table.instructions.entries.mapM (define table.config source known)) := by
    refine .mapM (fun entry hentry => ?_) (table.instructions.sorted.imp fun hlt p hp q hq => ?_)
    · exact checks_define (NameMap.get?_eq_some_iff.2 hentry) hlimits hindexes
    · obtain ⟨_, -, rfl⟩ := hp
      obtain ⟨_, -, rfl⟩ := hq
      exact Place.le_of_name_lt rfl hlt
  refine hmap.congr fun p e hviolated => ?_
  simp only [Set.mem_iUnion, Set.mem_ofPred_eq, Place.stage_eq_two_iff]
  constructor
  · rintro ⟨entry, -, part, -, rfl⟩
    exact ⟨_, part, rfl⟩
  · rintro ⟨name, part, rfl⟩
    obtain ⟨spec, hspec⟩ : ∃ spec, table.instructions.get? name = some spec := by
      cases hviolated <;> exact ⟨_, ‹_›⟩
    exact ⟨(name, spec), NameMap.get?_eq_some_iff.1 hspec, part, Nat.zero_le _, rfl⟩

end Table

end Bytecode

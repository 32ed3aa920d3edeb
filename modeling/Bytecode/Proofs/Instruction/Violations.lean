import Bytecode.Proofs.Checking
import Bytecode.Proofs.Expr.Completeness
import Bytecode.Proofs.Instruction.Alignment

/-!
# What can be wrong with a table

The places at which a table can be refused, in the order in which they are checked, and what is
wrong at each of them. A table is consistent where nothing is wrong.
-/

namespace Bytecode.Table

/-! ### Places -/

inductive Side where
  | popped
  | pushed
  deriving DecidableEq, Repr

def Side.text (effect : StackEffectSpec) : Side → String
  | popped => effect.popped
  | pushed => effect.pushed

inductive Part where
  | opcode
  | operand
  | properties
  | expression (side : Side)
  | family
  deriving DecidableEq, Repr

def Part.position : Part → Nat
  | opcode => 0
  | operand => 1
  | properties => 2
  | expression .popped => 3
  | expression .pushed => 4
  | family => 5

theorem Part.position_injective : Function.Injective position := by
  rintro (_ | _ | _ | (_ | _) | _) (_ | _ | _ | (_ | _) | _) h <;> first | rfl | cases h

theorem Part.position_le_five (part : Part) : part.position ≤ 5 := by
  rcases part with _ | _ | _ | (_ | _) | _ <;> decide

/-- Where a table is checked; the names are those of its instructions. -/
inductive Place where
  | limits
  | canonicalName (name : String)
  | instruction (name : String) (part : Part)
  | sharedOpcode (kind : SetKind) (name : String)
  deriving DecidableEq, Repr

namespace Place

def opcodeStage : SetKind → Nat
  | .real => 3
  | .pseudo => 4

/-- The limits come first, then the canonical names, the instructions, and the opcodes of a set. -/
def stage : Place → Nat
  | limits => 0
  | canonicalName _ => 1
  | instruction _ _ => 2
  | sharedOpcode kind _ => opcodeStage kind

def name : Place → String
  | limits => ""
  | canonicalName name => name
  | instruction name _ => name
  | sharedOpcode _ name => name

def position : Place → Nat
  | instruction _ part => part.position
  | _ => 0

theorem stage_eq_zero_iff {p : Place} : p.stage = 0 ↔ p = limits := by
  rcases p with _ | _ | _ | ⟨_ | _, _⟩ <;> simp [stage, opcodeStage]

theorem stage_eq_one_iff {p : Place} : p.stage = 1 ↔ ∃ name, p = canonicalName name := by
  rcases p with _ | _ | _ | ⟨_ | _, _⟩ <;> simp [stage, opcodeStage]

theorem stage_eq_two_iff {p : Place} : p.stage = 2 ↔ ∃ name part, p = instruction name part := by
  rcases p with _ | _ | _ | ⟨_ | _, _⟩ <;> simp [stage, opcodeStage]

theorem stage_eq_opcodeStage_iff {p : Place} {kind : SetKind} :
    p.stage = opcodeStage kind ↔ ∃ name, p = sharedOpcode kind name := by
  rcases p with _ | _ | _ | ⟨_ | _, _⟩ <;> cases kind <;> simp [stage, opcodeStage]

theorem stage_le_four (p : Place) : p.stage ≤ 4 := by
  rcases p with _ | _ | _ | ⟨_ | _, _⟩ <;> simp [stage, opcodeStage]

def key (p : Place) : Nat ×ₗ String ×ₗ Nat := toLex (p.stage, toLex (p.name, p.position))

theorem key_injective : Function.Injective key := by
  rintro (_ | _ | ⟨_, a⟩ | ⟨_ | _, _⟩) (_ | _ | ⟨_, b⟩ | ⟨_ | _, _⟩) h <;>
    simp_all [key, stage, opcodeStage, name, position, Part.position_injective.eq_iff]

instance : LinearOrder Place := LinearOrder.lift' key key_injective

theorem le_iff {p q : Place} :
    p ≤ q ↔ p.stage < q.stage ∨
      p.stage = q.stage ∧ (p.name < q.name ∨ p.name = q.name ∧ p.position ≤ q.position) := by
  have hkey : p ≤ q ↔ p.key ≤ q.key := Iff.rfl
  rw [hkey, key, key, Prod.Lex.toLex_le_toLex, Prod.Lex.toLex_le_toLex]

theorem le_of_stage_lt {p q : Place} (h : p.stage < q.stage) : p ≤ q := le_iff.2 (.inl h)

theorem le_of_name_lt {p q : Place} (hstage : p.stage = q.stage) (h : p.name < q.name) : p ≤ q :=
  le_iff.2 (.inr ⟨hstage, .inl h⟩)

theorem instruction_le_instruction {name : String} {a b : Part} (h : a.position ≤ b.position) :
    instruction name a ≤ instruction name b :=
  le_iff.2 (.inr ⟨rfl, .inr ⟨rfl, h⟩⟩)

end Place

/-! ### Violations -/

inductive Violation (table : Table) (source : PropertySource) : Place → BuildError → Prop where
  | limits (h : table.config.pseudoLimit < table.config.realLimit) :
      Violation table source .limits
        (.invalidDefinition "config"
          (.limitsReversed table.config.realLimit table.config.pseudoLimit))
  /-- A smaller name has the canonical name already. -/
  | canonicalName {name other : String} {spec otherSpec : InstructionSpec}
      (hspec : table.instructions.get? name = some spec)
      (hother : table.instructions.get? other = some otherSpec) (hlt : other < name)
      (hsame : otherSpec.canonicalName = spec.canonicalName) :
      Violation table source (.canonicalName name)
        (.invalidDefinition name (.canonicalNameTaken spec.canonicalName other))
  | opcode {name : String} {spec : InstructionSpec}
      (hspec : table.instructions.get? name = some spec)
      (h : table.config.pseudoLimit ≤ spec.opcode) :
      Violation table source (.instruction name .opcode)
        (.invalidDefinition name
          (.opcodeOutOfRange spec.opcode table.config.realLimit table.config.pseudoLimit))
  | fieldWithoutType {name field : String} {spec : InstructionSpec}
      (hspec : table.instructions.get? name = some spec)
      (hoperand : spec.operand = some ⟨some field, none⟩) :
      Violation table source (.instruction name .operand)
        (.invalidDefinition name (.fieldWithoutType field))
  | emptyOperand {name : String} {spec : InstructionSpec}
      (hspec : table.instructions.get? name = some spec)
      (hoperand : spec.operand = some ⟨none, none⟩) :
      Violation table source (.instruction name .operand) (.invalidDefinition name .emptyOperand)
  | unknown {name : String} {spec : InstructionSpec}
      (hspec : table.instructions.get? name = some spec)
      (hunknown : source spec.canonicalName = none) (hreal : spec.placeholder = false) :
      Violation table source (.instruction name .properties)
        (.unknownCanonicalName name spec.canonicalName)
  | expression {name : String} {spec : InstructionSpec} {effect : StackEffectSpec} {side : Side}
      {error : BuildError} (hspec : table.instructions.get? name = some spec)
      (heffect : spec.stackEffect = some effect)
      (herror : Expr.parseFor name (side.text effect) = .error error) :
      Violation table source (.instruction name (.expression side)) error
  /-- Only a family of the properties is looked for, and only where the table gives none. -/
  | family {name canonical : String} {spec : InstructionSpec} {properties : Properties}
      (hspec : table.instructions.get? name = some spec) (hnone : spec.family = none)
      (hknown : source spec.canonicalName = some properties)
      (hfamily : properties.family = some canonical)
      (habsent : ∀ other otherSpec, table.instructions.get? other = some otherSpec →
        otherSpec.canonicalName ≠ canonical) :
      Violation table source (.instruction name .family)
        (.invalidDefinition name (.familyNotInTable canonical))
  /-- A smaller name of the same set has the opcode already. -/
  | sharedOpcode {kind : SetKind} {name other : String} {spec otherSpec : InstructionSpec}
      (hspec : table.instructions.get? name = some spec)
      (hother : table.instructions.get? other = some otherSpec) (hlt : other < name)
      (hcovers : kind.Covers table.config spec.opcode) (hsame : otherSpec.opcode = spec.opcode) :
      Violation table source (.sharedOpcode kind name)
        (.duplicateOpcode kind spec.opcode other name)

def FirstViolation (table : Table) (source : PropertySource) (error : BuildError) : Prop :=
  ∃ place, IsFirstViolation (table.Violation source) Set.univ place error

/-- A table of which every instruction can be defined and is told apart from the others. -/
structure Consistent (table : Table) (source : PropertySource) : Prop where
  limits : table.config.realLimit ≤ table.config.pseudoLimit
  canonicalNames : ∀ name spec other otherSpec, table.instructions.get? name = some spec →
    table.instructions.get? other = some otherSpec →
    spec.canonicalName = otherSpec.canonicalName → name = other
  opcodes : ∀ name spec, table.instructions.get? name = some spec →
    spec.opcode < table.config.pseudoLimit
  operands : ∀ name spec operand, table.instructions.get? name = some spec →
    spec.operand = some operand → operand.type ≠ none
  properties : ∀ name spec, table.instructions.get? name = some spec →
    source spec.canonicalName ≠ none ∨ spec.placeholder = true
  effects : ∀ name spec effect, table.instructions.get? name = some spec →
    spec.stackEffect = some effect → ∀ side : Side, ∃ e, Expr.parse (side.text effect) = .ok e
  families : ∀ name spec properties canonical, table.instructions.get? name = some spec →
    spec.family = none → source spec.canonicalName = some properties →
    properties.family = some canonical →
    ∃ other otherSpec, table.instructions.get? other = some otherSpec ∧
      otherSpec.canonicalName = canonical
  distinct : ∀ kind name spec other otherSpec, table.instructions.get? name = some spec →
    table.instructions.get? other = some otherSpec → SetKind.Covers table.config kind spec.opcode →
    SetKind.Covers table.config kind otherSpec.opcode → spec.opcode = otherSpec.opcode →
    name = other

variable {table : Table} {source : PropertySource} {place : Place} {error other : BuildError}

theorem exists_parse_of_parseFor {name text : String}
    (h : ∀ error, Expr.parseFor name text ≠ .error error) : ∃ e, Expr.parse text = .ok e := by
  cases hread : Expr.parseFor name text with
  | ok e => exact ⟨e, Expr.parseFor_eq_ok_iff.1 hread⟩
  | error error => exact absurd hread (h error)

theorem parseFor_ne_error {name text : String} {e : Expr} (h : Expr.parse text = .ok e) :
    Expr.parseFor name text ≠ .error error := by
  rw [Expr.parseFor_eq_ok_iff.2 h]
  nofun

theorem Consistent.not_violation (h : table.Consistent source) :
    ¬ table.Violation source place error := by
  intro hviolation
  cases hviolation with
  | limits hreversed => exact absurd h.limits (UInt32.not_le.2 hreversed)
  | canonicalName hspec hother hlt hsame =>
      exact absurd (h.canonicalNames _ _ _ _ hother hspec hsame) (ne_of_lt hlt)
  | opcode hspec hrange => exact absurd (h.opcodes _ _ hspec) (UInt32.not_lt.2 hrange)
  | fieldWithoutType hspec hoperand => exact h.operands _ _ _ hspec hoperand rfl
  | emptyOperand hspec hoperand => exact h.operands _ _ _ hspec hoperand rfl
  | unknown hspec hunknown hreal =>
      rcases h.properties _ _ hspec with hknown | hplaceholder
      · exact hknown hunknown
      · simp [hreal] at hplaceholder
  | @expression _ _ _ side _ hspec heffect herror =>
      obtain ⟨e, he⟩ := h.effects _ _ _ hspec heffect side
      exact parseFor_ne_error he herror
  | family hspec hnone hknown hfamily habsent =>
      obtain ⟨_, _, hother, hcanonical⟩ := h.families _ _ _ _ hspec hnone hknown hfamily
      exact habsent _ _ hother hcanonical
  | sharedOpcode hspec hother hlt hcovers hsame =>
      have hcoversOther := hcovers
      rw [← hsame] at hcoversOther
      exact absurd (h.distinct _ _ _ _ _ hother hspec hcoversOther hcovers hsame) (ne_of_lt hlt)

theorem consistent_of_not_violation (h : ∀ place error, ¬ table.Violation source place error) :
    table.Consistent source where
  limits := UInt32.not_lt.1 fun hreversed => h _ _ (.limits hreversed)
  canonicalNames := by
    intro name spec other otherSpec hspec hother hsame
    rcases lt_trichotomy name other with hlt | heq | hgt
    · exact absurd (.canonicalName hother hspec hlt hsame) (h _ _)
    · exact heq
    · exact absurd (.canonicalName hspec hother hgt hsame.symm) (h _ _)
  opcodes name spec hspec := UInt32.not_le.1 fun hrange => h _ _ (.opcode hspec hrange)
  operands := by
    rintro name spec ⟨field, type⟩ hspec hoperand rfl
    cases field with
    | some field => exact h _ _ (.fieldWithoutType hspec hoperand)
    | none => exact h _ _ (.emptyOperand hspec hoperand)
  properties := by
    intro name spec hspec
    by_cases hunknown : source spec.canonicalName = none
    · refine .inr (Bool.of_not_eq_false fun hreal => ?_)
      exact h _ _ (.unknown hspec hunknown hreal)
    · exact .inl hunknown
  effects := by
    intro name spec effect hspec heffect side
    exact exists_parse_of_parseFor fun error herror => h _ _ (.expression hspec heffect herror)
  families := by
    intro name spec properties canonical hspec hnone hknown hfamily
    refine Classical.byContradiction fun habsent => ?_
    push Not at habsent
    exact h _ _ (.family hspec hnone hknown hfamily habsent)
  distinct := by
    intro kind name spec other otherSpec hspec hother hcovers hcoversOther hsame
    rcases lt_trichotomy name other with hlt | heq | hgt
    · exact absurd (.sharedOpcode hother hspec hlt hcoversOther hsame) (h _ _)
    · exact heq
    · exact absurd (.sharedOpcode hspec hother hgt hcovers hsame.symm) (h _ _)

theorem consistent_iff :
    table.Consistent source ↔ ∀ place error, ¬ table.Violation source place error :=
  ⟨fun h _ _ => h.not_violation, consistent_of_not_violation⟩

end Bytecode.Table

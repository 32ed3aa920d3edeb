import Bytecode.Instruction.Definition
import Bytecode.Table

/-!
# Loading

The instructions of a table, joined with their properties, validated and parted into the real and
the pseudo set. The first violation is reported: the limits, then the canonical names in the order
of the instruction names, then each instruction in that order, then the opcodes of the real and of
the pseudo set.
-/

namespace Bytecode

structure Definitions where
  real : InstructionSet
  pseudo : InstructionSet

def Definitions.set (definitions : Definitions) : SetKind → InstructionSet
  | .real => definitions.real
  | .pseudo => definitions.pseudo

namespace Table

/-- The instruction names by canonical name, which has to be another one for each. -/
def byCanonicalName (table : Table) : Except BuildError (NameMap String) :=
  table.instructions.entries.foldlM take .empty
where
  take (known : NameMap String) (entry : String × InstructionSpec) :
      Except BuildError (NameMap String) :=
    let (name, spec) := entry
    match known.get? spec.canonicalName with
    | some other =>
        .error (.invalidDefinition name (.canonicalNameTaken spec.canonicalName other))
    | none => .ok (known.insert spec.canonicalName name)

def checkOpcode (config : Config) (name : String) (opcode : UInt32) : Except BuildError Unit :=
  if opcode < config.realLimit ∨ opcode < config.pseudoLimit then .ok ()
  else
    .error (.invalidDefinition name
      (.opcodeOutOfRange opcode config.realLimit config.pseudoLimit))

/-- The operand of an instruction; where there is one, it has a type. -/
def operandOf (name : String) (spec : InstructionSpec) :
    Except BuildError (Option OperandReference) :=
  match spec.operand with
  | none => .ok none
  | some ⟨field, some type⟩ => .ok (some ⟨field, type⟩)
  | some ⟨some field, none⟩ => .error (.invalidDefinition name (.fieldWithoutType field))
  | some ⟨none, none⟩ => .error (.invalidDefinition name .emptyOperand)

/-- The properties of an instruction; those of a placeholder may be unknown. -/
def propertiesOf (source : PropertySource) (name : String) (spec : InstructionSpec) :
    Except BuildError Properties :=
  match source spec.canonicalName with
  | some properties => .ok properties
  | none =>
      if spec.placeholder then .ok {}
      else .error (.unknownCanonicalName name spec.canonicalName)

def stackOverrideOf (name : String) (spec : InstructionSpec) :
    Except BuildError (Option StackOverride) :=
  match spec.stackEffect with
  | none => .ok none
  | some effect => do
      let popped ← Expr.parseFor name effect.popped
      let pushed ← Expr.parseFor name effect.pushed
      return some ⟨popped, pushed⟩

/-- The family of an instruction: the one in the table, or the instruction whose canonical name
the properties give. -/
def familyOf (known : NameMap String) (name : String) (spec : InstructionSpec)
    (properties : Properties) : Except BuildError (Option String) :=
  match spec.family, properties.family with
  | some family, _ => .ok (some family)
  | none, some canonical =>
      match known.get? canonical with
      | some family => .ok (some family)
      | none => .error (.invalidDefinition name (.familyNotInTable canonical))
  | none, none => .ok none

def define (config : Config) (source : PropertySource) (known : NameMap String)
    (entry : String × InstructionSpec) : Except BuildError Definition := do
  let (name, spec) := entry
  checkOpcode config name spec.opcode
  let operand ← operandOf name spec
  let properties ← propertiesOf source name spec
  let stackOverride ← stackOverrideOf name spec
  let family ← familyOf known name spec properties
  return {
    name, operand, stackOverride, family
    canonicalName := spec.canonicalName
    opcode := spec.opcode
    flags := properties.flags
    placeholder := spec.placeholder
    layout := properties.stack
    doc := spec.doc }

def load (table : Table) (source : PropertySource) : Except BuildError Definitions := do
  let config := table.config
  if config.realLimit > config.pseudoLimit then
    throw (.invalidDefinition "config" (.limitsReversed config.realLimit config.pseudoLimit))
  let known ← table.byCanonicalName
  let definitions ← table.instructions.entries.mapM (define config source known)
  let (real, pseudo) := definitions.partition fun d => d.opcode < config.realLimit
  let real ← InstructionSet.ofDefinitions .real (.forLimit config.realLimit) real
  let pseudo ← InstructionSet.ofDefinitions .pseudo (.forLimit config.pseudoLimit) pseudo
  return { real, pseudo }

end Table

end Bytecode

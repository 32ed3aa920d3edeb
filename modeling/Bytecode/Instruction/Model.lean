import Bytecode.Instruction.Definition
import Bytecode.Config
import Bytecode.Operand.Registry

/-!
# The instruction model

The cases of the opcode and instruction enumerations of one set: its definitions, with operands
resolved in the registry of operand types. The model answers what the emitted code answers about
raw values: opcodes, names, predicates and operands.
-/

namespace Bytecode

structure Operand where
  /-- The name of the field that carries it. -/
  field : String
  /-- The name of a type in the registry. -/
  type : String
  deriving DecidableEq, Repr

structure Case where
  name : String
  canonicalName : String
  opcode : UInt32
  /-- The properties; an operand is there exactly when the case carries one. -/
  flags : Flags
  operand : Option Operand
  placeholder : Bool
  doc : Option String
  deriving DecidableEq, Repr

/-- The attributes for which the emitted enumerations have a function. -/
inductive Predicate where
  | arg
  | const
  | name
  | jump
  | free
  | localVariable
  | effectFree
  deriving DecidableEq, Repr

namespace Predicate

def all : List Predicate := [arg, const, name, jump, free, localVariable, effectFree]

theorem mem_all (p : Predicate) : p ∈ all := by cases p <;> decide

def holds : Predicate → Flags → Bool
  | arg, flags => flags.hasOparg
  | const, flags => flags.readsConstants
  | name, flags => flags.readsNames
  | jump, flags => flags.jumps
  | free, flags => flags.hasFree
  | localVariable, flags => flags.readsLocals
  | effectFree, flags => flags.isPure

def functionName : Predicate → String
  | arg => "has_arg"
  | const => "has_const"
  | name => "has_name"
  | jump => "has_jump"
  | free => "has_free"
  | localVariable => "has_local"
  | effectFree => "is_pure"

end Predicate

namespace Case

def has (c : Case) (p : Predicate) : Bool := p.holds c.flags

def operandType? (c : Case) : Option String := c.operand.map Operand.type

end Case

structure Instruction where
  opcode : UInt32
  arg : Option OpargValue
  deriving DecidableEq, Repr

/-- The cases of a set in the order of their opcodes. -/
structure InstructionModel where
  kind : SetKind
  width : Width
  cases : List Case
  deriving DecidableEq, Repr

namespace DefaultOpargs

/-- The type of an operand that the table does not mention. -/
def typeFor (defaults : DefaultOpargs) (flags : Flags) : String :=
  if flags.jumps then defaults.jump
  else if flags.readsConstants then defaults.constant
  else if flags.readsNames then defaults.name
  else defaults.raw

end DefaultOpargs

namespace Definition

/-- The operand of a definition by itself, before its family is looked at. -/
def ownOperand? (d : Definition) (defaults : DefaultOpargs) : Option Operand :=
  match d.operand with
  | some operand => some ⟨operand.field.getD "arg", operand.type⟩
  | none => if d.flags.hasOparg then some ⟨"arg", defaults.typeFor d.flags⟩ else none

/-- The case of a definition with its own operand, whose type has to be in the registry. -/
def ownCase (d : Definition) (registry : Registry) (defaults : DefaultOpargs) :
    Except BuildError Case :=
  let operand := d.ownOperand? defaults
  match operand.bind fun operand =>
      if registry.contains operand.type then none else some operand.type with
  | some missing => .error (.missingOpargType missing d.name)
  | none =>
      .ok {
        name := d.name
        canonicalName := d.canonicalName
        opcode := d.opcode
        flags := { d.flags with hasOparg := operand.isSome }
        operand
        placeholder := d.placeholder
        doc := d.doc }

end Definition

namespace InstructionModel

/-- The case of a name; of several with one name, the one with the highest opcode. -/
def get? (model : InstructionModel) (name : String) : Option Case :=
  model.cases.reverse.find? fun c => c.name = name

def ofOpcode? (model : InstructionModel) (opcode : UInt32) : Option Case :=
  model.cases.find? fun c => c.opcode = opcode

def ofOpcode (model : InstructionModel) (opcode : UInt32) : Except DecodeError Case :=
  match model.ofOpcode? opcode with
  | some c => .ok c
  | none => .error (.invalidBytecode model.kind opcode)

def size (model : InstructionModel) : Nat := model.cases.length

def isEmpty (model : InstructionModel) : Bool := model.cases.isEmpty

def casesWith (model : InstructionModel) (p : Predicate) : List Case :=
  model.cases.filter fun c => c.has p

/-- The case of a specialized definition without an operand in the table: where it and the root of
its family both carry an operand, it takes the operand of the root. -/
def inherit (set : InstructionSet) (own : InstructionModel) (d : Definition) (c : Case) : Case :=
  if d.operand.isSome ∨ c.operand.isNone then c
  else
    match (set.familyRoot? d).bind fun root =>
        (own.get? root.name).bind Case.operand with
    | some operand => { c with operand := some operand }
    | none => c

/-- The model of a set. The definitions' own operands are resolved before any is inherited. -/
def build (set : InstructionSet) (registry : Registry) (defaults : DefaultOpargs) :
    Except BuildError InstructionModel := do
  let cases ← set.definitions.mapM fun d => d.ownCase registry defaults
  let own : InstructionModel := { kind := set.kind, width := set.width, cases }
  return { own with cases := set.definitions.zipWith (inherit set own) cases }

/-- The instruction of an opcode and a raw operand, which is ignored by a case without one. -/
def decode (model : InstructionModel) (registry : Registry) (opcode raw : UInt32) :
    Except DecodeError Instruction := do
  match (← model.ofOpcode opcode).operandType? with
  | some type => return ⟨opcode, some (← registry.decode type raw)⟩
  | none => return ⟨opcode, none⟩

def encode (model : InstructionModel) (registry : Registry) (instruction : Instruction) :
    Except DecodeError (UInt32 × UInt32) := do
  let c ← model.ofOpcode instruction.opcode
  match c.operandType?, instruction.arg with
  | some type, some value => return (c.opcode, ← registry.encode type value)
  | none, none => return (c.opcode, 0)
  | some type, none => throw (.invalidOperand type 0)
  | none, some value => throw (.invalidOperand c.name value.encoding)

end InstructionModel

end Bytecode

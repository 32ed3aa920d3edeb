import Bytecode.Instruction.Deopt
import Bytecode.Instruction.Load
import Bytecode.StackEffect.OfDefinition

/-!
# Building a model

Everything that is known about a table and its properties: the operand types and, for the real and
the pseudo set, the definitions, their cases, deopt targets and stack effects.
-/

namespace Bytecode

structure SetModel where
  opcodeEnum : String
  instructionEnum : String
  definitions : InstructionSet
  model : InstructionModel
  deopt : DeoptMap
  stack : StackEffects

namespace SetModel

def kind (set : SetModel) : SetKind := set.model.kind

def build (definitions : InstructionSet) (registry : Registry) (config : Config) :
    Except BuildError SetModel := do
  let model ← InstructionModel.build definitions registry config.defaultOpargs
  let deopt ← DeoptMap.resolve definitions model
  let stack ← StackEffects.compute definitions model
  let (opcodeEnum, instructionEnum) := match definitions.kind with
    | .real => (config.realOpcodeEnum, config.realInstructionEnum)
    | .pseudo => (config.pseudoOpcodeEnum, config.pseudoInstructionEnum)
  return { opcodeEnum, instructionEnum, definitions, model, deopt, stack }

end SetModel

structure GeneratedModel where
  config : Config
  registry : Registry
  real : SetModel
  pseudo : SetModel

namespace GeneratedModel

def set (model : GeneratedModel) : SetKind → SetModel
  | .real => model.real
  | .pseudo => model.pseudo

def sets (model : GeneratedModel) : List SetModel := [model.real, model.pseudo]

def decode (model : GeneratedModel) (kind : SetKind) (opcode raw : UInt32) :
    Except DecodeError Instruction :=
  (model.set kind).model.decode model.registry opcode raw

def encode (model : GeneratedModel) (kind : SetKind) (instruction : Instruction) :
    Except DecodeError (UInt32 × UInt32) :=
  (model.set kind).model.encode model.registry instruction

end GeneratedModel

/-- The model of a table whose instructions have the properties that `source` gives. -/
def Table.build (table : Table) (source : PropertySource) : Except BuildError GeneratedModel := do
  let definitions ← table.load source
  let registry ← Registry.build table.opargs
  let real ← SetModel.build definitions.real registry table.config
  let pseudo ← SetModel.build definitions.pseudo registry table.config
  return { config := table.config, registry, real, pseudo }

end Bytecode

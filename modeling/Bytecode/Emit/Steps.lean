import Bytecode.Emit.Operands
import Bytecode.Emit.Sets

/-!
# Generation steps

The emitted text is a list of steps in a fixed order. Those for the whole model run once; then the
others run for the real set and for the pseudo set, of which an empty one is skipped.
-/

namespace Bytecode.Emit

inductive Step where
  | once (name : String) (lines : GeneratedModel → Lines)
  | perSet (name : String) (lines : GeneratedModel → SetModel → Lines)

namespace Step

def name : Step → String
  | once name _ => name
  | perSet name _ => name

def runsOnce : Step → Bool
  | once .. => true
  | perSet .. => false

def modelLines (model : GeneratedModel) : Step → Lines
  | once _ lines => lines model
  | perSet .. => []

def setLines (model : GeneratedModel) (set : SetModel) : Step → Lines
  | once .. => []
  | perSet _ lines => lines model set

/-- The texts of a step: one for the model, or one for each set, even for an empty one. -/
def pieces (model : GeneratedModel) : Step → List (Option SetKind × String)
  | once _ lines => [(none, (lines model).render)]
  | perSet _ lines => model.sets.map fun set => (some set.kind, (lines model set).render)

end Step

def steps : List Step := [
  .once "header" header,
  .once "oparg aliases" aliases,
  .once "oparg named types" namedTypes,
  .once "derived conversions" derivedConversions,
  .perSet "opcode enum" opcodeEnum,
  .perSet "instruction enum" instructionEnum,
  .perSet "opcode conversions" conversions,
  .perSet "display names" displayNames,
  .perSet "predicates" predicates,
  .perSet "stack effect" stackEffect,
  .perSet "deopt" deopt,
  .perSet "size assertions" sizeAssertions]

end Emit

/-- The Rust source of a model. -/
def GeneratedModel.render (model : GeneratedModel) : String :=
  let once := Emit.steps.flatMap fun step => step.modelLines model
  let perSet := (model.sets.filter fun set => !set.model.isEmpty).flatMap fun set =>
    Emit.steps.flatMap fun step => step.setLines model set
  Emit.Lines.render (once ++ perSet)

end Bytecode

import Bytecode.Instruction.Model
import Bytecode.StackEffect.Basic

/-!
# The stack effect of a definition

The override of the table counts before anything else; otherwise the variables of the stack layout
are added up. A definition with neither has no effect, and unless it is a placeholder it is worth a
warning.
-/

namespace Bytecode

namespace StackVariable

/-- The slots of a variable of some size: nothing when it is absent. A condition that is zero or
one counts a single slot by itself. -/
def slots (size : Expr) : Presence → Expr
  | .always => size
  | .never => .zero
  | .when condition =>
      if size = .one ∧ condition.isBoolean then condition else .ifElse condition size .zero

def contribution (owner : String) (x : StackVariable) : Except BuildError Expr := do
  let size ← Expr.parseFor owner x.size
  let presence ← Presence.parse owner x.condition
  return slots size.simplify presence

end StackVariable

namespace StackLayout

def total (owner : String) (xs : List StackVariable) : Except BuildError Expr := do
  return Expr.sum (← xs.mapM (StackVariable.contribution owner))

end StackLayout

namespace Definition

/-- The effect as it is declared, whether or not there is an operand. -/
def declaredEffect (d : Definition) : Except BuildError StackEffect :=
  match d.stackOverride, d.layout with
  | some effect, _ => .ok ⟨effect.popped.simplify, effect.pushed.simplify, .override⟩
  | none, some layout => do
      let popped ← StackLayout.total d.name layout.inputs
      let pushed ← StackLayout.total d.name layout.outputs
      return ⟨popped, pushed, .described⟩
  | none, none => .ok ⟨.zero, .zero, .described⟩

def effectWarning? (d : Definition) : Option String :=
  if d.stackOverride.isNone ∧ d.layout.isNone ∧ ¬ d.placeholder then
    some s!"`{d.name}` has neither a stack override nor a stack description; assuming no effect"
  else none

/-- The effect of a definition that has an operand or not. Without an operand, the effect of a
placeholder is taken at zero, and any other effect must not depend on the operand. -/
def stackEffect (d : Definition) (hasOperand : Bool) : Except BuildError StackEffect := do
  let effect ← d.declaredEffect
  if d.placeholder then
    if hasOperand then return { effect with source := .placeholder }
    else
      return ⟨effect.popped.substituteOparg 0, effect.pushed.substituteOparg 0, .placeholder⟩
  else if effect.usesOparg ∧ ¬ hasOperand then
    throw (.invalidDefinition d.name
      (.effectNeedsOperand effect.popped.display effect.pushed.display))
  else return effect

end Definition

structure StackEffects where
  entries : List (String × StackEffect) := []
  deriving DecidableEq, Repr

namespace StackEffects

/-- The effect of a name; of several with one name, the last. -/
def get? (effects : StackEffects) (name : String) : Option StackEffect :=
  (effects.entries.reverse.find? fun entry => entry.1 = name).map Prod.snd

def incomplete (effects : StackEffects) : List String :=
  (effects.entries.filter fun entry => entry.2.isIncomplete).map Prod.fst

def entryOf (model : InstructionModel) (d : Definition) :
    Except BuildError (String × StackEffect) := do
  let hasOperand := ((model.get? d.name).bind Case.operand).isSome
  return (d.name, ← d.stackEffect hasOperand)

def compute (set : InstructionSet) (model : InstructionModel) :
    Except BuildError StackEffects := do
  return ⟨← set.definitions.mapM (entryOf model)⟩

/-- The warnings on the way to the result or to the first error. -/
def warnings (set : InstructionSet) (model : InstructionModel) : List String :=
  (set.definitions.takeWhile fun d => (entryOf model d).isOk).filterMap Definition.effectWarning?

end StackEffects

end Bytecode

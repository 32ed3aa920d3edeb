import Bytecode.Error
import Bytecode.Expr.Printer
import Bytecode.Expr.Simplify

/-!
# Stack effects

How many slots an instruction takes from the stack and how many it leaves there, as expressions
over its operand.
-/

namespace Bytecode

inductive EffectSource where
  /-- From the table. -/
  | override
  /-- From the stack layout in the properties. -/
  | described
  /-- From a definition that stands for no real instruction. -/
  | placeholder
  deriving DecidableEq, Repr

structure StackCounts where
  popped : UInt32
  pushed : UInt32
  deriving DecidableEq, Repr

def StackCounts.net (counts : StackCounts) : Int := counts.pushed.toNat - counts.popped.toNat

structure StackEffect where
  popped : Expr
  pushed : Expr
  source : EffectSource
  deriving DecidableEq, Repr

namespace StackEffect

def isIncomplete (effect : StackEffect) : Bool := effect.source = .placeholder

def usesOparg (effect : StackEffect) : Bool := effect.popped.usesOparg || effect.pushed.usesOparg

/-- The value of a count, which has to be defined and to fit 32 bits. -/
def count (arg : UInt32) (e : Expr) : Except DecodeError UInt32 :=
  match e.eval arg with
  | some value =>
      if 0 ≤ value.toInt ∧ value.toInt < UInt32.size then .ok (UInt32.ofNat value.toInt.toNat)
      else .error (.invalidStackEffect e.display arg)
  | none => .error (.invalidStackEffect e.display arg)

/-- Both counts for an operand; a missing count of popped slots is reported first. -/
def evaluate (effect : StackEffect) (arg : UInt32) : Except DecodeError StackCounts := do
  return ⟨← count arg effect.popped, ← count arg effect.pushed⟩

end StackEffect

inductive Presence where
  | always
  | never
  /-- Where the value of the condition is not zero. -/
  | when (condition : Expr)
  deriving DecidableEq, Repr

namespace Presence

def ofCondition (condition : Expr) : Presence :=
  match condition.asConst? with
  | some value => if value = 0 then never else always
  | none => when condition

/-- The presence that a text spells for the instruction `owner`; without a text, always. -/
def parse (owner : String) (condition : Option String) : Except BuildError Presence :=
  match condition with
  | none => .ok always
  | some text => do return ofCondition (← Expr.parseFor owner text).simplify

end Presence

end Bytecode

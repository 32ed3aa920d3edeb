import Bytecode.Expr.Operator

/-!
# Stack expressions

An integer expression over one variable, the decoded operand `oparg` of an instruction.
Evaluation is partial and lazy: only the selected branch of a conditional is evaluated.
-/

namespace Bytecode

inductive Expr where
  | const (value : Int64)
  | oparg
  | binary (op : Operator) (lhs rhs : Expr)
  | ifElse (condition thenBranch elseBranch : Expr)
  deriving DecidableEq, Repr

namespace Expr

def zero : Expr := const 0

def one : Expr := const 1

def asConst? : Expr → Option Int64
  | const value => some value
  | _ => none

def usesOparg : Expr → Bool
  | const _ => false
  | oparg => true
  | binary _ lhs rhs => lhs.usesOparg || rhs.usesOparg
  | ifElse condition thenBranch elseBranch =>
      condition.usesOparg || thenBranch.usesOparg || elseBranch.usesOparg

/-- The operand as an expression value; every 32-bit operand is one. -/
def operandValue (arg : UInt32) : Int64 := Int64.ofNat arg.toNat

/-- The value for the operand `arg`; a condition holds when it is not zero. -/
def eval (arg : UInt32) : Expr → Option Int64
  | const value => some value
  | oparg => some (operandValue arg)
  | binary op lhs rhs => do op.apply (← lhs.eval arg) (← rhs.eval arg)
  | ifElse condition thenBranch elseBranch => do
      if (← condition.eval arg) ≠ 0 then thenBranch.eval arg else elseBranch.eval arg

/-- A comparison, or a mask of the lowest bit: such an expression is zero or one. -/
def isBoolean : Expr → Bool
  | binary .bitAnd _ rhs => rhs.asConst? = some 1
  | binary op _ _ => op.isComparison
  | _ => false

end Expr

end Bytecode

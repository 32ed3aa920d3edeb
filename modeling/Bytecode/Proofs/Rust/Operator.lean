import Bytecode.Expr.Operator

/-!
# Operators of the emitted language

How Rust writes the sixteen operators of stack expressions, and how they group. It is the language
that decides here; the printer of stack expressions writes and ranks them alike.
-/

namespace Bytecode.Rust

def symbol : Operator → String
  | .mul => "*"
  | .div => "/"
  | .rem => "%"
  | .add => "+"
  | .sub => "-"
  | .shiftLeft => "<<"
  | .shiftRight => ">>"
  | .bitAnd => "&"
  | .bitXor => "^"
  | .bitOr => "|"
  | .eq => "=="
  | .ne => "!="
  | .lt => "<"
  | .le => "<="
  | .gt => ">"
  | .ge => ">="

def compares : Operator → Bool
  | .eq | .ne | .lt | .le | .gt | .ge => true
  | .mul | .div | .rem | .add | .sub | .shiftLeft | .shiftRight | .bitAnd | .bitXor | .bitOr => false

def power : Operator → Nat
  | .mul | .div | .rem => 7
  | .add | .sub => 6
  | .shiftLeft | .shiftRight => 5
  | .bitAnd => 4
  | .bitXor => 3
  | .bitOr => 2
  | .eq | .ne | .lt | .le | .gt | .ge => 1

/-- How tightly a left operand holds together at least: a comparison is not an operand of another
one, and all other operators group to the left. -/
def leftPower (op : Operator) : Nat := if compares op then power op + 1 else power op

theorem one_le_power (op : Operator) : 1 ≤ power op := by
  cases op <;> decide

theorem power_le_leftPower (op : Operator) : power op ≤ leftPower op := by
  cases op <;> decide

/-! ### The printer -/

theorem symbol_eq (op : Operator) : op.symbol = symbol op := by
  cases op <;> rfl

theorem precedence_eq (op : Operator) : op.precedence = power op + 3 := by
  cases op <;> rfl

theorem isComparison_eq (op : Operator) : op.isComparison = compares op := by
  cases op <;> rfl

end Bytecode.Rust

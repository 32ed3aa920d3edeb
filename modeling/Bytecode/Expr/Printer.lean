import Bytecode.Expr.Basic

/-!
# Text of an expression

Two spellings share one layout with the fewest parentheses: the plain one is the syntax that the
reader accepts, the other is a Rust expression of type `i64` over a variable `oparg : i64`. There
a comparison is converted by `i64::from`, unless it is itself a condition, and any other
condition is compared with zero.
-/

namespace Bytecode.Expr

inductive Spelling where
  | plain
  | rust
  deriving DecidableEq, Repr

def isComparison : Expr → Bool
  | binary op _ _ => op.isComparison
  | _ => false

def isConverted (spelling : Spelling) (e : Expr) : Bool :=
  spelling = .rust && e.isComparison

/-- How tightly the text of an expression holds together: `255` for an atom, `0` for a negative
literal and for a conditional. -/
def tightness (spelling : Spelling) (e : Expr) : Nat :=
  match e with
  | const value => if value < 0 then 0 else 255
  | oparg => 255
  | binary op _ _ => if e.isConverted spelling then 255 else op.precedence
  | ifElse .. => 0

/-- Whether an operand needs parentheses. On equal strength the right operand does, and so does
either operand of a comparison. -/
def needsParens (spelling : Spelling) (parent : Operator) (right : Bool) (child : Expr) : Bool :=
  let inner := child.tightness spelling
  inner < parent.precedence ||
    (inner = parent.precedence && (right || parent.isComparison))

/-- The text of `e`, given the text `body` that does not convert a comparison at its root. -/
def converted (spelling : Spelling) (e : Expr) (body : String) : String :=
  if e.isConverted spelling then "i64::from(" ++ body ++ ")" else body

def operandText (spelling : Spelling) (parent : Operator) (right : Bool) (child : Expr)
    (body : String) : String :=
  let text := child.converted spelling body
  if needsParens spelling parent right child then "(" ++ text ++ ")" else text

def conditionText (spelling : Spelling) (condition : Expr) (body : String) : String :=
  match spelling with
  | .plain => body
  | .rust =>
      if condition.isComparison then body
      else operandText .rust .ne false condition body ++ " != 0"

/-- The text of an expression whose root, if it is a comparison, is not converted. -/
def bareText (spelling : Spelling) : Expr → String
  | const value => toString value.toInt
  | oparg => "oparg"
  | binary op lhs rhs =>
      operandText spelling op false lhs (lhs.bareText spelling) ++ " " ++ op.symbol ++ " " ++
        operandText spelling op true rhs (rhs.bareText spelling)
  | ifElse condition thenBranch elseBranch =>
      "if " ++ conditionText spelling condition (condition.bareText spelling) ++ " \x7b " ++
        thenBranch.converted spelling (thenBranch.bareText spelling) ++ " \x7d else \x7b " ++
        elseBranch.converted spelling (elseBranch.bareText spelling) ++ " \x7d"

def render (spelling : Spelling) (e : Expr) : String :=
  e.converted spelling (e.bareText spelling)

def display (e : Expr) : String := e.render .plain

def rust (e : Expr) : String := e.render .rust

end Bytecode.Expr

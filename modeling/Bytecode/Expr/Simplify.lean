import Bytecode.Expr.Basic

/-!
# Simplification

Constant folding and the removal of neutral elements, from the leaves up. An operation with an
undefined result is kept as it is written.
-/

namespace Bytecode.Expr

/-- An operation whose operands are not both literals: sums lose a zero, products and quotients
a one, and a product with zero is zero. -/
def dropNeutral (op : Operator) (lhs rhs : Expr) : Expr :=
  match op with
  | .add => if lhs = zero then rhs else if rhs = zero then lhs else binary .add lhs rhs
  | .sub => if rhs = zero then lhs else binary .sub lhs rhs
  | .mul =>
      if lhs = one then rhs
      else if rhs = one then lhs
      else if lhs = zero ∨ rhs = zero then zero
      else binary .mul lhs rhs
  | .div => if rhs = one then lhs else binary .div lhs rhs
  | op => binary op lhs rhs

def fold? (op : Operator) (lhs rhs : Expr) : Option Int64 := do
  op.apply (← lhs.asConst?) (← rhs.asConst?)

def reduce (op : Operator) (lhs rhs : Expr) : Expr :=
  match fold? op lhs rhs with
  | some value => const value
  | none => dropNeutral op lhs rhs

/-- A conditional on simplified parts: a literal condition selects its branch, and equal branches
need no condition. -/
def select (condition thenBranch elseBranch : Expr) : Expr :=
  match condition.asConst? with
  | some value => if value = 0 then elseBranch else thenBranch
  | none =>
      if thenBranch = elseBranch then thenBranch
      else ifElse condition thenBranch elseBranch

def simplify : Expr → Expr
  | const value => const value
  | oparg => oparg
  | binary op lhs rhs => reduce op lhs.simplify rhs.simplify
  | ifElse condition thenBranch elseBranch =>
      select condition.simplify thenBranch.simplify elseBranch.simplify

def replaceOparg (value : Int64) : Expr → Expr
  | const c => const c
  | oparg => const value
  | binary op lhs rhs => binary op (lhs.replaceOparg value) (rhs.replaceOparg value)
  | ifElse condition thenBranch elseBranch =>
      ifElse (condition.replaceOparg value) (thenBranch.replaceOparg value)
        (elseBranch.replaceOparg value)

def substituteOparg (value : Int64) (e : Expr) : Expr := (e.replaceOparg value).simplify

theorem usesOparg_replaceOparg (value : Int64) (e : Expr) :
    (e.replaceOparg value).usesOparg = false := by
  induction e <;> simp_all [replaceOparg, usesOparg]

/-- The simplified sum of `terms`, added from the left to zero. -/
def sum (terms : List Expr) : Expr := (terms.foldl (binary .add) zero).simplify

end Bytecode.Expr

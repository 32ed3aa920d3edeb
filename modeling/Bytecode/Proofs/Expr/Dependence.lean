import Bytecode.Proofs.Expr.Simplification

/-!
# Dependence on the operand

An expression in which the operand does not occur has one value for all operands. Simplifying adds
no occurrence, and substituting a literal removes every one, also where the expression is undefined.
-/

namespace Bytecode.Expr

variable {op : Operator} {lhs rhs condition thenBranch elseBranch e : Expr} {arg : UInt32}
  {v : Int64}

theorem eval_eq_of_not_usesOparg (h : e.usesOparg = false) (arg other : UInt32) :
    e.eval arg = e.eval other := by
  induction e with
  | const c => rfl
  | oparg => cases h
  | binary op lhs rhs ihl ihr =>
      simp only [usesOparg, Bool.or_eq_false_iff] at h
      simp only [eval, ihl h.1, ihr h.2]
  | ifElse condition thenBranch elseBranch ihc iht ihe =>
      simp only [usesOparg, Bool.or_eq_false_iff] at h
      simp only [eval, ihc h.1.1, iht h.1.2, ihe h.2]

/-! ### Simplification -/

/-- Dropping neutral operands leaves one operand, zero or the operation as it is. -/
theorem dropNeutral_cases (op : Operator) (lhs rhs : Expr) :
    dropNeutral op lhs rhs = lhs ∨ dropNeutral op lhs rhs = rhs ∨
      dropNeutral op lhs rhs = zero ∨ dropNeutral op lhs rhs = binary op lhs rhs := by
  unfold dropNeutral
  split
  · -- a sum
    split
    · simp
    · split <;> simp
  · -- a difference
    split <;> simp
  · -- a product
    split
    · simp
    · split
      · simp
      · split <;> simp
  · -- a quotient
    split <;> simp
  · simp

theorem usesOparg_dropNeutral (hl : lhs.usesOparg = false) (hr : rhs.usesOparg = false) :
    (dropNeutral op lhs rhs).usesOparg = false := by
  rcases dropNeutral_cases op lhs rhs with h | h | h | h
  · rw [h, hl]
  · rw [h, hr]
  · rw [h]
    rfl
  · rw [h, usesOparg, hl, hr]
    rfl

theorem usesOparg_reduce (hl : lhs.usesOparg = false) (hr : rhs.usesOparg = false) :
    (reduce op lhs rhs).usesOparg = false := by
  unfold reduce
  split
  · rfl
  · exact usesOparg_dropNeutral hl hr

theorem usesOparg_select (hc : condition.usesOparg = false) (ht : thenBranch.usesOparg = false)
    (he : elseBranch.usesOparg = false) :
    (select condition thenBranch elseBranch).usesOparg = false := by
  unfold select
  split
  · split
    · exact he
    · exact ht
  · split
    · exact ht
    · simp [usesOparg, hc, ht, he]

theorem usesOparg_simplify (h : e.usesOparg = false) : e.simplify.usesOparg = false := by
  induction e with
  | const c => rfl
  | oparg => cases h
  | binary op lhs rhs ihl ihr =>
      simp only [usesOparg, Bool.or_eq_false_iff] at h
      exact usesOparg_reduce (ihl h.1) (ihr h.2)
  | ifElse condition thenBranch elseBranch ihc iht ihe =>
      simp only [usesOparg, Bool.or_eq_false_iff] at h
      exact usesOparg_select (ihc h.1.1) (iht h.1.2) (ihe h.2)

/-! ### Substitution -/

theorem usesOparg_substituteOparg (value : Int64) (e : Expr) :
    (e.substituteOparg value).usesOparg = false :=
  usesOparg_simplify (usesOparg_replaceOparg value e)

theorem eval_replaceOparg (e : Expr) (arg other : UInt32) :
    (e.replaceOparg (operandValue other)).eval arg = e.eval other := by
  induction e with
  | const c => rfl
  | oparg => rfl
  | binary op lhs rhs ihl ihr => simp only [replaceOparg, eval, ihl, ihr]
  | ifElse condition thenBranch elseBranch ihc iht ihe =>
      simp only [replaceOparg, eval, ihc, iht, ihe]

/-- A substituted operand counts in place of every other one. -/
theorem eval_substituteOparg_of_eq_some {other : UInt32} (h : e.eval other = some v) :
    (e.substituteOparg (operandValue other)).eval arg = some v :=
  eval_simplify_of_eq_some ((eval_replaceOparg e arg other).trans h)

end Bytecode.Expr

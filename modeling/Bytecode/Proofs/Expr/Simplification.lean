import Bytecode.Expr.Simplify

/-!
# Simplification keeps values

Each rewriting step of the simplifier is compared with the node that it replaces. A step never
changes a value that is defined. The only steps that can turn an undefined node into a defined one
drop an operand unevaluated: a product with zero, and a conditional with equal branches.
-/

namespace Bytecode

namespace Operator

/-! ### Neutral and absorbing operands -/

theorem apply_add (v w : Int64) : add.apply v w = narrow (v.toInt + w.toInt) := rfl

theorem apply_sub (v w : Int64) : sub.apply v w = narrow (v.toInt - w.toInt) := rfl

theorem apply_mul (v w : Int64) : mul.apply v w = narrow (v.toInt * w.toInt) := rfl

theorem apply_div {v w : Int64} (h : w ≠ 0) : div.apply v w = narrow (v.toInt.tdiv w.toInt) :=
  if_neg h

theorem apply_add_zero (v : Int64) : add.apply v 0 = some v := by
  rw [apply_add, show v.toInt + (0 : Int64).toInt = v.toInt by simp]
  exact narrow_toInt v

theorem apply_zero_add (v : Int64) : add.apply 0 v = some v := by
  rw [apply_add, show (0 : Int64).toInt + v.toInt = v.toInt by simp]
  exact narrow_toInt v

theorem apply_sub_zero (v : Int64) : sub.apply v 0 = some v := by
  rw [apply_sub, show v.toInt - (0 : Int64).toInt = v.toInt by simp]
  exact narrow_toInt v

theorem apply_mul_one (v : Int64) : mul.apply v 1 = some v := by
  rw [apply_mul, show v.toInt * (1 : Int64).toInt = v.toInt by simp]
  exact narrow_toInt v

theorem apply_one_mul (v : Int64) : mul.apply 1 v = some v := by
  rw [apply_mul, show (1 : Int64).toInt * v.toInt = v.toInt by simp]
  exact narrow_toInt v

theorem apply_div_one (v : Int64) : div.apply v 1 = some v := by
  rw [apply_div (by decide), show v.toInt.tdiv (1 : Int64).toInt = v.toInt by simp]
  exact narrow_toInt v

theorem apply_mul_zero (v : Int64) : mul.apply v 0 = some 0 := by
  rw [apply_mul, show v.toInt * (0 : Int64).toInt = (0 : Int64).toInt by simp]
  exact narrow_toInt 0

theorem apply_zero_mul (v : Int64) : mul.apply 0 v = some 0 := by
  rw [apply_mul, show (0 : Int64).toInt * v.toInt = (0 : Int64).toInt by simp]
  exact narrow_toInt 0

end Operator

namespace Expr

variable {op : Operator} {lhs rhs condition thenBranch elseBranch e : Expr} {arg : UInt32}
  {v : Int64}

theorem asConst?_eq_some_iff : e.asConst? = some v ↔ e = const v := by
  cases e <;> simp [asConst?]

/-! ### Values of nodes -/

theorem eval_const : (const v).eval arg = some v := rfl

theorem eval_binary :
    (binary op lhs rhs).eval arg = (lhs.eval arg).bind fun a => (rhs.eval arg).bind (op.apply a) :=
  rfl

theorem eval_ifElse :
    (ifElse condition thenBranch elseBranch).eval arg =
      (condition.eval arg).bind fun c => if c ≠ 0 then thenBranch.eval arg else elseBranch.eval arg :=
  rfl

theorem eval_binary_eq_some_iff :
    (binary op lhs rhs).eval arg = some v ↔
      ∃ a b, lhs.eval arg = some a ∧ rhs.eval arg = some b ∧ op.apply a b = some v := by
  simp [eval_binary, Option.bind_eq_some_iff]

theorem eval_ifElse_eq_some_iff :
    (ifElse condition thenBranch elseBranch).eval arg = some v ↔
      ∃ c, condition.eval arg = some c ∧
        (if c ≠ 0 then thenBranch else elseBranch).eval arg = some v := by
  rw [eval_ifElse, Option.bind_eq_some_iff]
  refine exists_congr fun c => and_congr_right fun _ => ?_
  split <;> rfl

theorem eval_binary_congr {lhs' rhs' : Expr} (hl : lhs'.eval arg = lhs.eval arg)
    (hr : rhs'.eval arg = rhs.eval arg) :
    (binary op lhs' rhs').eval arg = (binary op lhs rhs).eval arg := by
  rw [eval_binary, eval_binary, hl, hr]

theorem eval_ifElse_congr {condition' thenBranch' elseBranch' : Expr}
    (hc : condition'.eval arg = condition.eval arg)
    (ht : thenBranch'.eval arg = thenBranch.eval arg)
    (he : elseBranch'.eval arg = elseBranch.eval arg) :
    (ifElse condition' thenBranch' elseBranch').eval arg =
      (ifElse condition thenBranch elseBranch).eval arg := by
  rw [eval_ifElse, eval_ifElse, hc, ht, he]

/-- An operation with a literal on the left that gives back its right operand. -/
theorem eval_binary_const_left {c : Int64} (h : ∀ v, op.apply c v = some v) :
    (binary op (const c) rhs).eval arg = rhs.eval arg := by
  cases hr : rhs.eval arg with
  | none => simp [eval_binary, hr]
  | some v => simp [eval_binary, eval_const, hr, h]

/-- An operation with a literal on the right that gives back its left operand. -/
theorem eval_binary_const_right {c : Int64} (h : ∀ v, op.apply v c = some v) :
    (binary op lhs (const c)).eval arg = lhs.eval arg := by
  cases hl : lhs.eval arg with
  | none => simp [eval_binary, hl]
  | some v => simp [eval_binary, eval_const, hl, h]

/-! ### One rewriting step -/

theorem eval_of_fold? (h : fold? op lhs rhs = some v) :
    (binary op lhs rhs).eval arg = some v := by
  simp only [fold?, bind, Option.bind_eq_some_iff, asConst?_eq_some_iff] at h
  obtain ⟨a, rfl, b, rfl, hab⟩ := h
  exact eval_binary_eq_some_iff.2 ⟨a, b, rfl, rfl, hab⟩

/-- Every neutral operand is dropped without a change; only a product with zero may become
defined. -/
theorem eval_dropNeutral (h : ¬ (op = .mul ∧ (lhs = zero ∨ rhs = zero))) :
    (dropNeutral op lhs rhs).eval arg = (binary op lhs rhs).eval arg := by
  unfold dropNeutral
  split
  · -- a sum
    split
    · next hl => rw [hl, zero, eval_binary_const_left Operator.apply_zero_add]
    · split
      · next hr => rw [hr, zero, eval_binary_const_right Operator.apply_add_zero]
      · rfl
  · -- a difference
    split
    · next hr => rw [hr, zero, eval_binary_const_right Operator.apply_sub_zero]
    · rfl
  · -- a product
    split
    · next hl => rw [hl, one, eval_binary_const_left Operator.apply_one_mul]
    · split
      · next hr => rw [hr, one, eval_binary_const_right Operator.apply_mul_one]
      · rw [if_neg fun hz => h ⟨rfl, hz⟩]
  · -- a quotient
    split
    · next hr => rw [hr, one, eval_binary_const_right Operator.apply_div_one]
    · rfl
  · rfl

theorem eval_reduce (h : ¬ (op = .mul ∧ (lhs = zero ∨ rhs = zero))) :
    (reduce op lhs rhs).eval arg = (binary op lhs rhs).eval arg := by
  unfold reduce
  split
  · next hv => exact (eval_of_fold? hv).symm
  · exact eval_dropNeutral h

/-- A defined product with zero is zero. -/
theorem eval_mul_eq_zero (hz : lhs = zero ∨ rhs = zero)
    (h : (binary .mul lhs rhs).eval arg = some v) : v = 0 := by
  obtain ⟨a, b, ha, hb, hab⟩ := eval_binary_eq_some_iff.1 h
  rcases hz with rfl | rfl
  · obtain rfl : 0 = a := Option.some.inj ha
    exact (Option.some.inj ((Operator.apply_zero_mul b).symm.trans hab)).symm
  · obtain rfl : 0 = b := Option.some.inj hb
    exact (Option.some.inj ((Operator.apply_mul_zero a).symm.trans hab)).symm

theorem reduce_mul_of_zero (hz : lhs = zero ∨ rhs = zero)
    (h : (binary .mul lhs rhs).eval arg = some v) : (reduce .mul lhs rhs).eval arg = some v := by
  unfold reduce
  split
  · next w hw => exact (eval_of_fold? hw).symm.trans h
  · simp only [dropNeutral]
    split
    · next hl => rwa [hl, one, eval_binary_const_left Operator.apply_one_mul] at h
    · split
      · next hr => rwa [hr, one, eval_binary_const_right Operator.apply_mul_one] at h
      · rw [eval_mul_eq_zero hz h]
        rfl

theorem eval_reduce_of_eq_some (h : (binary op lhs rhs).eval arg = some v) :
    (reduce op lhs rhs).eval arg = some v := by
  by_cases hz : op = .mul ∧ (lhs = zero ∨ rhs = zero)
  · obtain ⟨rfl, hz⟩ := hz
    exact reduce_mul_of_zero hz h
  · rw [eval_reduce hz, h]

theorem eval_select (h : thenBranch ≠ elseBranch) :
    (select condition thenBranch elseBranch).eval arg =
      (ifElse condition thenBranch elseBranch).eval arg := by
  unfold select
  split
  · next c hc =>
      rw [asConst?_eq_some_iff.1 hc]
      by_cases hz : c = 0 <;> simp [eval_ifElse, eval_const, hz]
  · rw [if_neg h]

theorem eval_select_of_eq_some
    (h : (ifElse condition thenBranch elseBranch).eval arg = some v) :
    (select condition thenBranch elseBranch).eval arg = some v := by
  by_cases heq : thenBranch = elseBranch
  · subst heq
    obtain ⟨c, -, hv⟩ := eval_ifElse_eq_some_iff.1 h
    rw [ite_self] at hv
    unfold select
    split <;> simpa using hv
  · rw [eval_select heq, h]

/-! ### Whole expressions -/

theorem eval_simplify_of_eq_some (h : e.eval arg = some v) : e.simplify.eval arg = some v := by
  induction e generalizing v with
  | const c => exact h
  | oparg => exact h
  | binary op lhs rhs ihl ihr =>
      obtain ⟨a, b, ha, hb, hab⟩ := eval_binary_eq_some_iff.1 h
      exact eval_reduce_of_eq_some (eval_binary_eq_some_iff.2 ⟨a, b, ihl ha, ihr hb, hab⟩)
  | ifElse condition thenBranch elseBranch ihc iht ihe =>
      obtain ⟨c, hc, hv⟩ := eval_ifElse_eq_some_iff.1 h
      refine eval_select_of_eq_some (eval_ifElse_eq_some_iff.2 ⟨c, ihc hc, ?_⟩)
      by_cases hz : c = 0
      · rw [if_neg (not_not_intro hz)] at hv ⊢
        exact ihe hv
      · rw [if_pos hz] at hv ⊢
        exact iht hv

def parts : Expr → List Expr
  | const value => [const value]
  | oparg => [oparg]
  | binary op lhs rhs => binary op lhs rhs :: (lhs.parts ++ rhs.parts)
  | ifElse condition thenBranch elseBranch =>
      ifElse condition thenBranch elseBranch ::
        (condition.parts ++ thenBranch.parts ++ elseBranch.parts)

/-- A node whose simplification may drop an operand unevaluated: a product with an operand that
simplifies to zero, or a conditional whose branches simplify to one tree. -/
def Drops : Expr → Prop
  | binary .mul lhs rhs => lhs.simplify = zero ∨ rhs.simplify = zero
  | ifElse _ thenBranch elseBranch => thenBranch.simplify = elseBranch.simplify
  | _ => False

theorem eval_simplify_of_not_drops (h : ∀ part ∈ e.parts, ¬ part.Drops) :
    e.simplify.eval arg = e.eval arg := by
  induction e with
  | const c => rfl
  | oparg => rfl
  | binary op lhs rhs ihl ihr =>
      simp only [parts, List.forall_mem_cons, List.forall_mem_append] at h
      obtain ⟨hnode, hl, hr⟩ := h
      have hmul : ¬ (op = .mul ∧ (lhs.simplify = zero ∨ rhs.simplify = zero)) := by
        rintro ⟨rfl, hz⟩
        exact hnode hz
      rw [simplify, eval_reduce hmul]
      exact eval_binary_congr (ihl hl) (ihr hr)
  | ifElse condition thenBranch elseBranch ihc iht ihe =>
      simp only [parts, List.forall_mem_cons, List.forall_mem_append] at h
      obtain ⟨hnode, ⟨hc, ht⟩, he⟩ := h
      rw [simplify, eval_select hnode]
      exact eval_ifElse_congr (ihc hc) (iht ht) (ihe he)

/-- Simplification keeps every defined value. It defines an undefined one only where some part of
the expression is dropped, and otherwise agrees with evaluation, undefined results included. -/
theorem eval_simplify (e : Expr) (arg : UInt32) :
    (∀ v, e.eval arg = some v → e.simplify.eval arg = some v) ∧
      (∀ v, e.eval arg = none → e.simplify.eval arg = some v → ∃ part ∈ e.parts, part.Drops) ∧
      ((∀ part ∈ e.parts, ¬ part.Drops) → e.simplify.eval arg = e.eval arg) := by
  refine ⟨fun v => eval_simplify_of_eq_some, fun v hnone hsome => ?_, eval_simplify_of_not_drops⟩
  refine Classical.byContradiction fun hdrops => ?_
  rw [eval_simplify_of_not_drops fun part hp hd => hdrops ⟨part, hp, hd⟩, hnone] at hsome
  contradiction

/-- `0 * (1 / 0)` is undefined and simplifies to zero, and it has a part that is dropped. -/
theorem eval_simplify_zero_mul_undefined :
    (binary .mul zero (binary .div one zero)).eval 7 = none ∧
      (binary .mul zero (binary .div one zero)).simplify.eval 7 = some 0 ∧
      ∃ part ∈ (binary .mul zero (binary .div one zero)).parts, part.Drops :=
  ⟨by decide, by decide, (eval_simplify _ 7).2.1 0 (by decide) (by decide)⟩

end Expr

end Bytecode

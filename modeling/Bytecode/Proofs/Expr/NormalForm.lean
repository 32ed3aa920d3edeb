import Bytecode.Proofs.Expr.Dependence

/-!
# Normal forms

Some rules of the simplifier hand back a part as it is. No such part can be rewritten any more, and
none of the results makes a rule apply to the node around it, so that one pass from the leaves up is
enough. The normal forms are the expressions that the simplifier keeps. Without the operand, the
only normal form with a value is the literal of that value.
-/

namespace Bytecode.Expr

/-- A node that a rule of the simplifier rewrites. -/
inductive Redex : Expr → Prop where
  | literals {op : Operator} {a b v : Int64} (h : op.apply a b = some v) :
      Redex (binary op (const a) (const b))
  | zeroAdd {rhs : Expr} : Redex (binary .add zero rhs)
  | addZero {lhs : Expr} : Redex (binary .add lhs zero)
  | subZero {lhs : Expr} : Redex (binary .sub lhs zero)
  | oneMul {rhs : Expr} : Redex (binary .mul one rhs)
  | mulOne {lhs : Expr} : Redex (binary .mul lhs one)
  | divOne {lhs : Expr} : Redex (binary .div lhs one)
  | zeroMul {rhs : Expr} : Redex (binary .mul zero rhs)
  | mulZero {lhs : Expr} : Redex (binary .mul lhs zero)
  | literalCondition {c : Int64} {thenBranch elseBranch : Expr} :
      Redex (ifElse (const c) thenBranch elseBranch)
  | equalBranches {condition branch : Expr} : Redex (ifElse condition branch branch)

/-- No part of the expression can be rewritten. -/
def IsNormal (e : Expr) : Prop := ∀ part ∈ e.parts, ¬ part.Redex

variable {op : Operator} {lhs rhs condition thenBranch elseBranch e : Expr} {arg : UInt32}
  {v : Int64}

theorem isNormal_const (v : Int64) : (const v).IsNormal := by
  intro part hpart
  obtain rfl := List.mem_singleton.1 hpart
  nofun

theorem isNormal_oparg : oparg.IsNormal := by
  intro part hpart
  obtain rfl := List.mem_singleton.1 hpart
  nofun

theorem isNormal_binary_iff :
    (binary op lhs rhs).IsNormal ↔ ¬ (binary op lhs rhs).Redex ∧ lhs.IsNormal ∧ rhs.IsNormal := by
  simp only [IsNormal, parts, List.forall_mem_cons, List.forall_mem_append]

theorem isNormal_ifElse_iff :
    (ifElse condition thenBranch elseBranch).IsNormal ↔
      ¬ (ifElse condition thenBranch elseBranch).Redex ∧
        condition.IsNormal ∧ thenBranch.IsNormal ∧ elseBranch.IsNormal := by
  simp only [IsNormal, parts, List.forall_mem_cons, List.forall_mem_append, and_assoc]

/-! ### One rewriting step -/

theorem fold?_eq_some_iff :
    fold? op lhs rhs = some v ↔
      ∃ a b, lhs = const a ∧ rhs = const b ∧ op.apply a b = some v := by
  simp [fold?, Option.bind_eq_some_iff, asConst?_eq_some_iff]

theorem dropNeutral_of_not_redex (h : ¬ (binary op lhs rhs).Redex) :
    dropNeutral op lhs rhs = binary op lhs rhs := by
  unfold dropNeutral
  split
  · -- a sum
    have hl : lhs ≠ zero := by rintro rfl; exact h .zeroAdd
    have hr : rhs ≠ zero := by rintro rfl; exact h .addZero
    rw [if_neg hl, if_neg hr]
  · -- a difference
    have hr : rhs ≠ zero := by rintro rfl; exact h .subZero
    rw [if_neg hr]
  · -- a product
    have hl : lhs ≠ one := by rintro rfl; exact h .oneMul
    have hr : rhs ≠ one := by rintro rfl; exact h .mulOne
    have hz : ¬ (lhs = zero ∨ rhs = zero) := by
      rintro (rfl | rfl)
      · exact h .zeroMul
      · exact h .mulZero
    rw [if_neg hl, if_neg hr, if_neg hz]
  · -- a quotient
    have hr : rhs ≠ one := by rintro rfl; exact h .divOne
    rw [if_neg hr]
  · rfl

/-- An operation that no rule rewrites stays as it is. -/
theorem reduce_of_not_redex (h : ¬ (binary op lhs rhs).Redex) :
    reduce op lhs rhs = binary op lhs rhs := by
  unfold reduce
  split
  · next v hv =>
      obtain ⟨a, b, rfl, rfl, hab⟩ := fold?_eq_some_iff.1 hv
      exact absurd (.literals hab) h
  · exact dropNeutral_of_not_redex h

theorem zero_ne_one : zero ≠ one := by decide

theorem dropNeutral_of_redex (h : (binary op lhs rhs).Redex) (hfold : fold? op lhs rhs = none) :
    dropNeutral op lhs rhs = lhs ∨ dropNeutral op lhs rhs = rhs ∨
      dropNeutral op lhs rhs = zero := by
  cases h with
  | literals hvalue =>
      rw [fold?_eq_some_iff.2 ⟨_, _, rfl, rfl, hvalue⟩] at hfold
      cases hfold
  | zeroAdd => simp [dropNeutral]
  | addZero => by_cases hl : lhs = zero <;> simp [dropNeutral, hl]
  | subZero => simp [dropNeutral]
  | oneMul => simp [dropNeutral]
  | mulOne => by_cases hl : lhs = one <;> simp [dropNeutral, hl]
  | divOne => simp [dropNeutral]
  | zeroMul => by_cases hr : rhs = one <;> simp [dropNeutral, hr, zero_ne_one]
  | mulZero => by_cases hl : lhs = one <;> simp [dropNeutral, hl, zero_ne_one]

/-- A rule for operations gives back an operand or a literal. -/
theorem reduce_of_redex (h : (binary op lhs rhs).Redex) :
    reduce op lhs rhs = lhs ∨ reduce op lhs rhs = rhs ∨ ∃ v, reduce op lhs rhs = const v := by
  unfold reduce
  split
  · next v _ => exact .inr (.inr ⟨v, rfl⟩)
  · next hfold =>
      rcases dropNeutral_of_redex h hfold with hl | hr | hzero
      · exact .inl hl
      · exact .inr (.inl hr)
      · exact .inr (.inr ⟨0, hzero⟩)

/-- A conditional that no rule rewrites stays as it is. -/
theorem select_of_not_redex (h : ¬ (ifElse condition thenBranch elseBranch).Redex) :
    select condition thenBranch elseBranch = ifElse condition thenBranch elseBranch := by
  unfold select
  split
  · next c hc =>
      obtain rfl := asConst?_eq_some_iff.1 hc
      exact absurd .literalCondition h
  · have hbranches : thenBranch ≠ elseBranch := by rintro rfl; exact h .equalBranches
    rw [if_neg hbranches]

/-- A rule for conditionals gives back a branch. -/
theorem select_of_redex (h : (ifElse condition thenBranch elseBranch).Redex) :
    select condition thenBranch elseBranch = thenBranch ∨
      select condition thenBranch elseBranch = elseBranch := by
  cases h with
  | literalCondition =>
      rename_i c
      by_cases hc : c = 0 <;> simp [select, asConst?, hc]
  | equalBranches =>
      unfold select
      split <;> simp

/-! ### Whole expressions -/

theorem IsNormal.reduce (hl : lhs.IsNormal) (hr : rhs.IsNormal) :
    (reduce op lhs rhs).IsNormal := by
  by_cases hredex : (binary op lhs rhs).Redex
  · rcases reduce_of_redex hredex with h | h | ⟨v, h⟩
    · rwa [h]
    · rwa [h]
    · rw [h]
      exact isNormal_const v
  · rw [reduce_of_not_redex hredex]
    exact isNormal_binary_iff.2 ⟨hredex, hl, hr⟩

theorem IsNormal.select (hc : condition.IsNormal) (ht : thenBranch.IsNormal)
    (he : elseBranch.IsNormal) : (select condition thenBranch elseBranch).IsNormal := by
  by_cases hredex : (ifElse condition thenBranch elseBranch).Redex
  · rcases select_of_redex hredex with h | h
    · rwa [h]
    · rwa [h]
  · rw [select_of_not_redex hredex]
    exact isNormal_ifElse_iff.2 ⟨hredex, hc, ht, he⟩

theorem isNormal_simplify (e : Expr) : e.simplify.IsNormal := by
  induction e with
  | const v => exact isNormal_const v
  | oparg => exact isNormal_oparg
  | binary op lhs rhs ihl ihr => exact ihl.reduce ihr
  | ifElse condition thenBranch elseBranch ihc iht ihe => exact ihc.select iht ihe

theorem IsNormal.simplify_eq (h : e.IsNormal) : e.simplify = e := by
  induction e with
  | const v => rfl
  | oparg => rfl
  | binary op lhs rhs ihl ihr =>
      obtain ⟨hnode, hl, hr⟩ := isNormal_binary_iff.1 h
      rw [simplify, ihl hl, ihr hr, reduce_of_not_redex hnode]
  | ifElse condition thenBranch elseBranch ihc iht ihe =>
      obtain ⟨hnode, hc, ht, he⟩ := isNormal_ifElse_iff.1 h
      rw [simplify, ihc hc, iht ht, ihe he, select_of_not_redex hnode]

/-! ### The number of nodes -/

theorem length_parts_reduce_le (op : Operator) (lhs rhs : Expr) :
    (reduce op lhs rhs).parts.length ≤ (binary op lhs rhs).parts.length := by
  by_cases hredex : (binary op lhs rhs).Redex
  · simp only [parts, List.length_cons, List.length_append]
    rcases reduce_of_redex hredex with h | h | ⟨v, h⟩
    · rw [h]
      omega
    · rw [h]
      omega
    · rw [h, parts, List.length_singleton]
      omega
  · exact Nat.le_of_eq (by rw [reduce_of_not_redex hredex])

theorem length_parts_select_le (condition thenBranch elseBranch : Expr) :
    (select condition thenBranch elseBranch).parts.length ≤
      (ifElse condition thenBranch elseBranch).parts.length := by
  by_cases hredex : (ifElse condition thenBranch elseBranch).Redex
  · simp only [parts, List.length_cons, List.length_append]
    rcases select_of_redex hredex with h | h
    · rw [h]
      omega
    · rw [h]
      omega
  · exact Nat.le_of_eq (by rw [select_of_not_redex hredex])

theorem length_parts_simplify_le (e : Expr) : e.simplify.parts.length ≤ e.parts.length := by
  induction e with
  | const v => exact Nat.le_refl _
  | oparg => exact Nat.le_refl _
  | binary op lhs rhs ihl ihr =>
      have hnode := length_parts_reduce_le op lhs.simplify rhs.simplify
      simp only [simplify, parts, List.length_cons, List.length_append] at hnode ⊢
      omega
  | ifElse condition thenBranch elseBranch ihc iht ihe =>
      have hnode :=
        length_parts_select_le condition.simplify thenBranch.simplify elseBranch.simplify
      simp only [simplify, parts, List.length_cons, List.length_append] at hnode ⊢
      omega

/-- Simplification reaches a normal form, in which no rule applies any more. It adds no nodes and no
occurrence of the operand, and it keeps what is normal, so that a second run changes nothing. -/
theorem simplify_normal (e : Expr) :
    e.simplify.simplify = e.simplify ∧ e.simplify.parts.length ≤ e.parts.length ∧
      (e.simplify.usesOparg = true → e.usesOparg = true) ∧
      ∀ part ∈ e.simplify.parts, ¬ part.Redex := by
  refine ⟨(isNormal_simplify e).simplify_eq, length_parts_simplify_le e, fun hsimplified => ?_,
    isNormal_simplify e⟩
  cases huses : e.usesOparg with
  | true => rfl
  | false =>
      rw [usesOparg_simplify huses] at hsimplified
      cases hsimplified

/-- `oparg * (3 - 2) + (1 / 0 - 0)`. -/
def undefinedSum : Expr :=
  binary .add (binary .mul oparg (binary .sub (const 3) (const 2)))
    (binary .sub (binary .div one zero) zero)

/-- The undefined quotient stays. -/
theorem simplify_normal_undefinedSum :
    undefinedSum.simplify = binary .add oparg (binary .div one zero) ∧
      undefinedSum.simplify.simplify = undefinedSum.simplify ∧
      undefinedSum.usesOparg = true ∧
      ¬ (binary .div one zero).Redex := by
  obtain ⟨htwice, -, huses, hnormal⟩ := simplify_normal undefinedSum
  exact ⟨by decide, htwice, huses (by decide), hnormal _ (by decide)⟩

/-! ### Without the operand -/

theorem reduce_literals {a b : Int64} (h : op.apply a b = some v) :
    reduce op (const a) (const b) = const v := by
  rw [reduce, fold?_eq_some_iff.2 ⟨a, b, rfl, rfl, h⟩]

/-- A value that does not hang on the operand is found by simplifying. The branch that is not
selected may be undefined. -/
theorem simplify_eq_const (hclosed : e.usesOparg = false) (h : e.eval arg = some v) :
    e.simplify = const v := by
  induction e generalizing v with
  | const c => rw [simplify, Option.some.inj h]
  | oparg => cases hclosed
  | binary op lhs rhs ihl ihr =>
      simp only [usesOparg, Bool.or_eq_false_iff] at hclosed
      obtain ⟨a, b, ha, hb, hab⟩ := eval_binary_eq_some_iff.1 h
      rw [simplify, ihl hclosed.1 ha, ihr hclosed.2 hb, reduce_literals hab]
  | ifElse condition thenBranch elseBranch ihc iht ihe =>
      simp only [usesOparg, Bool.or_eq_false_iff] at hclosed
      obtain ⟨⟨hclosedCondition, hclosedThen⟩, hclosedElse⟩ := hclosed
      obtain ⟨c, hc, hv⟩ := eval_ifElse_eq_some_iff.1 h
      rw [simplify, ihc hclosedCondition hc]
      by_cases hz : c = 0
      · rw [if_neg (not_not_intro hz)] at hv
        rw [← ihe hclosedElse hv]
        exact if_pos hz
      · rw [if_pos hz] at hv
        rw [← iht hclosedThen hv]
        exact if_neg hz

/-- A normal form without the operand has a value only if it is a literal. -/
theorem IsNormal.literal_or_undefined (h : e.IsNormal) (hclosed : e.usesOparg = false) :
    (∃ v, e = const v) ∨ ∀ arg, e.eval arg = none := by
  cases hvalue : e.eval 0 with
  | some v => exact .inl ⟨v, h.simplify_eq.symm.trans (simplify_eq_const hclosed hvalue)⟩
  | none => exact .inr fun arg => (eval_eq_of_not_usesOparg hclosed arg 0).trans hvalue

/-- Substituting an operand evaluates: it leaves the literal of the value where there is one, and
otherwise a literal or an expression that is undefined for all operands. Simplifying alone does so
for an expression without the operand. -/
theorem substituteOparg_eq_const (e : Expr) (arg : UInt32) :
    (e.substituteOparg (operandValue arg)).usesOparg = false ∧
      (∀ v, e.eval arg = some v → e.substituteOparg (operandValue arg) = const v) ∧
      (e.eval arg = none →
        (∃ v, e.substituteOparg (operandValue arg) = const v) ∨
          ∀ other, (e.substituteOparg (operandValue arg)).eval other = none) ∧
      ∀ v, e.usesOparg = false → e.eval arg = some v → e.simplify = const v := by
  have hclosed : (e.replaceOparg (operandValue arg)).usesOparg = false :=
    usesOparg_replaceOparg _ e
  refine ⟨usesOparg_substituteOparg _ e, fun v hv => ?_, fun _ => ?_, fun v => simplify_eq_const⟩
  · exact simplify_eq_const hclosed ((eval_replaceOparg e arg arg).trans hv)
  · exact (isNormal_simplify _).literal_or_undefined (usesOparg_simplify hclosed)

/-- `1 / (oparg - 3)`. -/
def reciprocal : Expr := binary .div one (binary .sub oparg (const 3))

/-- With the operand 3, `if oparg - 3 { 1 / (oparg - 3) } else { oparg << 2 }` is 12, although its
first branch is undefined. -/
theorem substituteOparg_eq_const_reciprocal :
    (ifElse (binary .sub oparg (const 3)) reciprocal
        (binary .shiftLeft oparg (const 2))).substituteOparg (operandValue 3) = const 12 ∧
      reciprocal.eval 3 = none ∧
      ((∃ v, reciprocal.substituteOparg (operandValue 3) = const v) ∨
        ∀ other, (reciprocal.substituteOparg (operandValue 3)).eval other = none) ∧
      (binary .shiftLeft (const 3) (const 2)).simplify = const 12 :=
  ⟨(substituteOparg_eq_const _ 3).2.1 12 (by decide), by decide,
    (substituteOparg_eq_const _ 3).2.2.1 (by decide),
    (substituteOparg_eq_const _ 3).2.2.2 12 (by decide) (by decide)⟩

end Bytecode.Expr

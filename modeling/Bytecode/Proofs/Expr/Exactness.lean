import Bytecode.Proofs.Expr.Simplification
import Bytecode.Proofs.Rust.Integer
import Mathlib.Data.Int.Bitwise
import Mathlib.Tactic.Zify

/-!
# Exact evaluation

The value of an expression over the unbounded integers, and the subexpressions that are evaluated on
the way to it. Evaluation on 64 bits gives this value where all of them stay in the range and no
operation on the way is undefined, and it gives no value anywhere else: nothing ever wraps.
-/

namespace Bytecode

def InRange (n : Int) : Prop := Int64.minValue.toInt ≤ n ∧ n ≤ Int64.maxValue.toInt

namespace Operator

/-- The value of `a op b` over the unbounded integers. Division and remainder truncate towards zero,
a right shift rounds down, and bits are those of the two's complement without end. -/
def exact (op : Operator) (a b : Int) : Int :=
  match op with
  | mul => a * b
  | div => a.tdiv b
  | rem => a.tmod b
  | add => a + b
  | sub => a - b
  | shiftLeft => a * 2 ^ b.toNat
  | shiftRight => a >>> b.toNat
  | bitAnd => Int.bitwise and a b
  | bitXor => Int.bitwise xor a b
  | bitOr => Int.bitwise or a b
  | eq => (decide (a = b)).toInt
  | ne => (decide (a ≠ b)).toInt
  | lt => (decide (a < b)).toInt
  | le => (decide (a ≤ b)).toInt
  | gt => (decide (a > b)).toInt
  | ge => (decide (a ≥ b)).toInt

/-- The operands that an operation admits, whatever the size of its value. The exact value means
nothing at other operands; only the remainder of the least integer by minus one is refused in spite
of its value. -/
def Admits (op : Operator) (a b : Int) : Prop :=
  match op with
  | div => b ≠ 0
  | rem => b ≠ 0 ∧ ¬ (a = Int64.minValue.toInt ∧ b = -1)
  | shiftLeft => 0 ≤ b ∧ b ≤ 62
  | shiftRight => 0 ≤ b ∧ b ≤ 63
  | mul | add | sub | bitAnd | bitXor | bitOr | eq | ne | lt | le | gt | ge => True

end Operator

namespace Expr

/-- The value over the unbounded integers. -/
def exact (arg : UInt32) : Expr → Int
  | const value => value.toInt
  | oparg => arg.toNat
  | binary op lhs rhs => op.exact (lhs.exact arg) (rhs.exact arg)
  | ifElse condition thenBranch elseBranch =>
      if condition.exact arg ≠ 0 then thenBranch.exact arg else elseBranch.exact arg

/-- `Evaluates arg e sub`: evaluating `e` evaluates `sub`, which is `e` or a part of it. Of the
branches of a conditional, only the selected one is evaluated. -/
inductive Evaluates (arg : UInt32) : Expr → Expr → Prop
  | self (e : Expr) : Evaluates arg e e
  | left {op : Operator} {lhs rhs sub : Expr} (inner : Evaluates arg lhs sub) :
      Evaluates arg (binary op lhs rhs) sub
  | right {op : Operator} {lhs rhs sub : Expr} (inner : Evaluates arg rhs sub) :
      Evaluates arg (binary op lhs rhs) sub
  | condition {condition thenBranch elseBranch sub : Expr} (inner : Evaluates arg condition sub) :
      Evaluates arg (ifElse condition thenBranch elseBranch) sub
  | branch {condition thenBranch elseBranch sub : Expr}
      (inner : Evaluates arg (if condition.exact arg ≠ 0 then thenBranch else elseBranch) sub) :
      Evaluates arg (ifElse condition thenBranch elseBranch) sub

/-- Every value on the way is in the range, and every operation on the way admits its operands. -/
structure Bounded (arg : UInt32) (e : Expr) : Prop where
  inRange : ∀ sub, e.Evaluates arg sub → InRange (sub.exact arg)
  admits : ∀ op lhs rhs, e.Evaluates arg (binary op lhs rhs) →
    op.Admits (lhs.exact arg) (rhs.exact arg)

end Expr

/-! ### Bits of unbounded integers -/

section Bits

variable {a b : Int} {k : Nat}

theorem getLsbD_ofInt (w : Nat) (n : Int) (i : Nat) :
    (BitVec.ofInt w n).getLsbD i = (decide (i < w) && n.testBit i) := by
  cases n with
  | ofNat n =>
      rw [Int.ofNat_eq_natCast, BitVec.ofInt_natCast, BitVec.getLsbD_ofNat]
      rfl
  | negSucc n =>
      rw [BitVec.ofInt_negSucc_eq_not_ofNat, BitVec.getLsbD_not, BitVec.getLsbD_ofNat]
      by_cases hi : i < w <;> simp [hi, Int.testBit]

theorem natBitwise_bounds (f : Bool → Bool → Bool) {m n : Nat} (hm : m < 2 ^ k) (hn : n < 2 ^ k) :
    -2 ^ k ≤ Int.natBitwise f m n ∧ Int.natBitwise f m n < 2 ^ k := by
  have hplain := Nat.bitwise_lt_two_pow (f := f) hm hn
  have hflipped := Nat.bitwise_lt_two_pow (f := fun x y => !f x y) hm hn
  zify at hplain hflipped
  cases h : f false false with
  | false =>
      simp only [Int.natBitwise, h, cond_false]
      omega
  | true =>
      simp only [Int.natBitwise, h, cond_true, Int.negSucc_eq]
      omega

/-- Bit by bit, integers that fit some width give one that fits it. -/
theorem bitwise_bounds (f : Bool → Bool → Bool) (ha : -2 ^ k ≤ a ∧ a < 2 ^ k)
    (hb : -2 ^ k ≤ b ∧ b < 2 ^ k) :
    -2 ^ k ≤ Int.bitwise f a b ∧ Int.bitwise f a b < 2 ^ k := by
  have hnat : ∀ {m : Nat}, (m : Int) < 2 ^ k → m < 2 ^ k := by
    intro m hm
    exact_mod_cast hm
  have hnegSucc : ∀ {m : Nat}, -2 ^ k ≤ Int.negSucc m → m < 2 ^ k := by
    intro m hm
    rw [Int.negSucc_eq] at hm
    exact hnat (by omega)
  cases a with
  | ofNat m =>
      cases b with
      | ofNat n => exact natBitwise_bounds f (hnat ha.2) (hnat hb.2)
      | negSucc n =>
          exact natBitwise_bounds (fun x y => f x (not y)) (hnat ha.2) (hnegSucc hb.1)
  | negSucc m =>
      cases b with
      | ofNat n =>
          exact natBitwise_bounds (fun x y => f (not x) y) (hnegSucc ha.1) (hnat hb.2)
      | negSucc n =>
          exact natBitwise_bounds (fun x y => f (not x) (not y)) (hnegSucc ha.1) (hnegSucc hb.1)

/-- An operation on words that is carried out bit by bit is the one on unbounded integers. -/
theorem toInt_of_getLsbD {f : Bool → Bool → Bool} {lhs rhs v : Int64}
    (h : ∀ i < 64, v.toBitVec.getLsbD i = f (lhs.toBitVec.getLsbD i) (rhs.toBitVec.getLsbD i)) :
    v.toInt = Int.bitwise f lhs.toInt rhs.toInt := by
  have hword : v.toBitVec = BitVec.ofInt 64 (Int.bitwise f lhs.toInt rhs.toInt) := by
    refine BitVec.eq_of_getLsbD_eq fun i hi => ?_
    have hbit : ∀ value : Int64, value.toBitVec.getLsbD i = value.toInt.testBit i := by
      intro value
      rw [← BitVec.ofInt_toInt (x := value.toBitVec), getLsbD_ofInt, Int64.toInt_toBitVec]
      simp [hi]
    rw [h i hi, hbit, hbit, getLsbD_ofInt, Int.testBit_bitwise]
    simp [hi]
  have hbounds := bitwise_bounds f (k := 63) ⟨lhs.le_toInt, lhs.toInt_lt⟩
    ⟨rhs.le_toInt, rhs.toInt_lt⟩
  rw [← Int64.toInt_toBitVec, hword]
  exact BitVec.toInt_ofInt_eq_self (by decide) hbounds.1 hbounds.2

end Bits

/-! ### One operation -/

namespace Operator

open Rust.IntType (toInt_zero_iff toInt_shiftRight toInt_truth)

variable {op : Operator} {lhs rhs v : Int64}

theorem inRange_toInt (value : Int64) : InRange value.toInt :=
  ⟨Int64.minValue_le_toInt value, Int64.toInt_le value⟩

theorem exists_of_inRange {n : Int} (h : InRange n) : ∃ value : Int64, value.toInt = n :=
  ⟨Int64.ofInt n, narrow_eq_some_iff.1 (if_pos h)⟩

/-- An operation has a value exactly where it admits its operands and the exact value is that of a
64-bit integer. -/
theorem apply_eq_some_iff_exact :
    op.apply lhs rhs = some v ↔
      op.Admits lhs.toInt rhs.toInt ∧ op.exact lhs.toInt rhs.toInt = v.toInt := by
  cases op with
  | mul | add | sub => simp [apply, narrow_eq_some_iff, Admits, exact, eq_comm]
  | div =>
      simp [apply, narrow_eq_some_iff, Admits, exact, toInt_zero_iff, eq_comm]
  | rem =>
      have hmin : lhs = Int64.minValue ↔ lhs.toInt = Int64.minValue.toInt := Int64.toInt_inj.symm
      have hone : rhs = -1 ↔ rhs.toInt = -1 := (Int64.toInt_inj (y := -1)).symm
      simp only [apply, Option.ite_none_left_eq_some, narrow_eq_some_iff, ← toInt_zero_iff, hmin,
        hone, not_or, Admits, exact, ne_eq, eq_comm]
  | shiftLeft =>
      have hcount : 0 ≤ rhs.toInt ∧ rhs.toInt < 63 ↔ 0 ≤ rhs.toInt ∧ rhs.toInt ≤ 62 := by omega
      simp only [apply, hcount, Option.ite_none_right_eq_some, narrow_eq_some_iff, Admits, exact,
        Int.shiftLeft_eq, eq_comm]
  | shiftRight =>
      have hcount : 0 ≤ rhs.toInt ∧ rhs.toInt < 64 ↔ 0 ≤ rhs.toInt ∧ rhs.toInt ≤ 63 := by omega
      rw [apply, Option.ite_none_right_eq_some, Option.some.injEq, ← Int64.toInt_inj, Admits, exact,
        ← hcount]
      refine and_congr_right fun h => ?_
      rw [toInt_shiftRight h]
  | bitAnd =>
      have hbits : (lhs &&& rhs).toInt = Int.bitwise and lhs.toInt rhs.toInt :=
        toInt_of_getLsbD fun i _ => by rw [Int64.toBitVec_and, BitVec.getLsbD_and]
      simp only [apply, Option.some.injEq, ← Int64.toInt_inj, hbits, Admits, exact, true_and]
  | bitXor =>
      have hbits : (lhs ^^^ rhs).toInt = Int.bitwise xor lhs.toInt rhs.toInt :=
        toInt_of_getLsbD fun i _ => by rw [Int64.toBitVec_xor, BitVec.getLsbD_xor]
      simp only [apply, Option.some.injEq, ← Int64.toInt_inj, hbits, Admits, exact, true_and]
  | bitOr =>
      have hbits : (lhs ||| rhs).toInt = Int.bitwise or lhs.toInt rhs.toInt :=
        toInt_of_getLsbD fun i _ => by rw [Int64.toBitVec_or, BitVec.getLsbD_or]
      simp only [apply, Option.some.injEq, ← Int64.toInt_inj, hbits, Admits, exact, true_and]
  | eq | ne | lt | le | gt | ge =>
      simp [apply, Admits, exact, ← Int64.toInt_inj, toInt_truth, Int64.lt_iff_toInt_lt,
        Int64.le_iff_toInt_le]

end Operator

namespace Expr

open Operator (inRange_toInt exists_of_inRange apply_eq_some_iff_exact)
open Rust.IntType (toInt_zero_iff)

variable {arg : UInt32} {op : Operator} {lhs rhs condition thenBranch elseBranch e : Expr}
  {v c : Int64}

/-! ### Bounded expressions -/

theorem bounded_const : (const v).Bounded arg := by
  constructor
  · intro sub hsub
    cases hsub
    exact inRange_toInt v
  · intro op lhs rhs hsub
    cases hsub

theorem toInt_operandValue (arg : UInt32) : (operandValue arg).toInt = arg.toNat := by
  have harg : arg.toNat < 2 ^ 32 := arg.toNat_lt
  exact Int64.toInt_ofNat_of_lt (by omega)

theorem bounded_oparg : oparg.Bounded arg := by
  constructor
  · intro sub hsub
    cases hsub
    rw [exact, ← toInt_operandValue]
    exact inRange_toInt _
  · intro op lhs rhs hsub
    cases hsub

theorem bounded_binary_iff :
    (binary op lhs rhs).Bounded arg ↔ lhs.Bounded arg ∧ rhs.Bounded arg ∧
      op.Admits (lhs.exact arg) (rhs.exact arg) ∧ InRange ((binary op lhs rhs).exact arg) := by
  constructor
  · intro h
    refine ⟨⟨?_, ?_⟩, ⟨?_, ?_⟩, h.admits _ _ _ (.self _), h.inRange _ (.self _)⟩
    · exact fun sub hsub => h.inRange sub (.left hsub)
    · exact fun op lhs rhs hsub => h.admits op lhs rhs (.left hsub)
    · exact fun sub hsub => h.inRange sub (.right hsub)
    · exact fun op lhs rhs hsub => h.admits op lhs rhs (.right hsub)
  · intro ⟨hlhs, hrhs, hadmits, hrange⟩
    constructor
    · intro sub hsub
      cases hsub with
      | self => exact hrange
      | left inner => exact hlhs.inRange sub inner
      | right inner => exact hrhs.inRange sub inner
    · intro op' lhs' rhs' hsub
      cases hsub with
      | self => exact hadmits
      | left inner => exact hlhs.admits _ _ _ inner
      | right inner => exact hrhs.admits _ _ _ inner

theorem exact_ifElse :
    (ifElse condition thenBranch elseBranch).exact arg =
      (if condition.exact arg ≠ 0 then thenBranch else elseBranch).exact arg := by
  rw [exact]
  split <;> rfl

/-- Nothing is asked of the branch that is not selected. -/
theorem bounded_ifElse_iff :
    (ifElse condition thenBranch elseBranch).Bounded arg ↔ condition.Bounded arg ∧
      (if condition.exact arg ≠ 0 then thenBranch else elseBranch).Bounded arg := by
  constructor
  · intro h
    refine ⟨⟨?_, ?_⟩, ⟨?_, ?_⟩⟩
    · exact fun sub hsub => h.inRange sub (.condition hsub)
    · exact fun op lhs rhs hsub => h.admits op lhs rhs (.condition hsub)
    · exact fun sub hsub => h.inRange sub (.branch hsub)
    · exact fun op lhs rhs hsub => h.admits op lhs rhs (.branch hsub)
  · intro ⟨hcondition, hbranch⟩
    constructor
    · intro sub hsub
      cases hsub with
      | self =>
          rw [exact_ifElse]
          exact hbranch.inRange _ (.self _)
      | condition inner => exact hcondition.inRange sub inner
      | branch inner => exact hbranch.inRange sub inner
    · intro op lhs rhs hsub
      cases hsub with
      | condition inner => exact hcondition.admits _ _ _ inner
      | branch inner => exact hbranch.admits _ _ _ inner

/-- Evaluation gives the exact value of a bounded expression, and no value of any other. -/
theorem eval_eq_some_iff_exact (arg : UInt32) (e : Expr) (v : Int64) :
    e.eval arg = some v ↔ e.Bounded arg ∧ e.exact arg = v.toInt := by
  induction e generalizing v with
  | const value =>
      rw [eval_const, Option.some.injEq, ← Int64.toInt_inj]
      exact ⟨fun h => ⟨bounded_const, h⟩, And.right⟩
  | oparg =>
      rw [exact, ← toInt_operandValue, Int64.toInt_inj]
      exact ⟨fun h => ⟨bounded_oparg, Option.some.inj h⟩, fun h => congrArg some h.2⟩
  | binary op lhs rhs ihlhs ihrhs =>
      rw [eval_binary_eq_some_iff, bounded_binary_iff]
      constructor
      · intro ⟨a, b, ha, hb, hv⟩
        obtain ⟨hlhs, hexactLhs⟩ := (ihlhs a).1 ha
        obtain ⟨hrhs, hexactRhs⟩ := (ihrhs b).1 hb
        obtain ⟨hadmits, hexact⟩ := apply_eq_some_iff_exact.1 hv
        rw [← hexactLhs, ← hexactRhs] at hadmits hexact
        refine ⟨⟨hlhs, hrhs, hadmits, ?_⟩, hexact⟩
        rw [exact, hexact]
        exact inRange_toInt v
      · intro ⟨⟨hlhs, hrhs, hadmits, _⟩, hexact⟩
        obtain ⟨a, ha⟩ := exists_of_inRange (hlhs.inRange lhs (.self _))
        obtain ⟨b, hb⟩ := exists_of_inRange (hrhs.inRange rhs (.self _))
        refine ⟨a, b, (ihlhs a).2 ⟨hlhs, ha.symm⟩, (ihrhs b).2 ⟨hrhs, hb.symm⟩, ?_⟩
        rw [exact] at hexact
        rw [apply_eq_some_iff_exact, ha, hb]
        exact ⟨hadmits, hexact⟩
  | ifElse condition thenBranch elseBranch ihcondition ihthen ihelse =>
      rw [eval_ifElse_eq_some_iff, bounded_ifElse_iff, exact_ifElse]
      have hselected : (if condition.exact arg ≠ 0 then thenBranch else elseBranch).eval arg =
          some v ↔ (if condition.exact arg ≠ 0 then thenBranch else elseBranch).Bounded arg ∧
            (if condition.exact arg ≠ 0 then thenBranch else elseBranch).exact arg = v.toInt := by
        by_cases h : condition.exact arg = 0
        · simpa [h] using ihelse v
        · simpa [h] using ihthen v
      have hsame : ∀ c : Int64, condition.exact arg = c.toInt →
          (if c ≠ 0 then thenBranch else elseBranch) =
            if condition.exact arg ≠ 0 then thenBranch else elseBranch := by
        intro c hc
        simp only [hc, ne_eq, toInt_zero_iff]
      constructor
      · intro ⟨c, hc, hv⟩
        obtain ⟨hcondition, hexact⟩ := (ihcondition c).1 hc
        rw [hsame c hexact, hselected] at hv
        exact ⟨⟨hcondition, hv.1⟩, hv.2⟩
      · intro ⟨⟨hcondition, hbranch⟩, hexact⟩
        obtain ⟨c, hc⟩ := exists_of_inRange (hcondition.inRange condition (.self _))
        refine ⟨c, (ihcondition c).2 ⟨hcondition, hc.symm⟩, ?_⟩
        rw [hsame c hc.symm, hselected]
        exact ⟨hbranch, hexact⟩

-- The only operation that is refused although it would be exact and in the range.
example : (binary .rem (const Int64.minValue) (const (-1))).exact 0 = 0 ∧
    (binary .rem (const Int64.minValue) (const (-1))).eval 0 = none := by
  decide

end Expr

end Bytecode

import Bytecode.Proofs.Expr.Rendering
import Bytecode.Proofs.Rust.Evaluation

/-!
# What the emitted text of an expression computes

The text of an expression has no types in it. Compared operands and the counts of shifts take theirs
from the variable or a conversion among them, and are an `i32` where there is neither. So the text
computes the value of the expression exactly when no such part needs more than 32 bits.
-/

namespace Bytecode.Expr

variable {e : Expr} {arg : UInt32} {v : Int64}

/-- A condition holds where it is not zero, tested or not. -/
theorem eval_ifElse_ne_zero (condition thenBranch elseBranch : Expr) :
    (ifElse (binary .ne condition zero) thenBranch elseBranch).eval arg =
      (ifElse condition thenBranch elseBranch).eval arg := by
  cases hcondition : condition.eval arg with
  | none => simp [eval, hcondition]
  | some c => by_cases hc : c = 0 <;> simp [eval, hcondition, Operator.apply, zero, truth, hc]

theorem eval_withTestedConditions (e : Expr) : e.withTestedConditions.eval arg = e.eval arg := by
  induction e with
  | const value => rfl
  | oparg => rfl
  | binary op lhs rhs ihlhs ihrhs => exact eval_binary_congr ihlhs ihrhs
  | ifElse condition thenBranch elseBranch ihcondition ihthen ihelse =>
      by_cases hcomparison : condition.compares = true
      · rw [withTestedConditions, if_pos hcomparison]
        exact eval_ifElse_congr ihcondition ihthen ihelse
      · rw [withTestedConditions, if_neg hcomparison]
        rw [← eval_ifElse_ne_zero condition]
        exact eval_ifElse_congr (eval_binary_congr ihcondition rfl) ihthen ihelse

theorem reads_iff_eq_rustTerm {t : Rust.Term} : Rust.Reads e.rust t ↔ t = e.rustTerm := by
  obtain ⟨ts, hbare⟩ := exists_written e
  obtain ⟨ts, hwritten⟩ := hbare.converted
  have hreads : Rust.Reads e.rust e.rustTerm := by
    have hphrase := hwritten.phrase.of_le (one_le_convertedPower e)
    rw [← hwritten.scans.tokens_eq] at hphrase
    exact hphrase
  constructor
  · intro h
    exact h.unique hreads
  · rintro rfl
    exact hreads

/-- Where an expression has a value, its text compiles as an `i64` and runs to that value without a
panic or an overflow exactly when everything in it that is taken as an `i32` stays in that type. -/
theorem runsTo_value_iff (h : e.eval arg = some v) :
    ∃ term : Rust.Term, (∀ t, Rust.Reads e.rust t ↔ t = term) ∧
      (term.RunsTo arg v.toInt ↔ term.StaysNarrow arg) := by
  have hkind := kind?_convertedTerm (kind?_bareTerm e)
  have hexpr : e.rustTerm.toExpr? = some e.withTestedConditions := by
    rw [rustTerm, toExpr?_convertedTerm, toExpr?_bareTerm]
  refine ⟨e.rustTerm, fun t => reads_iff_eq_rustTerm, ?_⟩
  refine Rust.Term.runsTo_iff_staysNarrow hkind hexpr ?_
  rw [eval_withTestedConditions, h]

/-- A comparison in which the variable counts places only, so that its operands are an `i32`. -/
def powerExceedsFive : Expr := binary .gt (binary .shiftLeft one oparg) (const 5)

theorem runsTo_value_iff_powerExceedsFive :
    powerExceedsFive.eval 30 = some 1 ∧
      ∃ term : Rust.Term, (∀ t, Rust.Reads powerExceedsFive.rust t ↔ t = term) ∧
        term.RunsTo 30 1 := by
  have heval : powerExceedsFive.eval 30 = some 1 := by decide
  obtain ⟨term, hreads, hruns⟩ := runsTo_value_iff heval
  obtain rfl := (hreads _).1 (reads_iff_eq_rustTerm.2 rfl)
  exact ⟨heval, _, hreads, hruns.2 ⟨by decide, by decide⟩⟩

/-- One bit further the shift reaches the sign, the text compiles and runs to another value, and two
bits further it panics. -/
theorem powerExceedsFive_wraps :
    powerExceedsFive.rust = "i64::from(1 << oparg > 5)" ∧
      powerExceedsFive.eval 31 = some 1 ∧ powerExceedsFive.eval 32 = some 1 ∧
      ∃ term : Rust.Term, (∀ t, Rust.Reads powerExceedsFive.rust t ↔ t = term) ∧
        term.compiles .i64 = true ∧ term.eval 31 .i64 = some 0 ∧ term.eval 32 .i64 = none ∧
        ¬ term.RunsTo 31 1 := by
  have hwraps : powerExceedsFive.rustTerm.eval 31 .i64 = some 0 := by decide
  refine ⟨by decide, by decide, by decide, powerExceedsFive.rustTerm,
    fun t => reads_iff_eq_rustTerm, by decide, hwraps, by decide, fun h => ?_⟩
  rw [h.value] at hwraps
  cases hwraps

end Bytecode.Expr

import Bytecode.Proofs.Expr.Simplification
import Bytecode.Proofs.Rust.Expression
import Bytecode.Proofs.Rust.Integer

/-!
# Running an expression of the emitted language

The operands of an operator share a type, except that the right operand of a shift has its own. A
conversion is an `i64`, as the variable is; where neither gives the literals of a part their type,
it is `i32`. A term runs to the value of its stack expression, without an overflow, exactly when
everything that is computed as an `i32` stays in that type.
-/

namespace Bytecode.Rust.Term

variable {arg : UInt32} {type : IntType} {op : Operator} {e : Expr} {v : Int64} {n : Int}
  {t lhs rhs condition thenBranch elseBranch : Term} {kind : Kind}

/-! ### Types -/

/-- Whether the variable or a conversion makes the term an `i64`, whatever is around it. -/
def isWide : Term → Bool
  | literal _ => false
  | oparg => true
  | binary op lhs rhs => lhs.isWide || (!op.isShift && rhs.isWide)
  | converted _ => true
  | ifElse _ thenBranch elseBranch => thenBranch.isWide || elseBranch.isWide

def typeOf (wide : Bool) : IntType := if wide then .i64 else .i32

def operandTypes (type : IntType) (op : Operator) (lhs rhs : Term) : IntType × IntType :=
  if compares op then
    (typeOf (lhs.isWide || rhs.isWide), typeOf (lhs.isWide || rhs.isWide))
  else if op.isShift then (type, typeOf rhs.isWide)
  else (type, type)

/-- Whether a term has the type that its place demands, and every literal is in the range of its
type. For a truth value the type does not matter. -/
def compiles (type : IntType) : Term → Bool
  | literal n => type.Holds n
  | oparg => type = .i64
  | binary op lhs rhs =>
      lhs.compiles (operandTypes type op lhs rhs).1 &&
        rhs.compiles (operandTypes type op lhs rhs).2
  | converted condition => type = .i64 && condition.compiles type
  | ifElse condition thenBranch elseBranch =>
      condition.compiles type && thenBranch.compiles type && elseBranch.compiles type

/-! ### Values -/

/-- The value of a compiled term, if it does not panic. A truth value is one or zero. -/
def eval (arg : UInt32) (type : IntType) : Term → Option Int
  | literal n => some n
  | oparg => some (Expr.operandValue arg).toInt
  | binary op lhs rhs => do
      let left ← lhs.eval arg (operandTypes type op lhs rhs).1
      let right ← rhs.eval arg (operandTypes type op lhs rhs).2
      (operandTypes type op lhs rhs).1.apply op left right
  | converted condition => condition.eval arg type
  | ifElse condition thenBranch elseBranch => do
      if (← condition.eval arg type) ≠ 0 then thenBranch.eval arg type
      else elseBranch.eval arg type

def modelValue? (arg : UInt32) (t : Term) : Option Int64 := t.toExpr?.bind (Expr.eval arg)

def narrowLiterals (type : IntType) : Term → List Int
  | literal n => if type = .i32 then [n] else []
  | oparg => []
  | binary op lhs rhs =>
      lhs.narrowLiterals (operandTypes type op lhs rhs).1 ++
        rhs.narrowLiterals (operandTypes type op lhs rhs).2
  | converted condition => condition.narrowLiterals type
  | ifElse condition thenBranch elseBranch =>
      condition.narrowLiterals type ++ thenBranch.narrowLiterals type ++
        elseBranch.narrowLiterals type

structure Step where
  op : Operator
  left : Int64
  right : Int64
  deriving DecidableEq, Repr

def Step.Fits (step : Step) : Prop :=
  IntType.i32.Admits step.op step.left.toInt step.right.toInt

instance (step : Step) : Decidable step.Fits := inferInstanceAs (Decidable (IntType.Admits ..))

def Step.KeepsBits (step : Step) : Prop :=
  IntType.i32.KeepsBits step.op step.left.toInt step.right.toInt

/-- The operations that are carried out on an `i32`, with the values that their operands have in the
stack expression. -/
def narrowSteps (arg : UInt32) (type : IntType) : Term → List Step
  | literal _ => []
  | oparg => []
  | binary op lhs rhs =>
      lhs.narrowSteps arg (operandTypes type op lhs rhs).1 ++
        rhs.narrowSteps arg (operandTypes type op lhs rhs).2 ++
        if (operandTypes type op lhs rhs).1 = .i32 then
          ((lhs.modelValue? arg).bind fun left =>
            (rhs.modelValue? arg).map fun right => ⟨op, left, right⟩).toList
        else []
  | converted condition => condition.narrowSteps arg type
  | ifElse condition thenBranch elseBranch =>
      condition.narrowSteps arg type ++
        match condition.modelValue? arg with
        | some value =>
            if value ≠ 0 then thenBranch.narrowSteps arg type else elseBranch.narrowSteps arg type
        | none => []

/-- Everything that is taken as an `i32` or computed as one is in the range of that type. -/
structure StaysNarrow (arg : UInt32) (t : Term) : Prop where
  literals : ∀ n ∈ t.narrowLiterals .i64, IntType.i32.Holds n
  steps : ∀ step ∈ t.narrowSteps arg .i64, step.Fits

/-- As an `i64` the term compiles, and it runs to `n` without a panic or an overflow. -/
structure RunsTo (arg : UInt32) (t : Term) (n : Int) : Prop where
  compiles : t.compiles .i64 = true
  value : t.eval arg .i64 = some n
  keepsBits : ∀ step ∈ t.narrowSteps arg .i64, step.KeepsBits

/-! ### Parts of a term -/

theorem kind?_binary_eq_some_iff :
    (binary op lhs rhs).kind? = some kind ↔
      lhs.kind? = some .integer ∧ rhs.kind? = some .integer ∧
        kind = if compares op then .boolean else .integer := by
  rw [kind?, Option.ite_none_right_eq_some, Option.some.injEq, and_assoc]
  exact and_congr_right fun _ => and_congr_right fun _ => eq_comm

theorem kind?_converted_eq_some_iff :
    (converted condition).kind? = some kind ↔
      condition.kind? = some .boolean ∧ kind = .integer := by
  rw [kind?, Option.ite_none_right_eq_some, Option.some.injEq]
  exact and_congr_right fun _ => eq_comm

theorem kind?_ifElse_eq_some_iff :
    (ifElse condition thenBranch elseBranch).kind? = some kind ↔
      condition.kind? = some .boolean ∧ thenBranch.kind? = some .integer ∧
        elseBranch.kind? = some .integer ∧ kind = .integer := by
  rw [kind?, Option.ite_none_right_eq_some, Option.some.injEq, and_assoc, and_assoc]
  exact and_congr_right fun _ => and_congr_right fun _ => and_congr_right fun _ => eq_comm

theorem toExpr?_binary_eq_some_iff :
    (binary op lhs rhs).toExpr? = some e ↔
      ∃ left right, lhs.toExpr? = some left ∧ rhs.toExpr? = some right ∧
        .binary op left right = e := by
  simp [toExpr?, Option.bind_eq_some_iff]

theorem toExpr?_ifElse_eq_some_iff :
    (ifElse condition thenBranch elseBranch).toExpr? = some e ↔
      ∃ test first second, condition.toExpr? = some test ∧ thenBranch.toExpr? = some first ∧
        elseBranch.toExpr? = some second ∧ .ifElse test first second = e := by
  simp [toExpr?, Option.bind_eq_some_iff]

theorem modelValue?_eq (ht : t.toExpr? = some e) (hv : e.eval arg = some v) :
    t.modelValue? arg = some v := by
  rw [modelValue?, ht, Option.bind_some, hv]

/-! ### Compiling -/

theorem typeOf_eq_i32_iff {wide : Bool} : typeOf wide = .i32 ↔ wide = false := by
  cases wide <;> simp [typeOf]

theorem operandTypes_fst (h : compares op = false) :
    (operandTypes type op lhs rhs).1 = type := by
  rw [operandTypes, h, if_neg Bool.false_ne_true]
  split <;> rfl

theorem operandTypes_snd (h : op.isShift = false) :
    (operandTypes type op lhs rhs).2 = (operandTypes type op lhs rhs).1 := by
  rw [operandTypes, h]
  split <;> rfl

/-- A type that is inferred for an operand does not conflict with it. -/
theorem not_isWide_of_operandTypes
    (hwide : compares op = false → type = .i32 → (binary op lhs rhs).isWide = false) :
    ((operandTypes type op lhs rhs).1 = .i32 → lhs.isWide = false) ∧
      ((operandTypes type op lhs rhs).2 = .i32 → rhs.isWide = false) := by
  unfold operandTypes
  by_cases hcomparison : compares op = true
  · rw [if_pos hcomparison, typeOf_eq_i32_iff, Bool.or_eq_false_iff]
    exact ⟨And.left, And.right⟩
  · rw [if_neg hcomparison]
    have hwide := hwide (Bool.eq_false_iff.2 hcomparison)
    by_cases hshift : op.isShift = true
    · rw [if_pos hshift]
      refine ⟨fun htype => ?_, typeOf_eq_i32_iff.1⟩
      have hnarrow := hwide htype
      rw [isWide, Bool.or_eq_false_iff] at hnarrow
      exact hnarrow.1
    · rw [if_neg hshift]
      have hboth : type = .i32 → lhs.isWide = false ∧ rhs.isWide = false := by
        intro htype
        have hnarrow := hwide htype
        rwa [isWide, Bool.eq_false_iff.2 hshift, Bool.not_false, Bool.true_and,
          Bool.or_eq_false_iff] at hnarrow
      exact ⟨fun htype => (hboth htype).1, fun htype => (hboth htype).2⟩

/-- The types never conflict: a term compiles unless a literal is too large for an `i32`. -/
theorem compiles_iff (hkind : t.kind? = some kind) (ht : t.toExpr? = some e)
    (hwide : kind = .integer → type = .i32 → t.isWide = false) :
    t.compiles type = true ↔ ∀ n ∈ t.narrowLiterals type, IntType.i32.Holds n := by
  induction t generalizing type e kind with
  | literal n =>
      obtain ⟨value, hvalue, -⟩ := Option.map_eq_some_iff.1 ht
      have hrange : IntType.i64.Holds n := by
        rw [← narrow_eq_some_iff.1 hvalue]
        exact IntType.holds_toInt value
      cases type with
      | i32 => simp [compiles, narrowLiterals]
      | i64 => simpa [compiles, narrowLiterals] using hrange
  | oparg =>
      obtain rfl : kind = .integer := (Option.some.inj hkind).symm
      cases type with
      | i32 => cases hwide rfl rfl
      | i64 => simp [compiles, narrowLiterals]
  | binary op lhs rhs ihlhs ihrhs =>
      obtain ⟨hlhs, hrhs, rfl⟩ := kind?_binary_eq_some_iff.1 hkind
      obtain ⟨left, right, hleft, hright, -⟩ := toExpr?_binary_eq_some_iff.1 ht
      have hwide : compares op = false → type = .i32 → (binary op lhs rhs).isWide = false :=
        fun hop => hwide (by rw [hop]; rfl)
      obtain ⟨hlhsWide, hrhsWide⟩ := not_isWide_of_operandTypes hwide
      rw [compiles, narrowLiterals, Bool.and_eq_true, List.forall_mem_append,
        ihlhs hlhs hleft fun _ => hlhsWide, ihrhs hrhs hright fun _ => hrhsWide]
  | converted condition ih =>
      obtain ⟨hcondition, rfl⟩ := kind?_converted_eq_some_iff.1 hkind
      cases type with
      | i32 => cases hwide rfl rfl
      | i64 =>
          rw [compiles, narrowLiterals, decide_eq_true rfl, Bool.true_and]
          exact ih hcondition ht fun hbool => nomatch hbool
  | ifElse condition thenBranch elseBranch ihcondition ihthen ihelse =>
      obtain ⟨hcondition, hthen, helse, rfl⟩ := kind?_ifElse_eq_some_iff.1 hkind
      obtain ⟨_, _, _, htest, hfirst, hsecond, -⟩ := toExpr?_ifElse_eq_some_iff.1 ht
      have hwide : type = .i32 → thenBranch.isWide = false ∧ elseBranch.isWide = false :=
        fun htype => Bool.or_eq_false_iff.1 (hwide rfl htype)
      have hcondition : condition.compiles type = true ↔
          ∀ n ∈ condition.narrowLiterals type, IntType.i32.Holds n :=
        ihcondition hcondition htest fun hbool => nomatch hbool
      have hthen := ihthen hthen hfirst fun _ htype => (hwide htype).1
      have helse := ihelse helse hsecond fun _ htype => (hwide htype).2
      rw [compiles, narrowLiterals, Bool.and_eq_true, Bool.and_eq_true, List.forall_mem_append,
        List.forall_mem_append, hcondition, hthen, helse]

/-! ### Running -/

theorem narrowSteps_binary {a b : Int64} (hlhs : lhs.modelValue? arg = some a)
    (hrhs : rhs.modelValue? arg = some b) :
    (binary op lhs rhs).narrowSteps arg type =
      lhs.narrowSteps arg (operandTypes type op lhs rhs).1 ++
        rhs.narrowSteps arg (operandTypes type op lhs rhs).2 ++
        if (operandTypes type op lhs rhs).1 = .i32 then [⟨op, a, b⟩] else [] := by
  rw [narrowSteps, hlhs, hrhs]
  rfl

theorem narrowSteps_ifElse (h : condition.modelValue? arg = some v) :
    (ifElse condition thenBranch elseBranch).narrowSteps arg type =
      condition.narrowSteps arg type ++
        (if v ≠ 0 then thenBranch else elseBranch).narrowSteps arg type := by
  rw [narrowSteps, h]
  dsimp only
  split <;> rfl

theorem eval_binary_eq_some_iff :
    (binary op lhs rhs).eval arg type = some n ↔
      ∃ a b, lhs.eval arg (operandTypes type op lhs rhs).1 = some a ∧
        rhs.eval arg (operandTypes type op lhs rhs).2 = some b ∧
        (operandTypes type op lhs rhs).1.apply op a b = some n := by
  simp [eval, Option.bind_eq_some_iff]

theorem eval_ifElse_eq_some_iff :
    (ifElse condition thenBranch elseBranch).eval arg type = some n ↔
      ∃ value, condition.eval arg type = some value ∧
        (if value ≠ 0 then thenBranch else elseBranch).eval arg type = some n := by
  simp only [eval, bind, Option.bind_eq_some_iff]
  refine exists_congr fun value => and_congr_right fun _ => ?_
  split <;> rfl

theorem toInt_ne_zero_iff {value : Int64} : value.toInt ≠ 0 ↔ value ≠ 0 :=
  not_congr IntType.toInt_zero_iff

/-- On an `i64` nothing is asked of an operation. -/
theorem admits_of_fits {a b : Int64} (hv : op.apply a b = some v)
    (h : type = .i32 → Step.Fits ⟨op, a, b⟩) : type.Admits op a.toInt b.toInt := by
  cases type with
  | i32 => exact h rfl
  | i64 => exact IntType.admits_i64 hv

/-- A compiled term has the value of its stack expression, if no `i32` overflows. -/
theorem eval_of_admits (ht : t.toExpr? = some e) (hv : e.eval arg = some v)
    (hcompiles : t.compiles type = true)
    (hsteps : ∀ step ∈ t.narrowSteps arg type, step.Fits) :
    t.eval arg type = some v.toInt ∧ type.Holds v.toInt := by
  induction t generalizing type e v with
  | literal n =>
      obtain ⟨value, hvalue, rfl⟩ := Option.map_eq_some_iff.1 ht
      obtain rfl := Option.some.inj hv
      rw [narrow_eq_some_iff.1 hvalue]
      exact ⟨rfl, of_decide_eq_true hcompiles⟩
  | oparg =>
      obtain rfl := Option.some.inj ht
      obtain rfl := Option.some.inj hv
      obtain rfl : type = .i64 := of_decide_eq_true hcompiles
      exact ⟨rfl, IntType.holds_toInt _⟩
  | binary op lhs rhs ihlhs ihrhs =>
      obtain ⟨left, right, hleft, hright, rfl⟩ := toExpr?_binary_eq_some_iff.1 ht
      obtain ⟨a, b, ha, hb, hab⟩ := Expr.eval_binary_eq_some_iff.1 hv
      rw [narrowSteps_binary (modelValue?_eq hleft ha) (modelValue?_eq hright hb),
        List.forall_mem_append, List.forall_mem_append] at hsteps
      obtain ⟨⟨hlhsSteps, hrhsSteps⟩, hstep⟩ := hsteps
      obtain ⟨hlhs, hrhs⟩ := Bool.and_eq_true_iff.1 hcompiles
      obtain ⟨hlhsValue, hlhsHolds⟩ := ihlhs hleft ha hlhs hlhsSteps
      obtain ⟨hrhsValue, hrhsHolds⟩ := ihrhs hright hb hrhs hrhsSteps
      have hadmits : (operandTypes type op lhs rhs).1.Admits op a.toInt b.toInt :=
        admits_of_fits hab fun htype => hstep _ (by simp [htype])
      obtain ⟨hvalue, hholds⟩ := IntType.apply_of_admits hlhsHolds
        (fun hop => by rwa [operandTypes_snd hop] at hrhsHolds) hab hadmits
      refine ⟨eval_binary_eq_some_iff.2 ⟨_, _, hlhsValue, hrhsValue, hvalue⟩, ?_⟩
      by_cases hop : compares op = true
      · exact IntType.holds_comparison hop hab type
      · rwa [operandTypes_fst (Bool.eq_false_iff.2 hop)] at hholds
  | converted condition ih =>
      obtain ⟨htype, hcondition⟩ := Bool.and_eq_true_iff.1 hcompiles
      exact ih ht hv hcondition hsteps
  | ifElse condition thenBranch elseBranch ihcondition ihthen ihelse =>
      obtain ⟨test, first, second, htest, hfirst, hsecond, rfl⟩ := toExpr?_ifElse_eq_some_iff.1 ht
      obtain ⟨c, hc, hbranch⟩ := Expr.eval_ifElse_eq_some_iff.1 hv
      rw [narrowSteps_ifElse (modelValue?_eq htest hc), List.forall_mem_append] at hsteps
      obtain ⟨hconditionSteps, hbranchSteps⟩ := hsteps
      obtain ⟨hboth, helse⟩ := Bool.and_eq_true_iff.1 hcompiles
      obtain ⟨hcondition, hthen⟩ := Bool.and_eq_true_iff.1 hboth
      obtain ⟨hconditionValue, -⟩ := ihcondition htest hc hcondition hconditionSteps
      simp only [eval_ifElse_eq_some_iff, hconditionValue, Option.some.injEq, exists_eq_left',
        toInt_ne_zero_iff]
      split at hbranch
      · next hne =>
          rw [if_pos hne] at hbranchSteps ⊢
          exact ihthen hfirst hbranch hthen hbranchSteps
      · next hne =>
          rw [if_neg hne] at hbranchSteps ⊢
          exact ihelse hsecond hbranch helse hbranchSteps

/-- A run without a panic in which no shift drops bits has not left an `i32`. -/
theorem fits_of_eval (ht : t.toExpr? = some e) (hv : e.eval arg = some v)
    (hcompiles : t.compiles type = true) (hn : t.eval arg type = some n)
    (hkeeps : ∀ step ∈ t.narrowSteps arg type, step.KeepsBits) :
    ∀ step ∈ t.narrowSteps arg type, step.Fits := by
  induction t generalizing type e v n with
  | literal n => simp [narrowSteps]
  | oparg => simp [narrowSteps]
  | binary op lhs rhs ihlhs ihrhs =>
      obtain ⟨left, right, hleft, hright, rfl⟩ := toExpr?_binary_eq_some_iff.1 ht
      obtain ⟨a, b, ha, hb, hab⟩ := Expr.eval_binary_eq_some_iff.1 hv
      obtain ⟨_, _, hlhsValue, hrhsValue, happly⟩ := eval_binary_eq_some_iff.1 hn
      rw [narrowSteps_binary (modelValue?_eq hleft ha) (modelValue?_eq hright hb),
        List.forall_mem_append, List.forall_mem_append] at hkeeps ⊢
      obtain ⟨⟨hlhsKeeps, hrhsKeeps⟩, hstep⟩ := hkeeps
      obtain ⟨hlhs, hrhs⟩ := Bool.and_eq_true_iff.1 hcompiles
      have hlhsSteps := ihlhs hleft ha hlhs hlhsValue hlhsKeeps
      have hrhsSteps := ihrhs hright hb hrhs hrhsValue hrhsKeeps
      refine ⟨⟨hlhsSteps, hrhsSteps⟩, fun step hmem => ?_⟩
      have hkeeps := hstep step hmem
      obtain ⟨htype, hmem⟩ := List.mem_ite_nil_right.1 hmem
      obtain rfl := List.mem_singleton.1 hmem
      -- Both operands have been computed without loss, so the operation is the exact one.
      rw [(eval_of_admits hleft ha hlhs hlhsSteps).1, Option.some.injEq] at hlhsValue
      rw [(eval_of_admits hright hb hrhs hrhsSteps).1, Option.some.injEq] at hrhsValue
      rw [htype, ← hlhsValue, ← hrhsValue] at happly
      exact IntType.admits_of_apply hab happly hkeeps
  | converted condition ih =>
      obtain ⟨-, hcondition⟩ := Bool.and_eq_true_iff.1 hcompiles
      exact ih ht hv hcondition hn hkeeps
  | ifElse condition thenBranch elseBranch ihcondition ihthen ihelse =>
      obtain ⟨test, first, second, htest, hfirst, hsecond, rfl⟩ := toExpr?_ifElse_eq_some_iff.1 ht
      obtain ⟨c, hc, hbranch⟩ := Expr.eval_ifElse_eq_some_iff.1 hv
      obtain ⟨_, hconditionValue, hbranchValue⟩ := eval_ifElse_eq_some_iff.1 hn
      rw [narrowSteps_ifElse (modelValue?_eq htest hc), List.forall_mem_append] at hkeeps ⊢
      obtain ⟨hconditionKeeps, hbranchKeeps⟩ := hkeeps
      obtain ⟨hboth, helse⟩ := Bool.and_eq_true_iff.1 hcompiles
      obtain ⟨hcondition, hthen⟩ := Bool.and_eq_true_iff.1 hboth
      have hconditionSteps := ihcondition htest hc hcondition hconditionValue hconditionKeeps
      refine ⟨hconditionSteps, ?_⟩
      rw [(eval_of_admits htest hc hcondition hconditionSteps).1, Option.some.injEq]
        at hconditionValue
      rw [← hconditionValue] at hbranchValue
      simp only [toInt_ne_zero_iff] at hbranchValue
      split at hbranch
      · next hne =>
          rw [if_pos hne] at hbranchValue hbranchKeeps ⊢
          exact ihthen hfirst hbranch hthen hbranchValue hbranchKeeps
      · next hne =>
          rw [if_neg hne] at hbranchValue hbranchKeeps ⊢
          exact ihelse hsecond hbranch helse hbranchValue hbranchKeeps

/-- An integer term runs to its value exactly when what is computed as an `i32` is one. -/
theorem runsTo_iff_staysNarrow (hkind : t.kind? = some .integer) (ht : t.toExpr? = some e)
    (hv : e.eval arg = some v) : t.RunsTo arg v.toInt ↔ t.StaysNarrow arg := by
  have hcompiles : t.compiles .i64 = true ↔ ∀ n ∈ t.narrowLiterals .i64, IntType.i32.Holds n :=
    compiles_iff hkind ht fun _ htype => nomatch htype
  constructor
  · intro h
    exact ⟨hcompiles.1 h.compiles, fits_of_eval ht hv h.compiles h.value h.keepsBits⟩
  · intro h
    have hcompiled := hcompiles.2 h.literals
    refine ⟨hcompiled, (eval_of_admits ht hv hcompiled h.steps).1, fun step hstep hop => ?_⟩
    have hfits := h.steps step hstep
    rw [Step.Fits, hop] at hfits
    exact hfits.2

end Bytecode.Rust.Term

import Bytecode.Proofs.Expr.Printing
import Bytecode.Proofs.Rust.Expression

/-!
# The emitted text of an expression denotes it

Read by the grammar of the emitted language, the text of an expression has one tree. In the tree a
comparison is converted wherever an integer is expected, and every condition is a comparison: one of
the expression's own, or a test against zero.
-/

namespace Bytecode.Expr

open Rust (Term Token Phrase Scans Closed Leads Apart apart_cons closed_bracket leads_symbol
  scans_toDigits scans_identifier tokens isIdentifierContinue_of_isDigit symbol symbol_eq power
  one_le_power precedence_eq isComparison_eq leftPower bodyPower)

variable {e : Expr} {op : Operator}

def compares : Expr → Bool
  | binary op _ _ => Rust.compares op
  | const _ | oparg | ifElse .. => false

theorem isComparison_eq_compares (e : Expr) : e.isComparison = e.compares := by
  cases e with
  | binary op _ _ => exact isComparison_eq op
  | const _ | oparg | ifElse _ _ _ => rfl

/-- The expression with every condition that is no comparison tested against zero. -/
def withTestedConditions : Expr → Expr
  | const value => const value
  | oparg => oparg
  | binary op lhs rhs => binary op lhs.withTestedConditions rhs.withTestedConditions
  | ifElse condition thenBranch elseBranch =>
      ifElse
        (if condition.compares then condition.withTestedConditions
          else binary .ne condition.withTestedConditions zero)
        thenBranch.withTestedConditions elseBranch.withTestedConditions

/-! ### The tree of the text -/

def convertedTerm (e : Expr) (bare : Term) : Term :=
  if e.compares then .converted bare else bare

def conditionTerm (condition : Expr) (bare : Term) : Term :=
  if condition.compares then bare else .binary .ne bare (.literal 0)

def bareTerm : Expr → Term
  | const value => .literal value.toInt
  | oparg => .oparg
  | binary op lhs rhs =>
      .binary op (lhs.convertedTerm lhs.bareTerm) (rhs.convertedTerm rhs.bareTerm)
  | ifElse condition thenBranch elseBranch =>
      .ifElse (condition.conditionTerm condition.bareTerm)
        (thenBranch.convertedTerm thenBranch.bareTerm)
        (elseBranch.convertedTerm elseBranch.bareTerm)

def rustTerm (e : Expr) : Term := e.convertedTerm e.bareTerm

theorem kind?_convertedTerm {bare : Term}
    (h : bare.kind? = some (if e.compares then .boolean else .integer)) :
    (e.convertedTerm bare).kind? = some .integer := by
  unfold convertedTerm
  split at h
  · next hcomparison => rw [if_pos hcomparison, Term.kind?, if_pos h]
  · next hcomparison => rw [if_neg hcomparison, h]

theorem kind?_conditionTerm {bare : Term}
    (h : bare.kind? = some (if e.compares then .boolean else .integer)) :
    (e.conditionTerm bare).kind? = some .boolean := by
  unfold conditionTerm
  split at h
  · next hcomparison => rw [if_pos hcomparison, h]
  · next hcomparison => rw [if_neg hcomparison, Term.kind?, if_pos ⟨h, rfl⟩]; rfl

theorem kind?_bareTerm (e : Expr) :
    e.bareTerm.kind? = some (if e.compares then .boolean else .integer) := by
  induction e with
  | const value => rfl
  | oparg => rfl
  | binary op lhs rhs ihlhs ihrhs =>
      rw [bareTerm, Term.kind?, if_pos ⟨kind?_convertedTerm ihlhs, kind?_convertedTerm ihrhs⟩]
      rfl
  | ifElse condition thenBranch elseBranch ihcondition ihthen ihelse =>
      have hkinds := And.intro (kind?_convertedTerm ihthen) (kind?_convertedTerm ihelse)
      rw [bareTerm, Term.kind?, if_pos ⟨kind?_conditionTerm ihcondition, hkinds⟩]
      rfl

theorem toExpr?_convertedTerm (e : Expr) (bare : Term) :
    (e.convertedTerm bare).toExpr? = bare.toExpr? := by
  unfold convertedTerm
  split <;> rfl

theorem toExpr?_bareTerm (e : Expr) : e.bareTerm.toExpr? = some e.withTestedConditions := by
  induction e with
  | const value => rw [bareTerm, Term.toExpr?, narrow_toInt]; rfl
  | oparg => rfl
  | binary op lhs rhs ihlhs ihrhs =>
      rw [bareTerm, Term.toExpr?, toExpr?_convertedTerm, toExpr?_convertedTerm, ihlhs, ihrhs]
      rfl
  | ifElse condition thenBranch elseBranch ihcondition ihthen ihelse =>
      have hcondition : (condition.conditionTerm condition.bareTerm).toExpr? =
          some (if condition.compares then condition.withTestedConditions
            else binary .ne condition.withTestedConditions zero) := by
        unfold conditionTerm
        split
        · exact ihcondition
        · rw [Term.toExpr?, ihcondition]
          rfl
      rw [bareTerm, Term.toExpr?, toExpr?_convertedTerm, toExpr?_convertedTerm, hcondition, ihthen,
        ihelse]
      rfl

/-! ### The text is a phrase -/

def isConditional : Expr → Bool
  | ifElse .. => true
  | _ => false

/-- How tightly the text of an expression holds together, unless it is a comparison that is
converted. -/
def barePower : Expr → Nat
  | binary op _ _ => power op
  | _ => 8

def convertedPower (e : Expr) : Nat := if e.compares then 8 else e.barePower

/-- A text whose tokens are a phrase. Only the text of a conditional begins like one. -/
structure Written (e : Expr) (strength : Nat) (text : String) (t : Term) (ts : List Token) :
    Prop where
  scans : Scans text.toList ts
  phrase : Phrase strength ts t
  opening : ts.head? = some (.name "if") → e.isConditional = true

structure Enclosed (strength : Nat) (text : String) (t : Term) (ts : List Token) : Prop where
  scans : Scans text.toList ts
  phrase : Phrase strength ts t
  opening : ts.head? ≠ some (.name "if")

variable {strength : Nat} {text left right body : String} {t lhs rhs bare : Term}
  {ts leftTokens rightTokens : List Token}

/-! #### Strengths -/

theorem one_le_barePower (e : Expr) : 1 ≤ e.barePower := by
  cases e with
  | binary op _ _ => exact one_le_power op
  | const _ | oparg | ifElse _ _ _ => exact (by decide : 1 ≤ 8)

theorem one_le_convertedPower (e : Expr) : 1 ≤ e.convertedPower := by
  unfold convertedPower
  split
  · decide
  · exact one_le_barePower e

def operandPower (parent : Operator) : Bool → Nat
  | false => leftPower parent
  | true => power parent + 1

theorem operandPower_le (parent : Operator) (right : Bool) : operandPower parent right ≤ 8 := by
  cases right <;> cases parent <;> decide

/-- A text without parentheses holds together tightly enough, and it is no conditional. -/
theorem operandPower_le_of_not_needsParens {parent : Operator} {right : Bool}
    (h : ¬ needsParens .rust parent right e = true) :
    operandPower parent right ≤ e.convertedPower ∧ e.isConditional = false := by
  simp only [needsParens, Bool.or_eq_true, Bool.and_eq_true, decide_eq_true_eq, not_or,
    Nat.not_lt] at h
  obtain ⟨hle, hstrict⟩ := h
  rw [precedence_eq] at hle hstrict
  rw [isComparison_eq] at hstrict
  cases e with
  | const value => exact ⟨operandPower_le parent right, rfl⟩
  | oparg => exact ⟨operandPower_le parent right, rfl⟩
  | ifElse condition thenBranch elseBranch =>
      rw [tightness] at hle
      omega
  | binary op lhs rhs =>
      refine ⟨?_, rfl⟩
      have hrust : (binary op lhs rhs).isConverted .rust = Rust.compares op :=
        (Bool.true_and _).trans (isComparison_eq op)
      rw [tightness, hrust] at hle hstrict
      unfold convertedPower
      rw [compares]
      split
      · exact operandPower_le parent right
      · next hop =>
          rw [if_neg hop, precedence_eq] at hle hstrict
          have hne : right = true ∨ Rust.compares parent = true → power op ≠ power parent :=
            fun hor heq => hstrict ⟨by omega, hor⟩
          rw [barePower]
          cases right with
          | true =>
              have hne := hne (.inl rfl)
              rw [operandPower]
              omega
          | false =>
              rw [operandPower, leftPower]
              split
              · next hparent =>
                  have hne := hne (.inr hparent)
                  omega
              · omega

/-! #### Parentheses and conversions -/

theorem Scans.between {opening : String} {before : List Token} (h : Scans text.toList ts)
    (hopening : Closed opening.toList before) :
    Scans (opening ++ text ++ ")").toList (before ++ ts ++ [.symbol ")"]) := by
  have hclosing : Closed ")".toList [.symbol ")"] := closed_bracket ')' [] (by decide) fun _ => rfl
  simp only [String.toList_append, List.append_assoc]
  exact hopening.append (h.append hclosing.scans (apart_cons (by decide) _))

theorem Written.converted (h : Written e e.barePower body bare ts) :
    ∃ us, Written e e.convertedPower (e.converted .rust body) (e.convertedTerm bare) us := by
  have hrust : e.isConverted .rust = e.compares :=
    (Bool.true_and _).trans e.isComparison_eq_compares
  unfold convertedPower Expr.converted convertedTerm
  rw [hrust]
  split
  · next hcomparison =>
      have hopening : Closed "i64::from(".toList
          [.name "i64", .symbol "::", .name "from", .symbol "("] :=
        closed_bracket '(' [.name "i64", .symbol "::", .name "from"] (by decide) fun _ => rfl
      have hphrase := h.phrase.of_le (one_le_barePower e)
      exact ⟨_, Scans.between h.scans hopening, .conversion hphrase, by simp⟩
  · exact ⟨ts, h⟩

theorem Written.operand (h : Written e e.barePower body bare ts) (parent : Operator)
    (right : Bool) :
    ∃ us, Enclosed (operandPower parent right) (operandText .rust parent right e body)
      (e.convertedTerm bare) us := by
  obtain ⟨us, hus⟩ := h.converted
  unfold operandText
  dsimp only
  split
  · next hparens =>
      have hopening : Closed "(".toList [.symbol "("] :=
        closed_bracket '(' [] (by decide) fun _ => rfl
      have hphrase := hus.phrase.of_le (one_le_convertedPower e)
      exact ⟨_, Scans.between hus.scans hopening, .parentheses hphrase, by simp⟩
  · next hparens =>
      obtain ⟨hpower, hconditional⟩ := operandPower_le_of_not_needsParens hparens
      refine ⟨us, hus.scans, hus.phrase.of_le hpower, fun hopening => ?_⟩
      have htrue := hus.opening hopening
      rw [hconditional] at htrue
      cases htrue

/-! #### Operations and conditionals -/

theorem closed_operator (op : Operator) :
    Closed (" " ++ op.symbol ++ " ").toList [.symbol (symbol op)] := by
  rw [symbol_eq]
  cases op <;> exact fun _ => rfl

theorem Enclosed.operation
    (hleft : Enclosed (operandPower op false) left lhs leftTokens)
    (hright : Enclosed (operandPower op true) right rhs rightTokens) :
    Enclosed (power op) (left ++ " " ++ op.symbol ++ " " ++ right) (.binary op lhs rhs)
      (leftTokens ++ .symbol (symbol op) :: rightTokens) where
  scans := by
    have htext : left ++ " " ++ op.symbol ++ " " ++ right =
        left ++ ((" " ++ op.symbol ++ " ") ++ right) := by
      simp only [String.append_assoc]
    rw [htext, String.toList_append, String.toList_append]
    refine hleft.scans.append ((closed_operator op).append hright.scans) ?_
    rw [String.toList_append, String.toList_append]
    exact apart_cons (by decide) _
  phrase := .operation (Nat.le_refl _) hleft.phrase hright.phrase
  opening := by
    rw [List.head?_append, List.head?_eq_some_head hleft.phrase.ne_nil, Option.some_or,
      ← List.head?_eq_some_head hleft.phrase.ne_nil]
    exact hleft.opening

theorem Written.condition (h : Written e e.barePower body bare ts) :
    ∃ us, Scans (conditionText .rust e body).toList us ∧ Phrase 1 us (e.conditionTerm bare) := by
  unfold conditionText conditionTerm
  dsimp only
  rw [isComparison_eq_compares]
  split
  · exact ⟨ts, h.scans, h.phrase.of_le (one_le_barePower e)⟩
  · next hcomparison =>
      obtain ⟨us, hus⟩ := h.operand .ne false
      rw [convertedTerm, if_neg hcomparison] at hus
      have hzero : Enclosed (operandPower .ne true) "0" (.literal 0) [.number 0] :=
        ⟨scans_toDigits 0, .literal 0, by simp⟩
      have htest := hus.operation hzero
      refine ⟨_, ?_, htest.phrase⟩
      have hscans := htest.scans
      simp only [String.append_assoc] at hscans
      exact hscans

theorem scans_conditional {condition thenText elseText : String}
    {conditionTokens thenTokens elseTokens : List Token}
    (hcondition : Scans condition.toList conditionTokens) (hthen : Scans thenText.toList thenTokens)
    (helse : Scans elseText.toList elseTokens) :
    Scans ("if " ++ condition ++ " \x7b " ++ thenText ++ " \x7d else \x7b " ++ elseText ++
        " \x7d").toList
      (.name "if" :: conditionTokens ++ .symbol "\x7b" :: thenTokens ++
        .symbol "\x7d" :: .name "else" :: .symbol "\x7b" :: elseTokens ++ [.symbol "\x7d"]) := by
  have hif : Closed "if ".toList [.name "if"] := fun _ => rfl
  have hopening : Closed " \x7b ".toList [.symbol "\x7b"] := fun _ => rfl
  have hbetween : Closed " \x7d else \x7b ".toList
      [.symbol "\x7d", .name "else", .symbol "\x7b"] := fun _ => rfl
  have hclosing : Closed " \x7d".toList [.symbol "\x7d"] :=
    closed_bracket '\x7d' [] (by decide) fun _ => rfl
  have hblank : ∀ cs, Apart (' ' :: cs) := apart_cons (by decide)
  have helse := hbetween.append (helse.append hclosing.scans (hblank _))
  have hthen := hopening.append (hthen.append helse (hblank _))
  have hscans := hif.append (hcondition.append hthen (hblank _))
  simpa only [String.toList_append, List.append_assoc, List.cons_append, List.nil_append]
    using hscans

/-- Between braces, only a conditional may begin like one. -/
theorem Written.block (h : Written e e.barePower body bare ts) :
    ∃ us, Scans (e.converted .rust body).toList us ∧
      Phrase (bodyPower us) us (e.convertedTerm bare) := by
  obtain ⟨us, hus⟩ := h.converted
  refine ⟨us, hus.scans, hus.phrase.of_le ?_⟩
  unfold bodyPower
  split
  · next hopening =>
      have hconditional := hus.opening hopening
      cases e with
      | ifElse condition thenBranch elseBranch => exact Nat.le_refl 8
      | const _ | oparg | binary _ _ _ => cases hconditional
  · exact one_le_convertedPower e

theorem scans_minus (n : Nat) :
    Scans ('-' :: Nat.toDigits 10 n) [.symbol "-", .number n] := by
  have hminus : Leads ['-'] [.symbol "-"] :=
    leads_symbol ['-'] [] (by decide) fun _ => rfl
  have hnumber := scans_toDigits n
  have hdigits : ∀ c ∈ Nat.toDigits 10 n, c.isDigit = true := fun c hc =>
    Nat.isDigit_of_mem_toDigits (by decide) (Nat.le_refl _) hc
  obtain ⟨c, cs, hcs⟩ := List.exists_cons_of_ne_nil (Nat.toDigits_ne_nil (n := n))
  rw [hcs] at hnumber hdigits ⊢
  exact hminus.append (isIdentifierContinue_of_isDigit (hdigits c (.head _))) hnumber

theorem exists_written_const (value : Int64) :
    ∃ ts, Written (const value) 8 ((const value).bareText .rust) (.literal value.toInt) ts := by
  by_cases h : 0 ≤ value
  · have hvalue : 0 ≤ value.toInt := Int64.le_iff_toInt_le.1 h
    refine ⟨[.number value.toInt.toNat], ?_, ?_, by simp⟩
    · rw [toList_bareText_const_of_nonneg h]
      exact scans_toDigits _
    · have hphrase : Phrase 8 [.number value.toInt.toNat] _ := .literal value.toInt.toNat
      rwa [Int.toNat_of_nonneg hvalue] at hphrase
  · have h : value < 0 := Int64.not_le.1 h
    have hvalue : value.toInt < 0 := Int64.lt_iff_toInt_lt.1 h
    refine ⟨[.symbol "-", .number (-value.toInt).toNat], ?_, ?_, by simp⟩
    · rw [toList_bareText_const_of_neg h]
      exact scans_minus _
    · have hphrase : Phrase 8 [.symbol "-", .number (-value.toInt).toNat] _ :=
        .negative (-value.toInt).toNat
      rwa [Int.toNat_of_nonneg (by omega), Int.neg_neg] at hphrase

/-- What the text of `e` is made of, when a comparison at its root is not converted. -/
theorem exists_written (e : Expr) :
    ∃ ts, Written e e.barePower (e.bareText .rust) e.bareTerm ts := by
  induction e with
  | const value => exact exists_written_const value
  | oparg => exact ⟨[.name "oparg"], scans_identifier (by decide), .oparg, by simp⟩
  | binary op lhs rhs ihlhs ihrhs =>
      obtain ⟨leftTokens, hlhs⟩ := ihlhs
      obtain ⟨rightTokens, hrhs⟩ := ihrhs
      obtain ⟨leftTokens, hleft⟩ := hlhs.operand op false
      obtain ⟨rightTokens, hright⟩ := hrhs.operand op true
      have hoperation := hleft.operation hright
      exact ⟨_, hoperation.scans, hoperation.phrase, fun h => absurd h hoperation.opening⟩
  | ifElse condition thenBranch elseBranch ihcondition ihthen ihelse =>
      obtain ⟨_, hcondition⟩ := ihcondition
      obtain ⟨_, hthen⟩ := ihthen
      obtain ⟨_, helse⟩ := ihelse
      obtain ⟨conditionTokens, hscans, hcondition⟩ := hcondition.condition
      obtain ⟨thenTokens, hthenScans, hthen⟩ := hthen.block
      obtain ⟨elseTokens, helseScans, helse⟩ := helse.block
      exact ⟨_, scans_conditional hscans hthenScans helseScans, .conditional hcondition hthen helse,
        fun _ => rfl⟩

/-- The text of an expression has one tree. All conditions in the tree are comparisons, all other
comparisons are converted, and it stands for the expression with its conditions tested. -/
theorem reads_rust (e : Expr) :
    ∃ term : Term, (∀ t, Rust.Reads e.rust t ↔ t = term) ∧ term.kind? = some .integer ∧
      term.toExpr? = some e.withTestedConditions := by
  obtain ⟨ts, hbare⟩ := exists_written e
  obtain ⟨ts, hwritten⟩ := hbare.converted
  have hreads : Rust.Reads e.rust e.rustTerm := by
    have hphrase := hwritten.phrase.of_le (one_le_convertedPower e)
    rw [← hwritten.scans.tokens_eq] at hphrase
    exact hphrase
  refine ⟨e.rustTerm, fun t => ⟨fun h => h.unique hreads, ?_⟩, ?_, ?_⟩
  · rintro rfl
    exact hreads
  · exact kind?_convertedTerm (kind?_bareTerm e)
  · rw [rustTerm, toExpr?_convertedTerm, toExpr?_bareTerm]

/-- Without parentheses, a mask binds tighter than the test of a condition. -/
example :
    let e := ifElse (binary .bitAnd oparg one) (binary .lt oparg one) (const (-1))
    e.rust = "if oparg & 1 != 0 \x7b i64::from(oparg < 1) \x7d else \x7b -1 \x7d" ∧
      Rust.read 20 1 (tokens e.rust.toList) = some (e.rustTerm, []) := by
  decide

end Bytecode.Expr

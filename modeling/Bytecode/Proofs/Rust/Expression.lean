import Bytecode.Expr.Basic
import Bytecode.Proofs.Rust.Operator
import Bytecode.Proofs.Rust.Token

/-!
# Expressions of the emitted language

The part of the grammar of Rust that stack effects are written in: sixteen binary operators, of
which the comparisons do not associate, negative literals, conversions by `i64::from`, and
conditionals. A text has at most one tree, because reading by precedence finds every tree that the
grammar allows.
-/

namespace Bytecode.Rust

inductive Term where
  | literal (value : Int)
  | oparg
  | binary (op : Operator) (lhs rhs : Term)
  | converted (condition : Term)
  | ifElse (condition thenBranch elseBranch : Term)
  deriving DecidableEq, Repr

namespace Term

inductive Kind where
  | integer
  | boolean
  deriving DecidableEq, Repr

/-- What a term evaluates to. A comparison is the only truth value; it is converted, or it is a
condition. -/
def kind? : Term → Option Kind
  | literal _ => some .integer
  | oparg => some .integer
  | binary op lhs rhs =>
      if lhs.kind? = some .integer ∧ rhs.kind? = some .integer then
        some (if compares op then .boolean else .integer)
      else none
  | converted condition => if condition.kind? = some .boolean then some .integer else none
  | ifElse condition thenBranch elseBranch =>
      if condition.kind? = some .boolean ∧ thenBranch.kind? = some .integer ∧
          elseBranch.kind? = some .integer then
        some .integer
      else none

/-- The stack expression that a term stands for, if its literals are in range. Converted or not, a
comparison is one or zero. -/
def toExpr? : Term → Option Expr
  | literal value => (narrow value).map Expr.const
  | oparg => some .oparg
  | binary op lhs rhs => do return .binary op (← lhs.toExpr?) (← rhs.toExpr?)
  | converted condition => condition.toExpr?
  | ifElse condition thenBranch elseBranch => do
      return .ifElse (← condition.toExpr?) (← thenBranch.toExpr?) (← elseBranch.toExpr?)

end Term

/-! ### The grammar -/

/-- How tightly the expression of a block holds together at least: a conditional at its beginning
ends like a statement, and no operator takes it up. -/
def bodyPower (ts : List Token) : Nat := if ts.head? = some (.name "if") then 8 else 1

/-- `Phrase strength ts t`: the tokens are an expression with the tree `t`, of which the operators
outside brackets bind at least as tightly as `strength`. -/
inductive Phrase : Nat → List Token → Term → Prop
  | literal {strength : Nat} (n : Nat) : Phrase strength [.number n] (.literal n)
  | negative {strength : Nat} (n : Nat) : Phrase strength [.symbol "-", .number n] (.literal (-n))
  | oparg {strength : Nat} : Phrase strength [.name "oparg"] .oparg
  | parentheses {strength : Nat} {ts : List Token} {t : Term} (inner : Phrase 1 ts t) :
      Phrase strength (.symbol "(" :: ts ++ [.symbol ")"]) t
  | conversion {strength : Nat} {ts : List Token} {t : Term} (inner : Phrase 1 ts t) :
      Phrase strength
        (.name "i64" :: .symbol "::" :: .name "from" :: .symbol "(" :: ts ++ [.symbol ")"])
        (.converted t)
  | conditional {strength : Nat} {conditionTokens thenTokens elseTokens : List Token}
      {condition thenBranch elseBranch : Term} (hcondition : Phrase 1 conditionTokens condition)
      (hthen : Phrase (bodyPower thenTokens) thenTokens thenBranch)
      (helse : Phrase (bodyPower elseTokens) elseTokens elseBranch) :
      Phrase strength
        (.name "if" :: conditionTokens ++ .symbol "\x7b" :: thenTokens ++
          .symbol "\x7d" :: .name "else" :: .symbol "\x7b" :: elseTokens ++ [.symbol "\x7d"])
        (.ifElse condition thenBranch elseBranch)
  | operation {strength : Nat} {op : Operator} {left right : List Token} {lhs rhs : Term}
      (strong : strength ≤ power op) (hleft : Phrase (leftPower op) left lhs)
      (hright : Phrase (power op + 1) right rhs) :
      Phrase strength (left ++ .symbol (symbol op) :: right) (.binary op lhs rhs)

def Reads (text : String) (t : Term) : Prop := Phrase 1 (tokens text.toList) t

variable {ts rest : List Token} {t u : Term} {strength weaker : Nat}

theorem Phrase.of_le (h : Phrase strength ts t) (hle : weaker ≤ strength) : Phrase weaker ts t := by
  cases h with
  | literal n => exact .literal n
  | negative n => exact .negative n
  | oparg => exact .oparg
  | parentheses inner => exact .parentheses inner
  | conversion inner => exact .conversion inner
  | conditional hcondition hthen helse => exact .conditional hcondition hthen helse
  | operation strong hleft hright => exact .operation (Nat.le_trans hle strong) hleft hright

theorem Phrase.ne_nil (h : Phrase strength ts t) : ts ≠ [] := by
  cases h <;> simp

/-! ### Reading by precedence -/

def operator? : Token → Option Operator
  | .symbol text => Operator.all.find? fun op => symbol op = text
  | _ => none

/-- Reads operators that bind at least as tightly as `least`, with their right operands, up to a
number of them. -/
def readChain (read : Nat → List Token → Option (Term × List Token)) (least : Nat) :
    Nat → Term → List Token → Option (Term × List Token)
  | steps + 1, t, token :: ts =>
      match operator? token with
      | some op =>
          if least ≤ power op then do
            let (rhs, rest) ← read (power op + 1) ts
            readChain read least steps (.binary op t rhs) rest
          else some (t, token :: ts)
      | none => some (t, token :: ts)
  | _, t, ts => some (t, ts)

def readBody (read : Nat → List Token → Option (Term × List Token)) (ts : List Token) :
    Option (Term × List Token) :=
  match read (bodyPower ts) ts with
  | some (t, .symbol "\x7d" :: rest) => some (t, rest)
  | _ => none

def readOperand (read : Nat → List Token → Option (Term × List Token)) :
    List Token → Option (Term × List Token)
  | .number n :: rest => some (.literal n, rest)
  | .symbol "-" :: .number n :: rest => some (.literal (-n), rest)
  | .name "oparg" :: rest => some (.oparg, rest)
  | .symbol "(" :: ts =>
      match read 1 ts with
      | some (t, .symbol ")" :: rest) => some (t, rest)
      | _ => none
  | .name "i64" :: .symbol "::" :: .name "from" :: .symbol "(" :: ts =>
      match read 1 ts with
      | some (t, .symbol ")" :: rest) => some (.converted t, rest)
      | _ => none
  | .name "if" :: ts =>
      match read 1 ts with
      | some (condition, .symbol "\x7b" :: rest) =>
          match readBody read rest with
          | some (thenBranch, .name "else" :: .symbol "\x7b" :: rest) => do
              let (elseBranch, rest) ← readBody read rest
              return (.ifElse condition thenBranch elseBranch, rest)
          | _ => none
      | _ => none
  | _ => none

/-- Reads an expression at the beginning of some tokens. The first number bounds the depth. -/
def read : Nat → Nat → List Token → Option (Term × List Token)
  | 0, _, _ => none
  | fuel + 1, least, ts => do
      let (t, rest) ← readOperand (read fuel) ts
      readChain (read fuel) least rest.length t rest

/-! ### What the grammar allows is read -/

def nextOperator? (ts : List Token) : Option Operator := ts.head?.bind operator?

/-- Behind a phrase, no operator that could belong to it, or that it could not be an operand of. -/
def Stops (strength : Nat) (ts : List Token) : Prop :=
  ∀ op ∈ nextOperator? ts, 2 ≤ strength ∧ power op ≤ strength

theorem operator?_symbol (op : Operator) : operator? (.symbol (symbol op)) = some op := by
  cases op <;> decide

theorem nextOperator?_symbol (op : Operator) (ts : List Token) :
    nextOperator? (.symbol (symbol op) :: ts) = some op :=
  operator?_symbol op

theorem stops_of_eq_none (h : nextOperator? ts = none) (strength : Nat) : Stops strength ts := by
  intro op hop
  rw [h] at hop
  cases hop

theorem stops_leftPower (op : Operator) (ts : List Token) :
    Stops (leftPower op) (.symbol (symbol op) :: ts) := by
  intro op' hop'
  rw [nextOperator?_symbol] at hop'
  obtain rfl := Option.some.inj hop'
  cases op <;> decide

variable {inner : Nat → List Token → Option (Term × List Token)} {least steps fuel : Nat}
  {op : Operator}

theorem readChain_of_lt (h : ∀ op ∈ nextOperator? rest, power op < least) (steps : Nat) (t : Term) :
    readChain inner least steps t rest = some (t, rest) := by
  cases steps with
  | zero => rfl
  | succ steps =>
      cases rest with
      | nil => rfl
      | cons token rest =>
          rw [readChain]
          cases hop : operator? token with
          | none => rfl
          | some op => exact if_neg (Nat.not_le_of_lt (h op hop))

theorem readChain_symbol (hle : least ≤ power op) {right : List Token}
    (h : inner (power op + 1) right = some (u, rest)) (steps : Nat) (t : Term) :
    readChain inner least (steps + 1) t (.symbol (symbol op) :: right) =
      readChain inner least steps (.binary op t u) rest := by
  simp only [readChain, operator?_symbol, hle, if_true, h]
  rfl

/-- To read the tokens is to read on with this tree, with enough steps for what follows. -/
def Resumes (strength : Nat) (ts : List Token) (t : Term) : Prop :=
  ∀ (fuel least : Nat) (rest : List Token), ts.length ≤ fuel → least ≤ strength →
    Stops strength rest → ∃ steps, rest.length ≤ steps ∧
      read fuel least (ts ++ rest) = readChain (read (fuel - 1)) least steps t rest

/-- An operand is read by itself. -/
theorem resumes_of_readOperand (hne : ts ≠ [])
    (h : ∀ fuel rest, ts.length ≤ fuel + 1 →
      readOperand (read fuel) (ts ++ rest) = some (t, rest)) :
    Resumes strength ts t := by
  intro fuel least rest hfuel _ _
  have hpos := List.length_pos_iff.2 hne
  obtain ⟨fuel, rfl⟩ := Nat.exists_eq_add_of_le' (Nat.le_trans hpos hfuel)
  refine ⟨rest.length, Nat.le_refl _, ?_⟩
  rw [read, h fuel rest hfuel]
  rfl

/-- In front of a token that is no operator, all of the tokens are read and no more. -/
theorem Resumes.read_eq (h : Resumes strength ts t) (hfuel : ts.length ≤ fuel)
    (hrest : nextOperator? rest = none) : read fuel strength (ts ++ rest) = some (t, rest) := by
  obtain ⟨steps, -, hread⟩ :=
    h fuel strength rest hfuel (Nat.le_refl _) (stops_of_eq_none hrest strength)
  rw [hread]
  refine readChain_of_lt (fun op hop => ?_) steps t
  rw [hrest] at hop
  cases hop

/-- The expression of a block begins like the tokens that it is read from. -/
theorem Resumes.readBody_eq (h : Resumes (bodyPower ts) ts t) (hne : ts ≠ [])
    (hfuel : ts.length ≤ fuel) (rest : List Token) :
    readBody (read fuel) (ts ++ .symbol "\x7d" :: rest) = some (t, rest) := by
  have hpower : bodyPower (ts ++ .symbol "\x7d" :: rest) = bodyPower ts := by
    rw [bodyPower, List.head?_append, List.head?_eq_some_head hne, Option.some_or,
      ← List.head?_eq_some_head hne]
    rfl
  rw [readBody, hpower, h.read_eq hfuel rfl]
  rfl

theorem Resumes.operation {left right : List Token} {lhs rhs : Term} (strong : strength ≤ power op)
    (hleft : Resumes (leftPower op) left lhs) (hright : Resumes (power op + 1) right rhs)
    (hne : left ≠ []) :
    Resumes strength (left ++ .symbol (symbol op) :: right) (.binary op lhs rhs) := by
  intro fuel least rest hfuel hleast hstops
  have hlength := List.length_pos_iff.2 hne
  simp only [List.length_append, List.length_cons] at hfuel
  have hle : least ≤ power op := Nat.le_trans hleast strong
  obtain ⟨steps, hsteps, hread⟩ :=
    hleft fuel least (.symbol (symbol op) :: (right ++ rest)) (by omega)
      (Nat.le_trans hle (power_le_leftPower op)) (stops_leftPower op _)
  -- What follows is not part of the right operand, which binds tighter than the operator.
  have hrest : ∀ op' ∈ nextOperator? rest, power op' < power op + 1 := fun op' hop' =>
    Nat.lt_succ_of_le (Nat.le_trans (hstops op' hop').2 strong)
  have hrhs : read (fuel - 1) (power op + 1) (right ++ rest) = some (rhs, rest) := by
    obtain ⟨steps, -, hread⟩ := hright (fuel - 1) (power op + 1) rest (by omega) (Nat.le_refl _)
      fun op' hop' => ⟨Nat.le_trans (hstops op' hop').1 (by omega), Nat.le_of_lt (hrest op' hop')⟩
    rw [hread, readChain_of_lt hrest]
  simp only [List.length_cons, List.length_append] at hsteps
  obtain ⟨steps, rfl⟩ := Nat.exists_eq_add_of_le' (Nat.le_trans (Nat.le_add_left 1 _) hsteps)
  refine ⟨steps, by omega, ?_⟩
  rw [List.append_assoc, List.cons_append, hread, readChain_symbol hle hrhs]

theorem Phrase.resumes (h : Phrase strength ts t) : Resumes strength ts t := by
  induction h with
  | literal n => exact resumes_of_readOperand (List.cons_ne_nil _ _) fun _ _ _ => rfl
  | negative n => exact resumes_of_readOperand (List.cons_ne_nil _ _) fun _ _ _ => rfl
  | oparg => exact resumes_of_readOperand (List.cons_ne_nil _ _) fun _ _ _ => rfl
  | @parentheses _ ts t inner ih =>
      refine resumes_of_readOperand (List.cons_ne_nil _ _) fun fuel rest hfuel => ?_
      simp only [List.length_append, List.length_cons, List.length_nil] at hfuel
      have hread : read fuel 1 (ts ++ .symbol ")" :: rest) = some (t, .symbol ")" :: rest) :=
        ih.read_eq (by omega) rfl
      simp only [List.cons_append, List.append_assoc, List.nil_append, readOperand, hread]
  | @conversion _ ts t inner ih =>
      refine resumes_of_readOperand (List.cons_ne_nil _ _) fun fuel rest hfuel => ?_
      simp only [List.length_append, List.length_cons, List.length_nil] at hfuel
      have hread : read fuel 1 (ts ++ .symbol ")" :: rest) = some (t, .symbol ")" :: rest) :=
        ih.read_eq (by omega) rfl
      simp only [List.cons_append, List.append_assoc, List.nil_append, readOperand, hread]
  | @conditional _ conditionTokens thenTokens elseTokens condition thenBranch elseBranch
      hcondition hthen helse ihcondition ihthen ihelse =>
      refine resumes_of_readOperand (by simp) fun fuel rest hfuel => ?_
      simp only [List.length_append, List.length_cons, List.length_nil] at hfuel
      have hread : ∀ rest, read fuel 1 (conditionTokens ++ .symbol "\x7b" :: rest) =
          some (condition, .symbol "\x7b" :: rest) := fun rest => ihcondition.read_eq (by omega) rfl
      have hthen : ∀ rest, readBody (read fuel) (thenTokens ++ .symbol "\x7d" :: rest) =
          some (thenBranch, rest) := ihthen.readBody_eq hthen.ne_nil (by omega)
      have helse : ∀ rest, readBody (read fuel) (elseTokens ++ .symbol "\x7d" :: rest) =
          some (elseBranch, rest) := ihelse.readBody_eq helse.ne_nil (by omega)
      simp only [List.cons_append, List.append_assoc, List.nil_append, readOperand, hread, hthen,
        helse]
      rfl
  | operation strong hleft hright ihleft ihright =>
      exact .operation strong ihleft ihright hleft.ne_nil

/-- An expression has one tree. -/
theorem Phrase.unique (h : Phrase strength ts t) (hu : Phrase strength ts u) : t = u := by
  have hread : ∀ {t}, Phrase strength ts t → read ts.length strength (ts ++ []) = some (t, []) :=
    fun h => h.resumes.read_eq (Nat.le_refl _) rfl
  have ht := hread h
  rw [hread hu] at ht
  cases ht
  rfl

end Bytecode.Rust

import Bytecode.Expr.Parser
import Mathlib.Data.List.DropRight
import Mathlib.Data.List.TakeWhile

/-!
# The grammar of expressions

Which texts spell an expression, apart from any reader. A literal and an identifier are as long as
the characters allow, so whether a text spells an expression hangs on the character that follows it.
The strength of a text bounds how tightly its operators outside brackets bind: the left operand of
an operator is as strong as the operator, the right operand is stronger.
-/

namespace Bytecode

/-! ### Operators -/

namespace Operator

def text : Operator → List Char
  | mul => ['*']
  | div => ['/']
  | rem => ['%']
  | add => ['+']
  | sub => ['-']
  | shiftLeft => ['<', '<']
  | shiftRight => ['>', '>']
  | bitAnd => ['&']
  | bitXor => ['^']
  | bitOr => ['|']
  | eq => ['=', '=']
  | ne => ['!', '=']
  | lt => ['<']
  | le => ['<', '=']
  | gt => ['>']
  | ge => ['>', '=']

/-- The level of an operator. Those of the seventh bind the tightest. -/
def level : Operator → Nat
  | mul | div | rem => 7
  | add | sub => 6
  | shiftLeft | shiftRight => 5
  | bitAnd => 4
  | bitXor => 3
  | bitOr => 2
  | eq | ne | lt | le | gt | ge => 1

theorem toList_symbol (op : Operator) : op.symbol.toList = op.text := by
  cases op <;> rfl

theorem precedence_eq_level (op : Operator) : op.precedence = op.level + 3 := by
  cases op <;> rfl

end Operator

namespace Expr

open Text (isBlank isHexDigit isIdentifierContinue skipBlanks ofDigits)

/-! ### Texts -/

def Blanks (cs : List Char) : Prop := ∀ c ∈ cs, isBlank c = true

/-- A text of characters of a class that the next character would not continue. -/
structure Run (member : Char → Bool) (next : Option Char) (cs : List Char) : Prop where
  nonempty : cs ≠ []
  members : ∀ c ∈ cs, member c = true
  maximal : ∀ c ∈ next, member c = false

/-- `Spells strength next text e`: where the character `next` follows, or nothing, the text spells
`e`, with operators outside brackets that bind at least as tightly as `strength`. -/
inductive Spells : Nat → Option Char → List Char → Expr → Prop
  | decimal {strength : Nat} {next : Option Char} {digits : List Char} {value : Int64}
      (run : Run Char.isDigit next digits) (fits : value.toInt = ofDigits 10 digits) :
      Spells strength next digits (const value)
  | hexadecimal {strength : Nat} {next : Option Char} {x : Char} {digits : List Char}
      {value : Int64} (hx : x = 'x' ∨ x = 'X') (run : Run isHexDigit next digits)
      (fits : value.toInt = ofDigits 16 digits) :
      Spells strength next ('0' :: x :: digits) (const value)
  | identifier {strength : Nat} {next : Option Char}
      (run : Run isIdentifierContinue next ['o', 'p', 'a', 'r', 'g']) :
      Spells strength next ['o', 'p', 'a', 'r', 'g'] oparg
  | parentheses {strength : Nat} {next : Option Char} {text : List Char} {e : Expr}
      (inner : Spells 0 (some ')') text e) :
      Spells strength next ('(' :: text ++ [')']) e
  | conditional {strength : Nat} {next : Option Char} {blank : Char}
      {conditionText thenText beforeElse afterElse elseText : List Char}
      {condition thenBranch elseBranch : Expr} (hblank : isBlank blank = true)
      (hcondition : Spells 0 (some '\x7b') conditionText condition)
      (hthen : Spells 0 (some '\x7d') thenText thenBranch)
      (hbefore : Blanks beforeElse) (hafter : Blanks afterElse)
      (helse : Spells 0 (some '\x7d') elseText elseBranch) :
      Spells strength next
        ('i' :: 'f' :: blank :: conditionText ++ '\x7b' :: thenText ++ '\x7d' :: beforeElse ++
          ['e', 'l', 's', 'e'] ++ afterElse ++ '\x7b' :: elseText ++ ['\x7d'])
        (ifElse condition thenBranch elseBranch)
  | operation {strength : Nat} {next : Option Char} {op : Operator} {left right : List Char}
      {lhs rhs : Expr} (strong : strength ≤ op.level)
      (hleft : Spells op.level op.text.head? left lhs)
      (hright : Spells (op.level + 1) next right rhs) :
      Spells strength next (left ++ op.text ++ right) (binary op lhs rhs)
  | padded {strength : Nat} {next : Option Char} {before text after : List Char} {e : Expr}
      (leading : Blanks before) (inner : Spells strength (after.head?.or next) text e)
      (trailing : Blanks after) :
      Spells strength next (before ++ text ++ after) e

variable {strength weaker : Nat} {next : Option Char} {text cs bs : List Char} {e : Expr}
  {member : Char → Bool}

/-! ### Blanks -/

theorem Blanks.nil : Blanks [] := fun _ h => nomatch h

theorem Blanks.singleton {c : Char} (h : isBlank c = true) : Blanks [c] := by
  intro d hd
  rwa [List.mem_singleton.1 hd]

theorem isBlank_of_isHexDigit {c : Char} (h : isHexDigit c = true) : isBlank c = false := by
  have hnone : (Text.blankChars.all fun c => !isHexDigit c) = true := by decide
  refine Bool.eq_false_iff.2 fun hblank => ?_
  have hmem : c ∈ Text.blankChars := by simpa only [isBlank, List.contains_iff_mem] using hblank
  have hc := List.all_eq_true.1 hnone c hmem
  rw [h] at hc
  cases hc

theorem isHexDigit_of_isDigit {c : Char} (h : c.isDigit = true) : isHexDigit c = true := by
  simp only [isHexDigit, h, Bool.true_or]

theorem exists_blanks (cs : List Char) : ∃ bs, Blanks bs ∧ cs = bs ++ skipBlanks cs :=
  ⟨cs.takeWhile isBlank, fun _ hc => List.mem_takeWhile_imp hc,
    List.takeWhile_append_dropWhile.symm⟩

theorem skipBlanks_append (h : Blanks bs) (cs : List Char) :
    skipBlanks (bs ++ cs) = skipBlanks cs :=
  List.dropWhile_append_of_pos h

theorem skipBlanks_cons {c : Char} (h : isBlank c = false) (cs : List Char) :
    skipBlanks (c :: cs) = c :: cs := by
  simp [skipBlanks, h]

theorem skipBlanks_skipBlanks (cs : List Char) : skipBlanks (skipBlanks cs) = skipBlanks cs :=
  List.dropWhile_idempotent isBlank cs

theorem skipBlanks_append_of_ne_nil (h : skipBlanks cs ≠ []) (bs : List Char) :
    skipBlanks (cs ++ bs) = skipBlanks cs ++ bs := by
  have hempty : (skipBlanks cs).isEmpty = false := List.isEmpty_eq_false_iff.2 h
  rw [skipBlanks] at hempty
  rw [skipBlanks, List.dropWhile_append, hempty]
  rfl

theorem length_skipBlanks_append_le (bs cs : List Char) :
    (skipBlanks cs).length ≤ (skipBlanks (bs ++ cs)).length := by
  by_cases h : skipBlanks bs = []
  · rw [skipBlanks_append (List.dropWhile_eq_nil_iff.1 h)]
  · have hlength := Text.length_skipBlanks_le cs
    rw [skipBlanks_append_of_ne_nil h, List.length_append]
    omega

/-! ### Phrases -/

/-- A text may stand wherever all operators that it may hold are strong enough. -/
theorem Spells.weaken (h : Spells strength next text e)
    (hweaker : ∀ op : Operator, strength ≤ op.level → weaker ≤ op.level) :
    Spells weaker next text e := by
  induction h with
  | decimal run fits => exact .decimal run fits
  | hexadecimal hx run fits => exact .hexadecimal hx run fits
  | identifier run => exact .identifier run
  | parentheses inner => exact .parentheses inner
  | conditional hblank hcondition hthen hbefore hafter helse =>
      exact .conditional hblank hcondition hthen hbefore hafter helse
  | operation strong hleft hright => exact .operation (hweaker _ strong) hleft hright
  | padded leading _ trailing ih => exact .padded leading (ih hweaker) trailing

theorem Spells.of_le (h : Spells strength next text e) (hle : weaker ≤ strength) :
    Spells weaker next text e :=
  h.weaken fun _ hop => Nat.le_trans hle hop

theorem Spells.lead (h : Spells strength next text e) (hbs : Blanks bs) :
    Spells strength next (bs ++ text) e := by
  have hpadded : Spells strength next (bs ++ text ++ []) e := .padded hbs h .nil
  rwa [List.append_nil] at hpadded

theorem Spells.trail (h : Spells strength (bs ++ cs).head? text e) (hbs : Blanks bs) :
    Spells strength cs.head? (text ++ bs) e := by
  rw [List.head?_append] at h
  exact .padded .nil h hbs

/-- No text begins like an operator that could be longer. -/
theorem Spells.head (h : Spells strength next text e) :
    ∃ c rest, text = c :: rest ∧ c ∉ ['<', '=', '>'] := by
  have hblank : ∀ c, isBlank c = true → c ∉ ['<', '=', '>'] := by
    intro c hc hmem
    simp only [List.mem_cons, List.not_mem_nil, or_false] at hmem
    rcases hmem with rfl | rfl | rfl <;> revert hc <;> decide
  induction h with
  | @decimal _ _ digits _ run =>
      cases digits with
      | nil => exact absurd rfl run.nonempty
      | cons c digits =>
          refine ⟨c, digits, rfl, fun hmem => ?_⟩
          have hc := run.members c List.mem_cons_self
          simp only [List.mem_cons, List.not_mem_nil, or_false] at hmem
          rcases hmem with rfl | rfl | rfl <;> revert hc <;> decide
  | hexadecimal => exact ⟨_, _, rfl, by decide⟩
  | identifier => exact ⟨_, _, rfl, by decide⟩
  | parentheses => exact ⟨_, _, rfl, by decide⟩
  | conditional => exact ⟨_, _, rfl, by decide⟩
  | operation _ _ _ ih =>
      obtain ⟨c, rest, rfl, hc⟩ := ih
      exact ⟨c, _, rfl, hc⟩
  | @padded _ _ before _ _ _ leading _ _ ih =>
      obtain ⟨c, rest, rfl, hc⟩ := ih
      cases before with
      | nil => exact ⟨c, _, rfl, hc⟩
      | cons b before => exact ⟨b, _, rfl, hblank b (leading b List.mem_cons_self)⟩

end Expr

end Bytecode

/-!
# Operators of stack expressions

Sixteen binary operators on 64-bit signed integers. Applying one is partial: it is undefined
where the exact result leaves the range, where a divisor is zero, and where a shift count is
out of bounds; nothing wraps.
-/

namespace Bytecode

/-- The 64-bit integer equal to `n`, if there is one. -/
def narrow (n : Int) : Option Int64 :=
  if Int64.minValue.toInt ≤ n ∧ n ≤ Int64.maxValue.toInt then some (Int64.ofInt n) else none

theorem narrow_eq_some_iff {n : Int} {v : Int64} : narrow n = some v ↔ v.toInt = n := by
  constructor
  · intro h
    unfold narrow at h
    split at h
    · next hn =>
        cases h
        refine Int64.toInt_ofInt_of_le ?_ ?_
        · simpa using hn.1
        · have hi : n ≤ 9223372036854775807 := hn.2
          omega
    · contradiction
  · rintro rfl
    have hn : Int64.minValue.toInt ≤ v.toInt ∧ v.toInt ≤ Int64.maxValue.toInt :=
      ⟨Int64.minValue_le_toInt v, Int64.toInt_le v⟩
    rw [narrow, if_pos hn, Int64.ofInt_toInt]

theorem narrow_toInt (v : Int64) : narrow v.toInt = some v := narrow_eq_some_iff.2 rfl

def truth (b : Bool) : Int64 := if b then 1 else 0

inductive Operator where
  | mul
  | div
  | rem
  | add
  | sub
  | shiftLeft
  | shiftRight
  | bitAnd
  | bitXor
  | bitOr
  | eq
  | ne
  | lt
  | le
  | gt
  | ge
  deriving DecidableEq, Repr

namespace Operator

def symbol : Operator → String
  | mul => "*"
  | div => "/"
  | rem => "%"
  | add => "+"
  | sub => "-"
  | shiftLeft => "<<"
  | shiftRight => ">>"
  | bitAnd => "&"
  | bitXor => "^"
  | bitOr => "|"
  | eq => "=="
  | ne => "!="
  | lt => "<"
  | le => "<="
  | gt => ">"
  | ge => ">="

/-- Binding strength; the higher binds tighter. -/
def precedence : Operator → Nat
  | mul | div | rem => 10
  | add | sub => 9
  | shiftLeft | shiftRight => 8
  | bitAnd => 7
  | bitXor => 6
  | bitOr => 5
  | eq | ne | lt | le | gt | ge => 4

def isComparison (op : Operator) : Bool := op.precedence = 4

def all : List Operator :=
  [mul, div, rem, add, sub, shiftLeft, shiftRight, bitAnd, bitXor, bitOr, eq, ne, lt, le, gt, ge]

theorem mem_all (op : Operator) : op ∈ all := by cases op <;> decide

def ofSymbol? (symbol : String) : Option Operator := all.find? fun op => op.symbol = symbol

/-- The value of `lhs op rhs`. Division and remainder truncate towards zero, a left shift is a
multiplication by a power of two, and a right shift keeps the sign. The remainder of the least
integer by minus one counts as overflow, as the quotient does. -/
def apply (op : Operator) (lhs rhs : Int64) : Option Int64 :=
  match op with
  | mul => narrow (lhs.toInt * rhs.toInt)
  | div => if rhs = 0 then none else narrow (lhs.toInt.tdiv rhs.toInt)
  | rem =>
      if rhs = 0 ∨ lhs = Int64.minValue ∧ rhs = -1 then none
      else narrow (lhs.toInt.tmod rhs.toInt)
  | add => narrow (lhs.toInt + rhs.toInt)
  | sub => narrow (lhs.toInt - rhs.toInt)
  | shiftLeft =>
      if 0 ≤ rhs.toInt ∧ rhs.toInt < 63 then narrow (lhs.toInt <<< rhs.toInt.toNat) else none
  | shiftRight => if 0 ≤ rhs.toInt ∧ rhs.toInt < 64 then some (lhs >>> rhs) else none
  | bitAnd => some (lhs &&& rhs)
  | bitXor => some (lhs ^^^ rhs)
  | bitOr => some (lhs ||| rhs)
  | eq => some (truth (lhs = rhs))
  | ne => some (truth (lhs ≠ rhs))
  | lt => some (truth (lhs < rhs))
  | le => some (truth (lhs ≤ rhs))
  | gt => some (truth (lhs > rhs))
  | ge => some (truth (lhs ≥ rhs))

end Operator

end Bytecode

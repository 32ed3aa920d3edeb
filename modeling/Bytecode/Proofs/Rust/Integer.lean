import Bytecode.Expr.Basic
import Bytecode.Proofs.Rust.Operator
import Mathlib.Algebra.Group.Int.Defs
import Mathlib.Algebra.Group.Nat.Defs

/-!
# Integers of the emitted language

The two signed integer types that the text of a stack expression is evaluated in, with their
operators. A result outside the type is a panic, as a shift by the width or more is; a left shift
drops the bits above the type and goes on. On operands that a type holds, its operators agree with
those of stack expressions exactly as far as they stay in the type.
-/

namespace Bytecode

/-- Whether the right operand counts the places by which the left one is shifted. -/
def Operator.isShift : Operator → Bool
  | shiftLeft | shiftRight => true
  | _ => false

namespace Rust

inductive IntType where
  | i32
  | i64
  deriving DecidableEq, Repr

namespace IntType

def bits : IntType → Nat
  | i32 => 32
  | i64 => 64

def Holds (type : IntType) (n : Int) : Prop :=
  -2 ^ (type.bits - 1) ≤ n ∧ n < 2 ^ (type.bits - 1)

instance (type : IntType) (n : Int) : Decidable (type.Holds n) :=
  inferInstanceAs (Decidable (_ ∧ _))

def checked (type : IntType) (n : Int) : Option Int := if type.Holds n then some n else none

def bitwise (type : IntType) (f : BitVec type.bits → BitVec type.bits → BitVec type.bits)
    (a b : Int) : Int :=
  (f (BitVec.ofInt type.bits a) (BitVec.ofInt type.bits b)).toInt

/-- The value of `a op b`, where the result has this type; there is none where the operation panics.
The remainder panics where the quotient overflows. A comparison is one or zero. -/
def apply (type : IntType) (op : Operator) (a b : Int) : Option Int :=
  match op with
  | .mul => type.checked (a * b)
  | .div => if b = 0 then none else type.checked (a.tdiv b)
  | .rem => if b = 0 ∨ ¬ type.Holds (a.tdiv b) then none else some (a.tmod b)
  | .add => type.checked (a + b)
  | .sub => type.checked (a - b)
  | .shiftLeft =>
      if 0 ≤ b ∧ b < type.bits then some ((a * 2 ^ b.toNat).bmod (2 ^ type.bits)) else none
  | .shiftRight => if 0 ≤ b ∧ b < type.bits then some (a >>> b.toNat) else none
  | .bitAnd => some (type.bitwise (· &&& ·) a b)
  | .bitXor => some (type.bitwise (· ^^^ ·) a b)
  | .bitOr => some (type.bitwise (· ||| ·) a b)
  | .eq => some (decide (a = b)).toInt
  | .ne => some (decide (a ≠ b)).toInt
  | .lt => some (decide (a < b)).toInt
  | .le => some (decide (a ≤ b)).toInt
  | .gt => some (decide (a > b)).toInt
  | .ge => some (decide (a ≥ b)).toInt

def KeepsBits (type : IntType) (op : Operator) (a b : Int) : Prop :=
  op = .shiftLeft → type.Holds (a * 2 ^ b.toNat)

/-- The exact operation stays in the type. -/
def Admits (type : IntType) (op : Operator) (a b : Int) : Prop :=
  match op with
  | .mul => type.Holds (a * b)
  | .div | .rem => type.Holds (a.tdiv b)
  | .add => type.Holds (a + b)
  | .sub => type.Holds (a - b)
  | .shiftLeft => b < type.bits ∧ type.Holds (a * 2 ^ b.toNat)
  | .shiftRight => b < type.bits
  | _ => True

instance (type : IntType) (op : Operator) (a b : Int) : Decidable (type.Admits op a b) :=
  match op with
  | .mul => inferInstanceAs (Decidable (type.Holds (a * b)))
  | .div | .rem => inferInstanceAs (Decidable (type.Holds (a.tdiv b)))
  | .add => inferInstanceAs (Decidable (type.Holds (a + b)))
  | .sub => inferInstanceAs (Decidable (type.Holds (a - b)))
  | .shiftLeft => inferInstanceAs (Decidable (b < type.bits ∧ type.Holds (a * 2 ^ b.toNat)))
  | .shiftRight => inferInstanceAs (Decidable (b < type.bits))
  | .bitAnd | .bitXor | .bitOr | .eq | .ne | .lt | .le | .gt | .ge => isTrue trivial

variable {type : IntType} {op : Operator} {a b n : Int} {lhs rhs v : Int64}

/-! ### Values of a type -/

theorem bits_le (type : IntType) : type.bits ≤ 64 := by cases type <;> decide

theorem bits_pos (type : IntType) : 0 < type.bits := by cases type <;> decide

theorem holds_toInt (value : Int64) : i64.Holds value.toInt :=
  ⟨value.le_toInt, value.toInt_lt⟩

theorem Holds.to_i64 (h : type.Holds n) : i64.Holds n := by
  cases type with
  | i64 => exact h
  | i32 =>
      simp only [Holds, bits] at h ⊢
      omega

theorem holds_toInt_bitVec (word : BitVec type.bits) : type.Holds word.toInt :=
  ⟨word.le_toInt, word.toInt_lt⟩

theorem holds_toInt_bool (type : IntType) (b : Bool) : type.Holds b.toInt := by
  cases type <;> cases b <;> decide

theorem toInt_ofInt (h : type.Holds n) : (BitVec.ofInt type.bits n).toInt = n :=
  BitVec.toInt_ofInt_eq_self type.bits_pos h.1 h.2

theorem bmod_eq (h : type.Holds n) : n.bmod (2 ^ type.bits) = n := by
  rw [← BitVec.toInt_ofInt, toInt_ofInt h]

theorem checked_eq_some_iff : type.checked a = some n ↔ type.Holds a ∧ a = n := by
  simp [checked]

/-- A word of 64 bits is the word of a narrower type with its sign repeated. -/
theorem signExtend_ofInt (h : type.Holds n) :
    (BitVec.ofInt type.bits n).signExtend 64 = BitVec.ofInt 64 n := by
  have hwide : (BitVec.ofInt 64 n).toInt = n := toInt_ofInt h.to_i64
  refine BitVec.eq_of_toInt_eq ?_
  rw [BitVec.toInt_signExtend_of_le type.bits_le, toInt_ofInt h, hwide]

theorem bitwise_eq {f : BitVec type.bits → BitVec type.bits → BitVec type.bits}
    {g : BitVec 64 → BitVec 64 → BitVec 64}
    (hfg : ∀ x y, (f x y).signExtend 64 = g (x.signExtend 64) (y.signExtend 64))
    (hlhs : type.Holds lhs.toInt) (hrhs : type.Holds rhs.toInt)
    (hv : v.toBitVec = g lhs.toBitVec rhs.toBitVec) :
    type.bitwise f lhs.toInt rhs.toInt = v.toInt := by
  have hword : ∀ value : Int64, BitVec.ofInt 64 value.toInt = value.toBitVec := fun value =>
    BitVec.eq_of_toInt_eq (toInt_ofInt (holds_toInt value))
  rw [bitwise, ← BitVec.toInt_signExtend_of_le type.bits_le, hfg, signExtend_ofInt hlhs,
    signExtend_ofInt hrhs, hword, hword, ← hv, Int64.toInt_toBitVec]

theorem holds_bitwise (f : BitVec type.bits → BitVec type.bits → BitVec type.bits) (a b : Int) :
    type.Holds (type.bitwise f a b) :=
  holds_toInt_bitVec _

/-! ### Operators of a type and of stack expressions -/

theorem toInt_truth (b : Bool) : (truth b).toInt = b.toInt := by cases b <;> rfl

theorem toInt_zero_iff : rhs.toInt = 0 ↔ rhs = 0 := by
  rw [← Int64.toInt_inj]
  rfl

theorem toInt_shiftRight (h : 0 ≤ rhs.toInt ∧ rhs.toInt < 64) :
    (lhs >>> rhs).toInt = lhs.toInt >>> rhs.toInt.toNat := by
  have hcount : (rhs.toBitVec.smod 64).toInt = rhs.toInt := by
    rw [BitVec.toInt_smod, Int64.toInt_toBitVec]
    exact Int.fmod_eq_of_lt h.1 h.2
  have hmsb : (rhs.toBitVec.smod 64).msb = false := by
    rw [BitVec.msb_eq_toInt, hcount]
    exact decide_eq_false (Int.not_lt.2 h.1)
  rw [← Int64.toInt_toBitVec, Int64.toBitVec_shiftRight, BitVec.sshiftRight',
    ← BitVec.toNat_toInt_of_msb _ hmsb, hcount, BitVec.toInt_sshiftRight, Int64.toInt_toBitVec]

theorem Holds.tmod (ha : type.Holds a) (hb : type.Holds b) : type.Holds (a.tmod b) := by
  rw [← toInt_ofInt ha, ← toInt_ofInt hb, ← BitVec.toInt_srem]
  exact holds_toInt_bitVec _

theorem Holds.shiftRight (h : type.Holds a) (k : Nat) : type.Holds (a >>> k) := by
  rw [← toInt_ofInt h, ← BitVec.toInt_sshiftRight]
  exact holds_toInt_bitVec _

/-- Where an exact operation stays in a type, the type's operator computes it. -/
theorem apply_of_admits (hlhs : type.Holds lhs.toInt)
    (hrhs : op.isShift = false → type.Holds rhs.toInt) (hv : op.apply lhs rhs = some v)
    (h : type.Admits op lhs.toInt rhs.toInt) :
    type.apply op lhs.toInt rhs.toInt = some v.toInt ∧ type.Holds v.toInt := by
  cases op with
  | mul | add | sub =>
      rw [narrow_eq_some_iff.1 hv]
      exact ⟨checked_eq_some_iff.2 ⟨h, rfl⟩, h⟩
  | div =>
      obtain ⟨hne, hv⟩ := Option.ite_none_left_eq_some.1 hv
      rw [narrow_eq_some_iff.1 hv, apply, if_neg (hne ∘ toInt_zero_iff.1)]
      exact ⟨checked_eq_some_iff.2 ⟨h, rfl⟩, h⟩
  | rem =>
      obtain ⟨hne, hv⟩ := Option.ite_none_left_eq_some.1 hv
      rw [narrow_eq_some_iff.1 hv, apply, if_neg]
      · exact ⟨rfl, hlhs.tmod (hrhs rfl)⟩
      · rintro (hzero | hquotient)
        · exact hne (.inl (toInt_zero_iff.1 hzero))
        · exact hquotient h
  | shiftLeft =>
      obtain ⟨hcount, hv⟩ := Option.ite_none_right_eq_some.1 hv
      rw [narrow_eq_some_iff.1 hv, Int.shiftLeft_eq, apply, if_pos ⟨hcount.1, h.1⟩, bmod_eq h.2]
      exact ⟨rfl, h.2⟩
  | shiftRight =>
      obtain ⟨hcount, hv⟩ := Option.ite_none_right_eq_some.1 hv
      obtain rfl := Option.some.inj hv
      rw [toInt_shiftRight hcount, apply, if_pos ⟨hcount.1, h⟩]
      exact ⟨rfl, hlhs.shiftRight _⟩
  | bitAnd =>
      obtain rfl := Option.some.inj hv
      rw [← bitwise_eq (fun _ _ => BitVec.signExtend_and) hlhs (hrhs rfl)
        (Int64.toBitVec_and lhs rhs)]
      exact ⟨rfl, holds_bitwise _ _ _⟩
  | bitXor =>
      obtain rfl := Option.some.inj hv
      rw [← bitwise_eq (fun _ _ => BitVec.signExtend_xor) hlhs (hrhs rfl)
        (Int64.toBitVec_xor lhs rhs)]
      exact ⟨rfl, holds_bitwise _ _ _⟩
  | bitOr =>
      obtain rfl := Option.some.inj hv
      rw [← bitwise_eq (fun _ _ => BitVec.signExtend_or) hlhs (hrhs rfl)
        (Int64.toBitVec_or lhs rhs)]
      exact ⟨rfl, holds_bitwise _ _ _⟩
  | eq | ne | lt | le | gt | ge =>
      obtain rfl := Option.some.inj hv
      rw [toInt_truth]
      refine ⟨?_, holds_toInt_bool type _⟩
      simp [apply, Int64.toInt_inj, Int64.lt_iff_toInt_lt, Int64.le_iff_toInt_le]

theorem holds_comparison (h : compares op = true) (hv : op.apply lhs rhs = some v)
    (type : IntType) : type.Holds v.toInt := by
  cases op with
  | eq | ne | lt | le | gt | ge =>
      obtain rfl := Option.some.inj hv
      rw [toInt_truth]
      exact holds_toInt_bool type _
  | mul | div | rem | add | sub | shiftLeft | shiftRight | bitAnd | bitXor | bitOr => cases h

/-- An operator that neither panics nor drops bits has stayed in the type. -/
theorem admits_of_apply (hv : op.apply lhs rhs = some v)
    (h : type.apply op lhs.toInt rhs.toInt = some n)
    (hkeeps : type.KeepsBits op lhs.toInt rhs.toInt) : type.Admits op lhs.toInt rhs.toInt := by
  cases op with
  | mul | add | sub => exact (checked_eq_some_iff.1 h).1
  | div => exact (checked_eq_some_iff.1 (Option.ite_none_left_eq_some.1 h).2).1
  | rem =>
      have hne := (Option.ite_none_left_eq_some.1 h).1
      exact Classical.byContradiction fun hquotient => hne (.inr hquotient)
  | shiftLeft => exact ⟨(Option.ite_none_right_eq_some.1 h).1.2, hkeeps rfl⟩
  | shiftRight => exact (Option.ite_none_right_eq_some.1 h).1.2
  | bitAnd | bitXor | bitOr | eq | ne | lt | le | gt | ge => trivial

/-- Stack expressions are computed on 64 bits. -/
theorem admits_i64 (hv : op.apply lhs rhs = some v) : i64.Admits op lhs.toInt rhs.toInt := by
  cases op with
  | mul | add | sub =>
      have hholds := holds_toInt v
      rwa [narrow_eq_some_iff.1 hv] at hholds
  | div =>
      have hholds := holds_toInt v
      rwa [narrow_eq_some_iff.1 (Option.ite_none_left_eq_some.1 hv).2] at hholds
  | rem =>
      obtain ⟨hne, -⟩ := Option.ite_none_left_eq_some.1 hv
      rw [Admits]
      by_cases hmin : lhs = Int64.minValue
      · have hone : rhs ≠ -1 := fun h => hne (.inr ⟨hmin, h⟩)
        rw [← Int64.toInt_div_of_ne_right _ _ hone]
        exact holds_toInt _
      · rw [← Int64.toInt_div_of_ne_left _ _ hmin]
        exact holds_toInt _
  | shiftLeft =>
      obtain ⟨hcount, hv⟩ := Option.ite_none_right_eq_some.1 hv
      have hholds := holds_toInt v
      rw [narrow_eq_some_iff.1 hv, Int.shiftLeft_eq] at hholds
      exact ⟨by simp only [bits]; omega, hholds⟩
  | shiftRight => exact (Option.ite_none_right_eq_some.1 hv).1.2
  | bitAnd | bitXor | bitOr | eq | ne | lt | le | gt | ge => trivial

end IntType

end Rust

end Bytecode

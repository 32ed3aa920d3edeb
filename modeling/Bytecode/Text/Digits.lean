/-!
# Digits

Numbers written in a base of up to sixteen, most significant digit first.
-/

namespace Bytecode.Text

def isHexDigit (c : Char) : Bool :=
  c.isDigit || ('a' ≤ c && c ≤ 'f') || ('A' ≤ c && c ≤ 'F')

/-- The value of a digit; letters count on from ten in either case. -/
def digitValue (c : Char) : Nat :=
  if c.isDigit then c.toNat - '0'.toNat
  else if c.isLower then c.toNat - 'a'.toNat + 10
  else c.toNat - 'A'.toNat + 10

def ofDigits (base : Nat) (digits : List Char) : Nat :=
  digits.foldl (fun n c => base * n + digitValue c) 0

theorem ofDigits_append_singleton (base : Nat) (digits : List Char) (c : Char) :
    ofDigits base (digits ++ [c]) = base * ofDigits base digits + digitValue c := by
  simp [ofDigits]

theorem digitValue_digitChar : ∀ d, d < 16 → digitValue (Nat.digitChar d) = d := by decide

theorem isHexDigit_digitChar : ∀ d, d < 16 → isHexDigit (Nat.digitChar d) = true := by decide

theorem isHexDigit_of_mem_toDigits {base n : Nat} {c : Char} (hlow : 1 < base) (hhigh : base ≤ 16)
    (hc : c ∈ Nat.toDigits base n) : isHexDigit c = true := by
  induction n using Nat.strongRecOn with
  | ind n ih =>
      rw [Nat.toDigits_eq_if hlow] at hc
      split at hc
      · next hlt =>
          rw [List.mem_singleton.1 hc]
          exact isHexDigit_digitChar n (by omega)
      · next hle =>
          rcases List.mem_append.1 hc with hc | hc
          · exact ih (n / base) (Nat.div_lt_self (by omega) hlow) hc
          · have hlast : n % base < base := Nat.mod_lt n (by omega)
            rw [List.mem_singleton.1 hc]
            exact isHexDigit_digitChar _ (by omega)

/-- The digits of a number are read back. -/
theorem ofDigits_toDigits {base : Nat} (hlow : 1 < base) (hhigh : base ≤ 16) (n : Nat) :
    ofDigits base (Nat.toDigits base n) = n := by
  induction n using Nat.strongRecOn with
  | ind n ih =>
      rw [Nat.toDigits_eq_if hlow]
      split
      · next hlt => simp [ofDigits, digitValue_digitChar n (by omega)]
      · next hle =>
          have hlast : n % base < base := Nat.mod_lt n (by omega)
          rw [ofDigits_append_singleton, ih (n / base) (Nat.div_lt_self (by omega) hlow),
            digitValue_digitChar _ (by omega), Nat.div_add_mod]

def splitAt (separator : Char) : List Char → List (List Char)
  | [] => [[]]
  | c :: cs =>
      if c = separator then [] :: splitAt separator cs
      else
        match splitAt separator cs with
        | part :: parts => (c :: part) :: parts
        | [] => [[c]]

end Bytecode.Text

import Bytecode.Expr.Printer
import Bytecode.Proofs.Expr.Completeness
import Bytecode.Proofs.Expr.Signs

/-!
# The text of an expression spells it

The syntax has no sign, so an expression with a negative literal cannot be written. For every other
expression the text has the parentheses that the grammar needs. Where a literal is negative, its
sign is misplaced, and no text spells anything with a misplaced sign.
-/

namespace Bytecode.Expr

open Text (ofDigits_toDigits)

variable {text : List Char} {e : Expr} {strength : Nat} {next : Option Char}

def literals : Expr → List Int64
  | const value => [value]
  | oparg => []
  | binary _ lhs rhs => lhs.literals ++ rhs.literals
  | ifElse condition thenBranch elseBranch =>
      condition.literals ++ thenBranch.literals ++ elseBranch.literals

/-- A numeral has no sign. -/
theorem Spells.literals_nonneg (h : Spells strength next text e) : ∀ v ∈ e.literals, 0 ≤ v := by
  have hnumeral : ∀ {value : Int64} {n : Nat}, value.toInt = n → ∀ v ∈ [value], 0 ≤ v := by
    intro value n hvalue v hv
    rw [List.mem_singleton.1 hv, Int64.le_iff_toInt_le, hvalue]
    exact Int.natCast_nonneg n
  induction h with
  | decimal _ fits => exact hnumeral fits
  | hexadecimal _ _ fits => exact hnumeral fits
  | identifier => exact fun _ hv => nomatch hv
  | parentheses _ ih => exact ih
  | conditional _ _ _ _ _ _ ihcondition ihthen ihelse =>
      simp only [literals, List.forall_mem_append]
      exact ⟨⟨ihcondition, ihthen⟩, ihelse⟩
  | operation _ _ _ ihleft ihright =>
      simp only [literals, List.forall_mem_append]
      exact ⟨ihleft, ihright⟩
  | padded _ _ _ ih => exact ih

/-! ### The layout of a text -/

theorem converted_plain (e : Expr) (body : String) : e.converted .plain body = body := rfl

theorem toList_bareText_binary (op : Operator) (lhs rhs : Expr) :
    ((binary op lhs rhs).bareText .plain).toList =
      (operandText .plain op false lhs (lhs.bareText .plain)).toList ++ [' '] ++
        op.text ++ ([' '] ++
          (operandText .plain op true rhs (rhs.bareText .plain)).toList) := by
  simp only [bareText, String.toList_append, List.append_assoc, op.toList_symbol]
  rfl

theorem toList_bareText_ifElse (condition thenBranch elseBranch : Expr) :
    ((ifElse condition thenBranch elseBranch).bareText .plain).toList =
      'i' :: 'f' :: ' ' :: ((condition.bareText .plain).toList ++ [' ']) ++
        '\x7b' :: ([' '] ++ (thenBranch.bareText .plain).toList ++ [' ']) ++
        '\x7d' :: [' '] ++ ['e', 'l', 's', 'e'] ++ [' '] ++
        '\x7b' :: ([' '] ++ (elseBranch.bareText .plain).toList ++ [' ']) ++ ['\x7d'] := by
  simp only [bareText, conditionText, converted_plain, String.toList_append, List.append_assoc,
    List.cons_append]
  rfl

theorem toList_bareText_const_of_nonneg {spelling : Spelling} {value : Int64} (h : 0 ≤ value) :
    ((const value).bareText spelling).toList = Nat.toDigits 10 value.toInt.toNat := by
  have hvalue : 0 ≤ value.toInt := Int64.le_iff_toInt_le.1 h
  rw [bareText, Int.toString_eq_repr, Int.repr_eq_if, if_pos hvalue, Nat.toList_repr]

theorem toList_bareText_const_of_neg {spelling : Spelling} {value : Int64} (h : value < 0) :
    ((const value).bareText spelling).toList = '-' :: Nat.toDigits 10 (-value.toInt).toNat := by
  have hvalue : ¬ 0 ≤ value.toInt := by
    have hlt : value.toInt < 0 := Int64.lt_iff_toInt_lt.1 h
    omega
  rw [bareText, Int.toString_eq_repr, Int.repr_eq_if, if_neg hvalue, String.toList_append,
    Nat.toList_repr]
  rfl

/-! ### Texts without a sign -/

/-- The characters of a displayed text that follow an operand. -/
def Follows (next : Option Char) : Prop := ∀ c ∈ next, c = ' ' ∨ c = ')'

theorem Follows.not_mem {member : Char → Bool} (h : Follows next) (hspace : member ' ' = false)
    (hclosing : member ')' = false) : ∀ c ∈ next, member c = false := by
  intro c hc
  rcases h c hc with rfl | rfl
  · exact hspace
  · exact hclosing

theorem follows_space : Follows (some ' ') := by
  rintro c ⟨⟩
  exact .inl rfl

theorem follows_closing : Follows (some ')') := by
  rintro c ⟨⟩
  exact .inr rfl

theorem blanks_space : Blanks [' '] := .singleton (by decide)

theorem spells_const {value : Int64} (h : 0 ≤ value) (hnext : Follows next) :
    Spells strength next ((const value).bareText .plain).toList (const value) := by
  have hvalue : 0 ≤ value.toInt := Int64.le_iff_toInt_le.1 h
  rw [toList_bareText_const_of_nonneg h]
  refine .decimal ⟨Nat.toDigits_ne_nil, fun c hc => ?_, ?_⟩ ?_
  · exact Nat.isDigit_of_mem_toDigits (by decide) (Nat.le_refl _) hc
  · exact hnext.not_mem (by decide) (by decide)
  · rw [ofDigits_toDigits (by decide) (by decide)]
    omega

/-- Parentheses stand wherever the text alone would not be strong enough. Texts hold together from
zero on, and operators from four on, so that the first level is three below. -/
theorem spells_operandText {parent : Operator} {right : Bool}
    (h : ∀ next, Follows next →
      Spells (e.tightness .plain - 3) next (e.bareText .plain).toList e)
    (hstrength : strength = if right then parent.level + 1 else parent.level)
    (hnext : Follows next) :
    Spells strength next (operandText .plain parent right e (e.bareText .plain)).toList e := by
  unfold operandText
  dsimp only
  rw [converted_plain]
  split
  · next hparens =>
      have henclosed := (h _ follows_closing).of_le (Nat.zero_le _)
      rw [String.toList_append, String.toList_append]
      exact .parentheses henclosed
  · next hparens =>
      refine (h _ hnext).of_le ?_
      simp only [needsParens, Bool.or_eq_true, Bool.and_eq_true, decide_eq_true_eq] at hparens
      rw [parent.precedence_eq_level] at hparens
      have hle : parent.level + 3 ≤ e.tightness .plain :=
        Nat.le_of_not_lt fun hlt => hparens (.inl hlt)
      subst hstrength
      cases right with
      | false => exact Nat.le_sub_of_add_le hle
      | true =>
          have hne : e.tightness .plain ≠ parent.level + 3 := fun heq =>
            hparens (.inr ⟨heq, .inl rfl⟩)
          rw [if_pos rfl]
          omega

/-- A text without a sign spells its expression, wherever an operand may end behind it. -/
theorem spells_bareText (h : ∀ v ∈ e.literals, 0 ≤ v) (hnext : Follows next) :
    Spells (e.tightness .plain - 3) next (e.bareText .plain).toList e := by
  induction e generalizing next with
  | const value => exact spells_const (h value (List.mem_singleton_self _)) hnext
  | oparg =>
      refine .identifier ⟨by decide, List.all_eq_true.1 (by decide), ?_⟩
      exact hnext.not_mem (by decide) (by decide)
  | binary op lhs rhs ihlhs ihrhs =>
      simp only [literals, List.forall_mem_append] at h
      have hleft : Spells op.level (some ' ')
          (operandText .plain op false lhs (lhs.bareText .plain)).toList lhs :=
        spells_operandText (fun _ => ihlhs h.1) rfl follows_space
      have hright : Spells (op.level + 1) next
          (operandText .plain op true rhs (rhs.bareText .plain)).toList rhs :=
        spells_operandText (fun _ => ihrhs h.2) rfl hnext
      have hstrength : (binary op lhs rhs).tightness .plain - 3 = op.level :=
        congrArg (· - 3) op.precedence_eq_level
      rw [toList_bareText_binary, hstrength]
      exact .operation (Nat.le_refl _) (.trail hleft blanks_space) (hright.lead blanks_space)
  | ifElse condition thenBranch elseBranch ihcondition ihthen ihelse =>
      simp only [literals, List.forall_mem_append] at h
      have hwithin : ∀ (part : Expr) (closing : Char),
          Spells (part.tightness .plain - 3) (some ' ') (part.bareText .plain).toList part →
            Spells 0 (some closing) ((part.bareText .plain).toList ++ [' ']) part := by
        intro part closing hpart
        have htrail : Spells 0 [closing].head? ((part.bareText .plain).toList ++ [' ']) part :=
          .trail (hpart.of_le (Nat.zero_le _)) blanks_space
        exact htrail
      rw [toList_bareText_ifElse]
      exact .conditional (by decide) (hwithin _ _ (ihcondition h.1.1 follows_space))
        ((hwithin _ _ (ihthen h.1.2 follows_space)).lead blanks_space)
        blanks_space blanks_space
        ((hwithin _ _ (ihelse h.2 follows_space)).lead blanks_space)

/-! ### Texts with a sign -/

theorem misplaced_operandText (parent : Operator) (right : Bool)
    (h : Misplaced (e.bareText .plain).toList) :
    Misplaced (operandText .plain parent right e (e.bareText .plain)).toList := by
  unfold operandText
  dsimp only
  rw [converted_plain]
  split
  · rw [String.toList_append, String.toList_append]
    exact (h.behind (not_closes_append ['('] (by decide) fun _ => rfl) []).append _
  · exact h

/-- The sign of a literal is behind a bracket, an operator or `if`, or begins the text. -/
theorem misplaced_bareText (h : ∃ v ∈ e.literals, v < 0) :
    Misplaced (e.bareText .plain).toList := by
  induction e with
  | const value =>
      obtain ⟨v, hv, hneg⟩ := h
      rw [List.mem_singleton.1 hv] at hneg
      rw [toList_bareText_const_of_neg hneg]
      exact misplaced_minus _
  | oparg =>
      obtain ⟨v, hv, -⟩ := h
      cases hv
  | binary op lhs rhs ihlhs ihrhs =>
      simp only [literals, List.mem_append, or_and_right, exists_or] at h
      rw [toList_bareText_binary]
      rcases h with h | h
      · exact (((misplaced_operandText op false (ihlhs h)).append _).append _).append _
      · have hoperator : ∀ before, ¬ Closes (before ++ (op.text ++ [' '])) := by
          cases op <;> exact not_closes_append _ (by decide) fun _ => rfl
        have hbehind := (misplaced_operandText op true (ihrhs h)).behind hoperator
        rw [List.append_assoc _ op.text, ← List.append_assoc op.text]
        exact hbehind _
  | ifElse condition thenBranch elseBranch ihcondition ihthen ihelse =>
      simp only [literals, List.mem_append, or_and_right, exists_or] at h
      have hif : ∀ before, ¬ Closes (before ++ ['i', 'f', ' ']) :=
        not_closes_append _ (by decide) fun _ => rfl
      have hbrace : ∀ before, ¬ Closes (before ++ ['\x7b', ' ']) :=
        not_closes_append _ (by decide) fun _ => rfl
      rw [toList_bareText_ifElse]
      rcases h with (h | h) | h
      · have hbehind := ((ihcondition h).append [' ']).behind hif []
        exact (((((hbehind.append _).append _).append _).append _).append _).append _
      · have hbehind := ((ihthen h).append [' ']).behind hbrace
        exact (((((hbehind _).append _).append _).append _).append _).append _
      · have hbehind := ((ihelse h).append [' ']).behind hbrace
        exact (hbehind _).append _

/-- An expression is read back from its text exactly where no literal is negative; the text of any
other expression is not read at all. -/
theorem parseFor_display (owner : String) (e : Expr) :
    ((∀ v ∈ e.literals, 0 ≤ v) → parseFor owner e.display = .ok e) ∧
    ((∃ v ∈ e.literals, v < 0) → ∃ span message,
      parseFor owner e.display = .error (.invalidExpression owner e.display span message)) ∧
    ∀ text, parseFor owner text = .ok e → parseFor owner e.display = .ok e := by
  have hread : (∀ v ∈ e.literals, 0 ≤ v) → parseFor owner e.display = .ok e := by
    intro h
    have hspells := spells_bareText h (fun _ hc => nomatch hc : Follows none)
    exact parseFor_eq_ok_iff.2 (parse_eq_ok_iff.2 (hspells.of_le (Nat.zero_le _)))
  refine ⟨hread, fun h => ?_, fun text htext => ?_⟩
  · cases hparse : parse e.display with
    | ok e' =>
        -- Nothing is before the whole text, so its misplaced sign has no operand.
        have hguarded := (parse_eq_ok_iff.1 hparse).guarded
        exact absurd hguarded (misplaced_bareText h [] (by decide))
    | error span =>
        unfold parseFor
        rw [hparse]
        exact ⟨span, _, rfl⟩
  · exact hread (parse_eq_ok_iff.1 (parseFor_eq_ok_iff.1 htext)).literals_nonneg

/-- The grouping to the right is read back, and a negative literal is not. -/
theorem parseFor_display_differences :
    parseFor "SWAP" (display (binary .sub one (binary .sub oparg one))) =
      .ok (binary .sub one (binary .sub oparg one)) ∧
    ∃ span message, parseFor "SWAP" (display (binary .sub oparg (const (-1)))) =
      .error (.invalidExpression "SWAP" (display (binary .sub oparg (const (-1)))) span message) :=
  ⟨(parseFor_display "SWAP" _).1 (by simp [literals, one]),
    (parseFor_display "SWAP" _).2.1 ⟨-1, by simp [literals], by decide⟩⟩

end Bytecode.Expr

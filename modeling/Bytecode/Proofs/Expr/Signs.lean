import Bytecode.Proofs.Expr.Grammar

/-!
# Where a minus may stand

The grammar has no sign: every minus of a text that spells an expression stands behind an operand,
and the text is called guarded. A text is misplaced when some minus of it has no operand before it,
unless the text stands behind an operand itself.
-/

namespace Bytecode.Expr

open Text (isBlank isHexDigit skipBlanks)

variable {cs bs text : List Char} {e : Expr} {strength : Nat} {next : Option Char}

/-! ### Where an operand ends -/

/-- Whether an operand ends here, read backwards: with a digit, a bracket, the `g` of `oparg` or a
hexadecimal digit that is not the `f` of `if`. -/
def endsOperand : List Char → Bool
  | [] => false
  | c :: before =>
      c.isDigit || c == ')' || c == '\x7d' || c == 'g' ||
        (isHexDigit c && before.head?.any (· != 'i'))

/-- An operand ends at the end of the text, apart from blanks. -/
def Closes (cs : List Char) : Prop := endsOperand (skipBlanks cs.reverse) = true

instance (cs : List Char) : Decidable (Closes cs) := inferInstanceAs (Decidable (_ = true))

/-- Before every minus an operand ends. -/
def Guarded (text : List Char) : Prop :=
  ∀ before after, text = before ++ '-' :: after → Closes before

theorem endsOperand_append (h : endsOperand cs = true) (bs : List Char) :
    endsOperand (cs ++ bs) = true := by
  cases cs with
  | nil => cases h
  | cons c before =>
      cases before with
      | nil =>
          simp only [endsOperand, List.head?_nil, Option.any_none, Bool.and_false,
            Bool.or_false] at h
          simp only [List.cons_append, endsOperand, h, Bool.true_or]
      | cons b before => exact h

theorem closes_append (h : Closes cs) (bs : List Char) : Closes (bs ++ cs) := by
  have hne : skipBlanks cs.reverse ≠ [] := by
    intro hnil
    rw [Closes, hnil] at h
    cases h
  rw [Closes, List.reverse_append, skipBlanks_append_of_ne_nil hne]
  exact endsOperand_append h bs.reverse

theorem closes_append_blanks (hbs : Blanks bs) : Closes (cs ++ bs) ↔ Closes cs := by
  have hreverse : Blanks bs.reverse := fun c hc => hbs c (List.mem_reverse.1 hc)
  rw [Closes, Closes, List.reverse_append, skipBlanks_append hreverse]

theorem closes_concat {c : Char} (hc : isBlank c = false) :
    Closes (cs ++ [c]) ↔ endsOperand (c :: cs.reverse) = true := by
  rw [Closes, List.reverse_append, List.reverse_singleton, List.singleton_append,
    skipBlanks_cons hc]

theorem not_closes_append (front : List Char) (hne : skipBlanks front.reverse ≠ [])
    (hfront : ∀ before, endsOperand (skipBlanks front.reverse ++ before) = false)
    (before : List Char) : ¬ Closes (before ++ front) := by
  rw [Closes, List.reverse_append, skipBlanks_append_of_ne_nil hne]
  exact Bool.eq_false_iff.1 (hfront before.reverse)

/-! ### Guarded texts -/

theorem guarded_of_notMem (h : '-' ∉ cs) : Guarded cs := by
  rintro before after rfl
  exact absurd (List.mem_append_right _ List.mem_cons_self) h

theorem Guarded.append (hbs : Guarded bs) (hcs : Guarded cs) : Guarded (bs ++ cs) := by
  intro before after h
  rcases List.append_eq_append_iff.1 h with ⟨front, rfl, hfront⟩ | ⟨back, rfl, hback⟩
  · exact closes_append (hcs _ _ hfront) bs
  · cases back with
    | nil => simpa only [List.append_nil] using closes_append (hcs [] after hback.symm) before
    | cons c back =>
        obtain ⟨rfl, -⟩ := List.cons.inj hback
        exact hbs _ _ rfl

theorem Guarded.of_append (h : Guarded (cs ++ bs)) : Guarded cs := by
  rintro before after rfl
  exact h before (after ++ bs) (by rw [List.append_assoc, List.cons_append])

theorem Guarded.cons {c : Char} (h : Guarded cs) (hc : c ≠ '-') : Guarded (c :: cs) := by
  have hsingle : Guarded [c] := guarded_of_notMem fun hmem => hc (List.mem_singleton.1 hmem).symm
  exact hsingle.append h

theorem Blanks.guarded (h : Blanks bs) : Guarded bs :=
  guarded_of_notMem fun hmem => absurd (h _ hmem) (by decide)

/-- The only operator with a minus stands behind its left operand. -/
theorem Guarded.append_operator (h : Guarded cs) (hcloses : Closes cs) (op : Operator) :
    Guarded (cs ++ op.text) := by
  by_cases hop : op = .sub
  · subst hop
    intro before after heq
    rcases List.append_eq_append_iff.1 heq with ⟨front, rfl, hfront⟩ | ⟨back, rfl, hback⟩
    · have hnil : front = [] := by
        cases front with
        | nil => rfl
        | cons c front =>
            have htail := (List.cons.inj hfront).2
            exact absurd htail.symm (by simp)
      rwa [hnil, List.append_nil]
    · cases back with
      | nil => rwa [List.append_nil] at hcloses
      | cons c back =>
          obtain ⟨rfl, -⟩ := List.cons.inj hback
          exact h _ _ rfl
  · refine h.append (guarded_of_notMem ?_)
    cases op <;> first | exact absurd rfl hop | decide

theorem closes_decimal (run : Run Char.isDigit next cs) : Closes cs := by
  rcases List.eq_nil_or_concat' cs with hnil | ⟨front, c, rfl⟩
  · exact absurd hnil run.nonempty
  · have hc := run.members c (List.mem_append_right _ (List.mem_singleton_self c))
    rw [closes_concat (isBlank_of_isHexDigit (isHexDigit_of_isDigit hc))]
    simp only [endsOperand, hc, Bool.true_or]

theorem closes_hexadecimal {x : Char} (hx : x = 'x' ∨ x = 'X') (run : Run isHexDigit next cs) :
    Closes ('0' :: x :: cs) := by
  rcases List.eq_nil_or_concat' cs with hnil | ⟨front, c, rfl⟩
  · exact absurd hnil run.nonempty
  · have hc := run.members c (List.mem_append_right _ (List.mem_singleton_self c))
    -- The last digit may be an `f`, but then the mark or another digit is before it.
    have hi : ∀ b ∈ '0' :: x :: front, b ≠ 'i' := by
      rintro b hb rfl
      simp only [List.mem_cons] at hb
      rcases hb with h | h | h
      · revert h
        decide
      · subst h
        revert hx
        decide
      · exact absurd (run.members 'i' (List.mem_append_left _ h)) (by decide)
    obtain ⟨b, before, hbefore⟩ : ∃ b before, ('0' :: x :: front).reverse = b :: before :=
      List.exists_cons_of_ne_nil (by simp)
    have hb : b ≠ 'i' := hi b (List.mem_reverse.1 (by rw [hbefore]; exact List.mem_cons_self))
    show Closes (('0' :: x :: front) ++ [c])
    rw [closes_concat (isBlank_of_isHexDigit hc), hbefore]
    simp [endsOperand, hc, hb]

/-- A text of the grammar ends an operand. -/
theorem Spells.closes (h : Spells strength next text e) : Closes text := by
  induction h with
  | decimal run => exact closes_decimal run
  | hexadecimal hx run => exact closes_hexadecimal hx run
  | identifier => exact rfl
  | parentheses => exact (closes_concat (by decide)).2 rfl
  | conditional => exact (closes_concat (by decide)).2 rfl
  | operation _ _ _ _ ih => exact closes_append ih _
  | padded _ _ trailing ih =>
      rw [closes_append_blanks trailing]
      exact closes_append ih _

theorem Spells.guarded (h : Spells strength next text e) : Guarded text := by
  induction h with
  | decimal run =>
      exact guarded_of_notMem fun hmem => absurd (run.members _ hmem) (by decide)
  | hexadecimal hx run =>
      have hdigits : Guarded _ :=
        guarded_of_notMem fun hmem => absurd (run.members _ hmem) (by decide)
      refine (hdigits.cons ?_).cons (by decide)
      rcases hx with rfl | rfl <;> decide
  | identifier => exact guarded_of_notMem (by decide)
  | parentheses _ ih => exact (ih.cons (by decide)).append (guarded_of_notMem (by decide))
  | @conditional _ _ blank conditionText _ _ _ _ _ _ _ hblank _ _ hbefore hafter _ ihcondition
      ihthen ihelse =>
      have hdash : blank ≠ '-' := by
        rintro rfl
        exact absurd hblank (by decide)
      have hopening : Guarded ('i' :: 'f' :: blank :: conditionText) :=
        ((ihcondition.cons hdash).cons (by decide)).cons (by decide)
      have helse : Guarded ['e', 'l', 's', 'e'] := guarded_of_notMem (by decide)
      have hclosing : Guarded ['\x7d'] := guarded_of_notMem (by decide)
      exact ((((((hopening.append (ihthen.cons (by decide))).append
        (hbefore.guarded.cons (by decide))).append helse).append hafter.guarded).append
          (ihelse.cons (by decide))).append hclosing)
  | operation _ hleft _ ihleft ihright =>
      exact (ihleft.append_operator hleft.closes _).append ihright
  | padded leading _ trailing ih => exact (leading.guarded.append ih).append trailing.guarded

/-! ### Misplaced texts -/

/-- Behind a text at whose end no operand ends, the text has a minus without a left operand. -/
def Misplaced (text : List Char) : Prop :=
  ∀ before, ¬ Closes before → ¬ Guarded (before ++ text)

theorem Misplaced.append (h : Misplaced cs) (bs : List Char) : Misplaced (cs ++ bs) := by
  intro before hbefore hguarded
  rw [← List.append_assoc] at hguarded
  exact h before hbefore hguarded.of_append

theorem Misplaced.behind {front : List Char} (h : Misplaced cs)
    (hfront : ∀ before, ¬ Closes (before ++ front)) (earlier : List Char) :
    Misplaced (earlier ++ (front ++ cs)) := by
  intro before _ hguarded
  rw [← List.append_assoc, ← List.append_assoc] at hguarded
  exact h _ (hfront (before ++ earlier)) hguarded

theorem misplaced_minus (cs : List Char) : Misplaced ('-' :: cs) :=
  fun before hbefore hguarded => hbefore (hguarded before cs rfl)

end Bytecode.Expr

import Bytecode.Proofs.Expr.Soundness

/-!
# Texts that can be completed

A text is viable when some expression begins like it. A place in a text is open for a strength when
every phrase of that strength may stand there. The text is viable then, and each construct of the
grammar opens the places of its parts: what stands before an operand, a bracketed expression or a
block is open where what stands before the construct is.
-/

namespace Bytecode.Expr

open Text (isBlank isHexDigit isIdentifierContinue)

variable {strength stronger : Nat} {next next' : Option Char} {p cs ds bs text used : List Char}
  {e lhs condition thenBranch : Expr} {op : Operator} {member : Char → Bool}

/-- Some text that begins like this spells an expression. -/
def Viable (cs : List Char) : Prop := ∃ more e, Spells 0 none (cs ++ more) e

/-- Behind `p`, every phrase of the strength keeps the text viable. -/
def Open (strength : Nat) (p : List Char) : Prop :=
  ∀ text next e, Spells strength next text e → Viable (p ++ text)

def Encloses (p : List Char) (opening closing : Char) : Prop :=
  ∀ text next e, Spells 0 next text e → Viable (p ++ opening :: text ++ [closing])

theorem Viable.of_append (h : Viable (cs ++ ds)) : Viable cs := by
  obtain ⟨more, e, hspells⟩ := h
  exact ⟨ds ++ more, e, by rwa [← List.append_assoc]⟩

theorem Viable.of_isPrefix (h : Viable ds) (hbegins : cs <+: ds) : Viable cs := by
  obtain ⟨more, rfl⟩ := hbegins
  exact h.of_append

/-! ### What may follow a phrase -/

def Separates (next : Option Char) : Prop :=
  ∀ c ∈ next, isHexDigit c = false ∧ isIdentifierContinue c = false

theorem separates_none : Separates none := fun _ h => nomatch h

theorem separates_bracket {c : Char} (h : c ∈ [')', '\x7b', '\x7d']) : Separates (some c) := by
  have hall : ([')', '\x7b', '\x7d'].all fun c =>
      !isHexDigit c && !isIdentifierContinue c) = true := by decide
  intro d hd
  have hc := List.all_eq_true.1 hall c h
  rw [← Option.some.inj hd]
  simpa using hc

theorem separates_operator (op : Operator) : Separates op.text.head? := by
  intro c hc
  cases op <;> cases hc <;> decide

theorem Run.before (h : Run member next cs) (hnext : ∀ c ∈ next', member c = false) :
    Run member next' cs :=
  ⟨h.nonempty, h.members, hnext⟩

/-- A phrase may stand before every character that separates. -/
theorem Spells.before (h : Spells strength next text e) (hnext : Separates next') :
    Spells strength next' text e := by
  induction h generalizing next' with
  | decimal run fits =>
      refine .decimal (run.before fun c hc => ?_) fits
      have hhex := (hnext c hc).1
      cases hdigit : c.isDigit with
      | false => rfl
      | true => rw [isHexDigit_of_isDigit hdigit] at hhex; cases hhex
  | hexadecimal hx run fits => exact .hexadecimal hx (run.before fun c hc => (hnext c hc).1) fits
  | identifier run => exact .identifier (run.before fun c hc => (hnext c hc).2)
  | parentheses inner => exact .parentheses inner
  | conditional hblank hcondition hthen hbefore hafter helse =>
      exact .conditional hblank hcondition hthen hbefore hafter helse
  | operation strong hleft _ _ ihright => exact .operation strong hleft (ihright hnext)
  | @padded _ _ _ _ after _ leading inner trailing ih =>
      refine .padded leading ?_ trailing
      cases after with
      | nil => exact ih hnext
      | cons b after => exact inner

theorem Run.singleton {c : Char} (h : member c = true) : Run member none [c] where
  nonempty := List.cons_ne_nil _ _
  members := fun d hd => by rwa [List.mem_singleton.1 hd]
  maximal := fun _ hnone => nomatch hnone

theorem spells_zero (strength : Nat) : Spells strength none ['0'] zero :=
  .decimal (.singleton (by decide)) (by decide)

/-! ### Open places -/

theorem open_nil : Open 0 [] := by
  intro text next e h
  refine ⟨[], e, ?_⟩
  rw [List.nil_append, List.append_nil]
  exact h.before separates_none

namespace Open

theorem viable (h : Open strength p) : Viable p := (h _ _ _ (spells_zero strength)).of_append

theorem of_le (h : Open strength p) (hle : strength ≤ stronger) : Open stronger p :=
  fun text next e hspells => h text next e (hspells.of_le hle)

theorem blanks (h : Open strength p) (hbs : Blanks bs) : Open strength (p ++ bs) := by
  intro text next e hspells
  rw [List.append_assoc]
  exact h _ _ _ (hspells.lead hbs)

/-- Behind a left operand and an operator, the right operand is stronger than the operator. -/
theorem operand (h : Open strength p) (hlhs : Spells strength next used lhs)
    (hop : op.level = strength) : Open (strength + 1) (p ++ (used ++ op.text)) := by
  intro text next e hspells
  subst hop
  rw [List.append_assoc]
  exact h _ _ _ (.operation (Nat.le_refl _) (hlhs.before (separates_operator op)) hspells)

theorem parenthesis (h : Open strength p) : Encloses p '(' ')' := by
  intro text next e hspells
  rw [List.append_assoc]
  exact h _ none _ (.parentheses (hspells.before (separates_bracket (by decide))))

/-! #### Conditionals

From the last part to the first: the shortest text that completes the conditional stands behind the
part. -/

variable {blank : Char} {conditionText thenText beforeElse afterElse : List Char}
  {nextCondition nextThen : Option Char}

theorem elseBlock (h : Open strength p) (hblank : isBlank blank = true)
    (hcondition : Spells 0 nextCondition conditionText condition)
    (hthen : Spells 0 nextThen thenText thenBranch) (hbefore : Blanks beforeElse)
    (hafter : Blanks afterElse) :
    Encloses (p ++ ('i' :: 'f' :: blank :: conditionText ++ '\x7b' :: thenText ++
      '\x7d' :: beforeElse ++ ['e', 'l', 's', 'e'] ++ afterElse)) '\x7b' '\x7d' := by
  intro elseText next elseBranch helse
  have hwhole := h _ none _ (.conditional hblank
    (hcondition.before (separates_bracket (by decide)))
    (hthen.before (separates_bracket (by decide))) hbefore hafter
    (helse.before (separates_bracket (by decide))))
  simpa only [List.append_assoc] using hwhole

theorem thenBlock (h : Open strength p) (hblank : isBlank blank = true)
    (hcondition : Spells 0 nextCondition conditionText condition) :
    Encloses (p ++ 'i' :: 'f' :: blank :: conditionText) '\x7b' '\x7d' := by
  intro thenText next thenBranch hthen
  have hwhole := h.elseBlock hblank hcondition hthen .nil .nil _ _ _ (spells_zero 0)
  refine hwhole.of_isPrefix ⟨['e', 'l', 's', 'e', '\x7b', '0', '\x7d'], ?_⟩
  simp only [List.append_assoc, List.cons_append, List.nil_append]

theorem afterIf (h : Open strength p) (hblank : isBlank blank = true) :
    Open 0 (p ++ ['i', 'f', blank]) := by
  intro conditionText next condition hcondition
  have hwhole := h.thenBlock hblank hcondition _ _ _ (spells_zero 0)
  refine hwhole.of_isPrefix ⟨['\x7b', '0', '\x7d'], ?_⟩
  simp only [List.append_assoc, List.cons_append, List.nil_append]

end Open

theorem Encloses.inside {opening closing : Char} (h : Encloses p opening closing) :
    Open 0 (p ++ [opening]) := by
  intro text next e hspells
  refine (h text next e hspells).of_isPrefix ⟨[closing], ?_⟩
  simp only [List.append_assoc, List.cons_append, List.nil_append]

end Bytecode.Expr

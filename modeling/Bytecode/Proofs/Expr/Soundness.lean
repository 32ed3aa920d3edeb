import Bytecode.Proofs.Expr.Grammar

/-!
# What is read is spelled

Each reader is described by what it accepts and leaves. A reader is sound for a strength when the
text that it takes away spells the expression that it gives, before the character that it leaves.
-/

namespace Bytecode.Expr

open Text (Reading isBlank isHexDigit isIdentifierContinue skipBlanks ofDigits readWord readBlanks
  readRun readWord_eq_some_iff)

variable {cs rest word run : List Char} {e : Expr} {member : Char → Bool} {strength : Nat}
  {inner atom operand : List Char → Reading Expr} {ops : List Operator} {op : Operator}

/-! ### Tokens -/

theorem readRun_eq_some_iff :
    (readRun member cs).result = some (run, rest) ↔
      cs = run ++ rest ∧ Run member rest.head? run := by
  have hsplit : cs.takeWhile member ++ cs.dropWhile member = cs :=
    List.takeWhile_append_dropWhile
  constructor
  · intro h
    unfold readRun at h
    split at h
    · cases h
    · next hne =>
        obtain ⟨hrun, hrest⟩ := Prod.mk.inj (Option.some.inj h)
        subst hrun hrest
        refine ⟨hsplit.symm, hne, fun c hc => List.mem_takeWhile_imp hc, fun c hc => ?_⟩
        have hhead := List.head?_dropWhile_not member cs
        rw [Option.mem_def.1 hc] at hhead
        simpa using hhead
  · rintro ⟨rfl, hrun⟩
    have hrest : rest.takeWhile member = [] ∧ rest.dropWhile member = rest := by
      cases rest with
      | nil => exact ⟨rfl, rfl⟩
      | cons c rest =>
          have hc : member c = false := hrun.maximal c rfl
          simp [hc]
    have htake : (run ++ rest).takeWhile member = run := by
      rw [List.takeWhile_append_of_pos hrun.members, hrest.1, List.append_nil]
    have hdrop : (run ++ rest).dropWhile member = rest := by
      rw [List.dropWhile_append_of_pos hrun.members, hrest.2]
    unfold readRun
    rw [htake, hdrop]
    cases run with
    | nil => exact absurd rfl hrun.nonempty
    | cons c run => rfl

theorem readBlanks_eq_some_iff {u : Unit} :
    (readBlanks cs).result = some (u, rest) ↔
      ∃ blank cs', cs = blank :: cs' ∧ isBlank blank = true ∧ rest = skipBlanks cs' := by
  cases cs with
  | nil => simp [readBlanks]
  | cons c cs =>
      by_cases hc : isBlank c = true
      · have hskip : skipBlanks (c :: cs) = skipBlanks cs := by simp [skipBlanks, hc]
        simp only [readBlanks, hc, if_true, Reading.result_accept, hskip, Option.some.injEq,
          Prod.mk.injEq, true_and, List.cons.injEq]
        constructor
        · intro h
          exact ⟨c, cs, ⟨rfl, rfl⟩, hc, h.symm⟩
        · rintro ⟨_, _, ⟨rfl, rfl⟩, -, rfl⟩
          rfl
      · simp only [readBlanks, hc, List.cons.injEq]
        constructor
        · intro h
          cases h
        · rintro ⟨_, _, ⟨rfl, rfl⟩, hblank, -⟩
          exact absurd hblank hc

theorem literal?_eq_some_iff {base : Nat} {digits : List Char} :
    literal? base digits = some e ↔
      ∃ value : Int64, value.toInt = ofDigits base digits ∧ e = const value := by
  simp only [literal?, Option.map_eq_some_iff, narrow_eq_some_iff, @eq_comm _ e]

theorem readDecimal_eq_some_iff :
    (readDecimal cs).result = some (e, rest) ↔
      ∃ digits value, cs = digits ++ rest ∧ Run Char.isDigit rest.head? digits ∧
        Int64.toInt value = ofDigits 10 digits ∧ e = const value := by
  simp only [readDecimal, Reading.result_accepting, Option.bind_eq_some_iff, Prod.exists,
    readRun_eq_some_iff, Option.map_eq_some_iff, literal?_eq_some_iff, Prod.mk.injEq]
  constructor
  · rintro ⟨digits, _, ⟨rfl, hrun⟩, _, ⟨value, hvalue, rfl⟩, rfl, rfl⟩
    exact ⟨digits, value, rfl, hrun, hvalue, rfl⟩
  · rintro ⟨digits, value, rfl, hrun, hvalue, rfl⟩
    exact ⟨digits, rest, ⟨rfl, hrun⟩, _, ⟨value, hvalue, rfl⟩, rfl, rfl⟩

theorem readHexadecimal_eq_some_iff :
    (readHexadecimal cs).result = some (e, rest) ↔
      ∃ x digits value, cs = '0' :: x :: (digits ++ rest) ∧ (x = 'x' ∨ x = 'X') ∧
        Run isHexDigit rest.head? digits ∧ Int64.toInt value = ofDigits 16 digits ∧
        e = const value := by
  have hmark : ∀ after, ((readWord ['0', 'x'] cs).result.or (readWord ['0', 'X'] cs).result =
      some ((), after)) ↔ ∃ x, (x = 'x' ∨ x = 'X') ∧ cs = '0' :: x :: after := by
    intro after
    rw [Option.or_eq_some_iff, readWord_eq_some_iff, readWord_eq_some_iff]
    constructor
    · rintro (rfl | ⟨-, rfl⟩)
      · exact ⟨'x', .inl rfl, rfl⟩
      · exact ⟨'X', .inr rfl, rfl⟩
    · rintro ⟨x, rfl | rfl, rfl⟩
      · exact .inl rfl
      · exact .inr ⟨rfl, rfl⟩
  simp only [readHexadecimal, Reading.result_accepting, Reading.result_andThen,
    Reading.result_orElse, Option.bind_eq_some_iff, Prod.exists, hmark, readRun_eq_some_iff,
    Option.map_eq_some_iff, literal?_eq_some_iff, Prod.mk.injEq]
  constructor
  · rintro ⟨digits, _, ⟨-, _, ⟨x, hx, rfl⟩, rfl, hrun⟩, _, ⟨value, hvalue, rfl⟩, rfl, rfl⟩
    exact ⟨x, digits, value, rfl, hx, hrun, hvalue, rfl⟩
  · rintro ⟨x, digits, value, rfl, hx, hrun, hvalue, rfl⟩
    exact ⟨digits, rest, ⟨(), _, ⟨x, hx, rfl⟩, rfl, hrun⟩, _, ⟨value, hvalue, rfl⟩, rfl, rfl⟩

theorem readVariable_eq_some_iff :
    (readVariable cs).result = some (e, rest) ↔
      cs = ['o', 'p', 'a', 'r', 'g'] ++ rest ∧
        Run isIdentifierContinue rest.head? ['o', 'p', 'a', 'r', 'g'] ∧ e = oparg := by
  simp only [readVariable, Reading.result_accepting, Option.bind_eq_some_iff, Prod.exists,
    readRun_eq_some_iff, Option.map_eq_some_iff, Prod.mk.injEq]
  constructor
  · rintro ⟨name, _, ⟨rfl, hrun⟩, _, hname, rfl, rfl⟩
    split at hname
    · next heq =>
        subst heq
        exact ⟨rfl, hrun, (Option.some.inj hname).symm⟩
    · cases hname
  · rintro ⟨rfl, hrun, rfl⟩
    exact ⟨_, rest, ⟨rfl, hrun⟩, oparg, rfl, rfl, rfl⟩

/-! ### Brackets and conditionals -/

theorem readEnclosed_eq_some_iff {opening closing : Char} :
    (readEnclosed inner opening closing cs).result = some (e, rest) ↔
      ∃ after left, cs = opening :: after ∧ (inner (skipBlanks after)).result = some (e, left) ∧
        skipBlanks left = closing :: rest := by
  simp only [readEnclosed, Reading.result_andThen, Reading.result_map, Option.bind_eq_some_iff,
    Prod.exists, Option.map_eq_some_iff, readWord_eq_some_iff, Prod.mk.injEq, List.cons_append,
    List.nil_append]
  constructor
  · rintro ⟨-, after, hopening, _, left, hinner, -, _, hclosing, rfl, rfl⟩
    exact ⟨after, left, hopening, hinner, hclosing⟩
  · rintro ⟨after, left, hopening, hinner, hclosing⟩
    exact ⟨(), after, hopening, e, left, hinner, (), rest, hclosing, rfl, rfl⟩

theorem readBlock_eq_some_iff :
    (readBlock inner cs).result = some (e, rest) ↔
      ∃ after, (readEnclosed inner '\x7b' '\x7d' (skipBlanks cs)).result = some (e, after) ∧
        rest = skipBlanks after := by
  simp only [readBlock, Reading.result_andThen, Reading.result_accept, Option.bind_eq_some_iff,
    Prod.exists, Option.some.injEq, Prod.mk.injEq]
  constructor
  · rintro ⟨_, after, h, rfl, rfl⟩
    exact ⟨after, h, rfl⟩
  · rintro ⟨after, h, rfl⟩
    exact ⟨e, after, h, rfl, rfl⟩

theorem readConditional_eq_some_iff :
    (readConditional inner cs).result = some (e, rest) ↔
      ∃ blank cs' condition afterCondition thenBranch afterElse elseBranch,
        cs = 'i' :: 'f' :: blank :: cs' ∧ isBlank blank = true ∧
        (inner (skipBlanks cs')).result = some (condition, afterCondition) ∧
        (readBlock inner afterCondition).result =
          some (thenBranch, ['e', 'l', 's', 'e'] ++ afterElse) ∧
        (readBlock inner afterElse).result = some (elseBranch, rest) ∧
        e = ifElse condition thenBranch elseBranch := by
  simp only [readConditional, Reading.result_andThen, Reading.result_map,
    Option.bind_eq_some_iff, Prod.exists, Option.map_eq_some_iff, readWord_eq_some_iff,
    readBlanks_eq_some_iff, Prod.mk.injEq]
  constructor
  · rintro ⟨-, _, rfl, -, _, ⟨blank, cs', rfl, hblank, rfl⟩, condition, afterCondition,
      hcondition, thenBranch, _, hthen, -, afterElse, rfl, elseBranch, _, helse, rfl, rfl⟩
    exact ⟨blank, cs', condition, afterCondition, thenBranch, afterElse, elseBranch, rfl, hblank,
      hcondition, hthen, helse, rfl⟩
  · rintro ⟨blank, cs', condition, afterCondition, thenBranch, afterElse, elseBranch, rfl, hblank,
      hcondition, hthen, helse, rfl⟩
    exact ⟨(), _, rfl, (), _, ⟨blank, cs', rfl, hblank, rfl⟩, condition, afterCondition,
      hcondition, thenBranch, _, hthen, (), afterElse, rfl, elseBranch, rest, helse, rfl, rfl⟩

/-- An atom is the first alternative that can be read, without the blanks around it. -/
theorem readAtom_eq_some_iff :
    (readAtom inner cs).result = some (e, rest) ↔
      ∃ after, ((readHexadecimal (skipBlanks cs)).result.or
        ((readDecimal (skipBlanks cs)).result.or
          ((readConditional inner (skipBlanks cs)).result.or
            ((readVariable (skipBlanks cs)).result.or
              (readEnclosed inner '(' ')' (skipBlanks cs)).result)))) = some (e, after) ∧
        rest = skipBlanks after := by
  simp only [readAtom, Reading.result_andThen, Reading.result_orElse, Reading.result_accept,
    Option.bind_eq_some_iff, Prod.exists, Option.some.injEq, Prod.mk.injEq, Option.or_assoc]
  constructor
  · rintro ⟨_, after, h, rfl, rfl⟩
    exact ⟨after, h, rfl⟩
  · rintro ⟨after, h, rfl⟩
    exact ⟨e, after, h, rfl, rfl⟩

/-! ### Operators -/

theorem readOperator_cons (op : Operator) (ops : List Operator) (cs : List Char) :
    readOperator (op :: ops) cs =
      ((readWord op.text cs).map fun _ => op).orElse fun _ => readOperator ops cs := by
  rw [readOperator, op.toList_symbol]

theorem mem_of_readOperator (h : (readOperator ops cs).result = some (op, rest)) :
    op ∈ ops ∧ cs = op.text ++ rest := by
  induction ops with
  | nil => cases h
  | cons first ops ih =>
      rw [readOperator_cons, Reading.result_orElse, Option.or_eq_some_iff] at h
      rcases h with h | ⟨-, h⟩
      · simp only [Reading.result_map, Option.map_eq_some_iff, Prod.exists,
          readWord_eq_some_iff, Prod.mk.injEq] at h
        obtain ⟨-, _, hcs, rfl, rfl⟩ := h
        exact ⟨List.mem_cons_self, hcs⟩
      · have hop := ih h
        exact ⟨List.mem_cons_of_mem first hop.1, hop.2⟩

theorem head?_operator_append (op : Operator) (cs : List Char) :
    (op.text ++ cs).head? = op.text.head? := by
  cases op <;> rfl

theorem readLink_eq_some_iff {rhs : Expr} :
    (readLink operand ops cs).result = some ((op, rhs), rest) ↔
      ∃ after, (readOperator ops (skipBlanks cs)).result = some (op, after) ∧
        (operand (skipBlanks after)).result = some (rhs, rest) := by
  simp only [readLink, Reading.result_andThen, Reading.result_map, Option.bind_eq_some_iff,
    Prod.exists, Option.map_eq_some_iff, Prod.mk.injEq]
  constructor
  · rintro ⟨_, after, hop, _, _, hrhs, ⟨rfl, rfl⟩, rfl⟩
    exact ⟨after, hop, hrhs⟩
  · rintro ⟨after, hop, hrhs⟩
    exact ⟨op, after, hop, rhs, rest, hrhs, ⟨rfl, rfl⟩, rfl⟩

/-- Levels of operators, from a strength on: a level holds all operators of its strength, and an
operator stands before one whose symbol begins its own. -/
inductive Graded : Nat → List (List Operator) → Prop
  | nil {strength : Nat} (top : ∀ op : Operator, op.level < strength) : Graded strength []
  | cons {strength : Nat} {ops : List Operator} {tighter : List (List Operator)}
      (level : ∀ op : Operator, op ∈ ops ↔ op.level = strength)
      (ordered : ops.Pairwise fun first second =>
        ¬ first.text <+: second.text)
      (above : Graded (strength + 1) tighter) : Graded strength (ops :: tighter)

theorem graded_levels : Graded 1 levels := by
  have hlevel : ∀ (strength : Nat) (ops : List Operator), (∀ op ∈ Operator.all, op ∈ ops ↔
      op.level = strength) → ∀ op : Operator, op ∈ ops ↔ op.level = strength :=
    fun _ _ h op => h op op.mem_all
  have htop : ∀ op : Operator, op.level < 8 := by
    intro op
    cases op <;> decide
  exact .cons (hlevel 1 _ (by decide)) (by decide) <|
    .cons (hlevel 2 _ (by decide)) (by decide) <|
    .cons (hlevel 3 _ (by decide)) (by decide) <|
    .cons (hlevel 4 _ (by decide)) (by decide) <|
    .cons (hlevel 5 _ (by decide)) (by decide) <|
    .cons (hlevel 6 _ (by decide)) (by decide) <|
    .cons (hlevel 7 _ (by decide)) (by decide) (.nil htop)

/-! ### Sound readers -/

/-- The text that a reader takes away spells the expression that it gives. -/
def Sound (strength : Nat) (reader : List Char → Reading Expr) : Prop :=
  ∀ cs e rest, (reader cs).result = some (e, rest) →
    ∃ text, cs = text ++ rest ∧ Spells strength rest.head? text e

theorem exists_of_readEnclosed {opening closing : Char} (hinner : Sound 0 inner)
    (h : (readEnclosed inner opening closing cs).result = some (e, rest)) :
    ∃ text, cs = opening :: text ++ closing :: rest ∧ Spells 0 (some closing) text e := by
  obtain ⟨after, left, rfl, hread, hclosing⟩ := readEnclosed_eq_some_iff.1 h
  obtain ⟨text, htext, hspells⟩ := hinner _ _ _ hread
  obtain ⟨before, hbefore, hafter⟩ := exists_blanks after
  obtain ⟨trailing, htrailing, hleft⟩ := exists_blanks left
  rw [hclosing] at hleft
  subst hleft
  refine ⟨before ++ (text ++ trailing), ?_, (hspells.trail htrailing).lead hbefore⟩
  rw [hafter, htext]
  simp only [List.append_assoc, List.cons_append]

theorem exists_of_readBlock (hinner : Sound 0 inner)
    (h : (readBlock inner cs).result = some (e, rest)) :
    ∃ before text after, cs = before ++ '\x7b' :: text ++ '\x7d' :: after ++ rest ∧
      Blanks before ∧ Blanks after ∧ Spells 0 (some '\x7d') text e := by
  obtain ⟨left, henclosed, rfl⟩ := readBlock_eq_some_iff.1 h
  obtain ⟨text, htext, hspells⟩ := exists_of_readEnclosed hinner henclosed
  obtain ⟨before, hbefore, hcs⟩ := exists_blanks cs
  obtain ⟨after, hafter, hleft⟩ := exists_blanks left
  refine ⟨before, text, after, ?_, hbefore, hafter, hspells⟩
  rw [hcs, htext, hleft, skipBlanks_append hafter, skipBlanks_skipBlanks]
  simp only [List.append_assoc, List.cons_append]

theorem sound_readConditional (hinner : Sound 0 inner) :
    Sound strength (readConditional inner) := by
  intro cs e rest h
  obtain ⟨blank, cs', condition, afterCondition, thenBranch, afterElse, elseBranch, rfl, hblank,
    hcondition, hthen, helse, rfl⟩ := readConditional_eq_some_iff.1 h
  obtain ⟨conditionText, hconditionText, hspellsCondition⟩ := hinner _ _ _ hcondition
  obtain ⟨leading, hleading, hcs'⟩ := exists_blanks cs'
  obtain ⟨before, thenText, beforeElse, rfl, hbefore, hbeforeElse, hspellsThen⟩ :=
    exists_of_readBlock hinner hthen
  obtain ⟨beforeBlock, elseText, after, rfl, hbeforeBlock, hafter, hspellsElse⟩ :=
    exists_of_readBlock hinner helse
  have hwhole : Spells 0 (some '\x7b') (leading ++ (conditionText ++ before)) condition := by
    have htrail : Spells 0 ['\x7b'].head? (conditionText ++ before) condition := by
      refine .trail ?_ hbefore
      simpa only [List.append_assoc, List.cons_append, List.head?_append, List.head?_cons]
        using hspellsCondition
    exact htrail.lead hleading
  refine ⟨_, ?_, .trail (.conditional hblank hwhole hspellsThen hbeforeElse hbeforeBlock
    hspellsElse) hafter⟩
  rw [hcs', hconditionText]
  simp only [List.append_assoc, List.cons_append, List.nil_append]

theorem exists_of_readAlternatives (hinner : Sound 0 inner)
    (h : ((readHexadecimal cs).result.or ((readDecimal cs).result.or
      ((readConditional inner cs).result.or ((readVariable cs).result.or
        (readEnclosed inner '(' ')' cs).result)))) = some (e, rest)) :
    ∃ text, cs = text ++ rest ∧ Spells strength rest.head? text e := by
  simp only [Option.or_eq_some_iff] at h
  rcases h with h | ⟨-, h | ⟨-, h | ⟨-, h | ⟨-, h⟩⟩⟩⟩
  · obtain ⟨x, digits, value, htext, hx, run, fits, rfl⟩ := readHexadecimal_eq_some_iff.1 h
    exact ⟨_, htext, .hexadecimal hx run fits⟩
  · obtain ⟨digits, value, htext, run, fits, rfl⟩ := readDecimal_eq_some_iff.1 h
    exact ⟨_, htext, .decimal run fits⟩
  · exact sound_readConditional hinner _ _ _ h
  · obtain ⟨htext, run, rfl⟩ := readVariable_eq_some_iff.1 h
    exact ⟨_, htext, .identifier run⟩
  · obtain ⟨text, htext, hspells⟩ := exists_of_readEnclosed hinner h
    refine ⟨'(' :: text ++ [')'], ?_, .parentheses hspells⟩
    rw [htext]
    simp only [List.append_assoc, List.cons_append, List.nil_append]

theorem sound_readAtom (hinner : Sound 0 inner) : Sound strength (readAtom inner) := by
  intro cs e rest h
  obtain ⟨left, hread, rfl⟩ := readAtom_eq_some_iff.1 h
  obtain ⟨before, hbefore, hcs⟩ := exists_blanks cs
  obtain ⟨after, hafter, hleft⟩ := exists_blanks left
  obtain ⟨text, htext, hspells⟩ := exists_of_readAlternatives hinner hread
  rw [hleft] at hspells
  refine ⟨before ++ (text ++ after), ?_, (hspells.trail hafter).lead hbefore⟩
  rw [List.append_assoc, List.append_assoc, ← hleft, ← htext, ← hcs]

/-- A link behind a left operand continues its text by an operation. -/
theorem exists_of_readLink {lhs rhs : Expr} {before : List Char}
    (hoperand : Sound (strength + 1) operand) (hops : ∀ op ∈ ops, op.level = strength)
    (hlhs : Spells strength cs.head? before lhs)
    (h : (readLink operand ops cs).result = some ((op, rhs), rest)) :
    ∃ text, cs = text ++ rest ∧ Spells strength rest.head? (before ++ text) (binary op lhs rhs) := by
  obtain ⟨afterOp, hop, hrhs⟩ := readLink_eq_some_iff.1 h
  obtain ⟨hmem, hoperator⟩ := mem_of_readOperator hop
  obtain ⟨right, hright, hspells⟩ := hoperand _ _ _ hrhs
  obtain ⟨leading, hleading, hafterOp⟩ := exists_blanks afterOp
  obtain ⟨blanks, hblanks, hcs⟩ := exists_blanks cs
  have hlevel := hops _ hmem
  have hleft : Spells strength op.text.head? (before ++ blanks) lhs := by
    rw [hcs, hoperator] at hlhs
    have htrail := hlhs.trail hblanks
    rwa [head?_operator_append] at htrail
  have hbinary : Spells strength rest.head?
      (before ++ blanks ++ op.text ++ (leading ++ right)) (binary op lhs rhs) := by
    refine .operation hlevel.ge ?_ ?_
    · rwa [hlevel]
    · rw [hlevel]
      exact hspells.lead hleading
  refine ⟨blanks ++ op.text ++ (leading ++ right), ?_, ?_⟩
  · rw [hcs, hoperator, hafterOp, hright]
    simp only [List.append_assoc]
  · simpa only [List.append_assoc] using hbinary

/-- The invariant of a chain: the text read so far spells the operation built so far. -/
theorem exists_of_readChain {steps : Nat} {lhs : Expr} {before : List Char}
    (hoperand : Sound (strength + 1) operand) (hops : ∀ op ∈ ops, op.level = strength)
    (hlhs : Spells strength cs.head? before lhs)
    (h : (readChain operand ops steps lhs cs).result = some (e, rest)) :
    ∃ text, cs = text ++ rest ∧ Spells strength rest.head? (before ++ text) e := by
  induction steps generalizing lhs cs before with
  | zero =>
      cases h
      exact ⟨[], rfl, by rwa [List.append_nil]⟩
  | succ steps ih =>
      rw [readChain] at h
      split at h
      · cases h
        exact ⟨[], rfl, by rwa [List.append_nil]⟩
      · next op rhs left hnext =>
          obtain ⟨link, rfl, hbinary⟩ := exists_of_readLink hoperand hops hlhs hnext
          obtain ⟨text, rfl, hwhole⟩ := ih hbinary h
          refine ⟨link ++ text, (List.append_assoc ..).symm, ?_⟩
          rwa [← List.append_assoc]

theorem sound_readLevels {ls : List (List Operator)} (hgraded : Graded strength ls)
    (hatom : ∀ strength, Sound strength atom) : Sound strength (readLevels atom ls) := by
  induction hgraded with
  | nil => exact hatom _
  | cons level _ _ ih =>
      intro cs e rest h
      rw [readLevels, Reading.result_andThen, Option.bind_eq_some_iff] at h
      obtain ⟨⟨lhs, left⟩, hlhs, hchain⟩ := h
      obtain ⟨before, rfl, hspells⟩ := ih _ _ _ hlhs
      obtain ⟨text, rfl, hwhole⟩ := exists_of_readChain ih (fun op hop => (level op).1 hop)
        (hspells.of_le (Nat.le_succ _)) hchain
      exact ⟨before ++ text, (List.append_assoc ..).symm, hwhole⟩

theorem sound_readNested (depth : Nat) : Sound 0 (readNested depth) := by
  induction depth with
  | zero => exact fun _ _ _ h => nomatch h
  | succ depth ih =>
      intro cs e rest h
      obtain ⟨text, htext, hspells⟩ :=
        sound_readLevels graded_levels (fun _ => sound_readAtom ih) cs e rest h
      exact ⟨text, htext, hspells.of_le (Nat.zero_le _)⟩

/-- A text that is read whole spells what is read. -/
theorem spells_of_readAll (h : (readAll cs).result = some (e, rest)) : Spells 0 none cs e := by
  rw [readAll, Reading.result_andThen, Option.bind_eq_some_iff] at h
  obtain ⟨⟨value, left⟩, hread, hend⟩ := h
  obtain ⟨text, htext, hspells⟩ := sound_readNested _ _ _ _ hread
  obtain ⟨leading, hleading, hcs⟩ := exists_blanks cs
  obtain ⟨trailing, htrailing, hleft⟩ := exists_blanks left
  split at hend
  · next hnil =>
      cases hend
      rw [hnil] at hleft
      rw [hleft] at hspells htext
      rw [hcs, htext, List.append_nil]
      exact (hspells.trail htrailing).lead hleading
  · cases hend

end Bytecode.Expr

import Bytecode.Error
import Bytecode.Proofs.Expr.Soundness
import Mathlib.Data.Set.Subsingleton

/-!
# What is spelled is read

The levels read a left-associative operation by a loop, so a text that spells the left operand is
followed by text that the same loop takes up. Reading is therefore described up to what follows: to
read a text that spells `e` is to resume with `e` behind it. Where nothing that follows can be taken
up, resuming gives `e` itself.
-/

namespace Bytecode.Expr

open Text (Reading isBlank isHexDigit isIdentifierContinue skipBlanks ofDigits readWord
  readWord_eq_some_iff)

variable {cs rest after text bs : List Char} {e lhs : Expr} {strength weaker m depth steps : Nat}
  {next : Option Char} {inner atom operand : List Char → Reading Expr} {ops : List Operator}
  {op other : Operator} {ls : List (List Operator)}

/-! ### Symbols of operators -/

/-- The characters that may continue the symbol of an operator to a longer one. -/
def continuing : List Char := ['<', '=', '>']

/-- Where a symbol begins a text that begins with another one, it begins that one, unless the text
goes on like a symbol. -/
theorem begins_operator_of_begins (h : other.text <+: op.text ++ rest)
    (hrest : ∀ c ∈ rest.head?, c ∉ continuing) : other.text <+: op.text := by
  have hlonger : ∀ op ∈ Operator.all, ∀ other ∈ Operator.all,
      op.text <+: other.text →
        ((other.text.drop op.text.length).all (· ∈ continuing)) = true := by
    decide
  rcases List.prefix_or_prefix_of_prefix h (List.prefix_append _ _) with hp | hp
  · exact hp
  · obtain ⟨more, hmore⟩ := hp
    rw [← hmore, List.prefix_append_right_inj] at h
    cases more with
    | nil => exact ⟨[], by rw [List.append_nil, ← hmore, List.append_nil]⟩
    | cons c more =>
        have hall := hlonger op op.mem_all other other.mem_all ⟨c :: more, hmore⟩
        rw [← hmore, List.drop_left] at hall
        have hc := of_decide_eq_true (List.all_eq_true.1 hall c List.mem_cons_self)
        obtain ⟨tail, htail⟩ := h
        exact absurd hc (hrest c (by rw [← htail]; rfl))

theorem level_le_of_begins (h : other.text <+: op.text) :
    other.level ≤ op.level := by
  have hle : ∀ op ∈ Operator.all, ∀ other ∈ Operator.all,
      other.text <+: op.text → other.level ≤ op.level := by
    decide
  exact hle op op.mem_all other other.mem_all h

theorem skipBlanks_operator (op : Operator) (cs : List Char) :
    skipBlanks (op.text ++ cs) = op.text ++ cs := by
  cases op <;> exact skipBlanks_cons (by decide) _

/-! ### Where reading stops -/

/-- Behind a phrase, no text that an operator of a strength could take up, and none that would make
a hexadecimal numeral of the digit zero. -/
structure Stops (strength : Nat) (cs : List Char) : Prop where
  unmarked : ∀ c ∈ cs.head?, c ≠ 'x' ∧ c ≠ 'X'
  operator : ∀ op : Operator, strength ≤ op.level → ¬ op.text <+: skipBlanks cs

theorem Stops.mono (h : Stops weaker cs) (hle : weaker ≤ strength) : Stops strength cs :=
  ⟨h.unmarked, fun op hop => h.operator op (Nat.le_trans hle hop)⟩

theorem Stops.blanks (h : Stops strength cs) (hbs : Blanks bs) : Stops strength (bs ++ cs) := by
  refine ⟨fun c hc => ?_, fun op hop => ?_⟩
  · cases bs with
    | nil => exact h.unmarked c hc
    | cons b bs =>
        have hb := hbs b List.mem_cons_self
        obtain rfl : b = c := Option.some.inj hc
        constructor <;> rintro rfl <;> revert hb <;> decide
  · rw [skipBlanks_append hbs]
    exact h.operator op hop

theorem stops_nil (strength : Nat) : Stops strength [] := by
  refine ⟨fun c hc => (nomatch hc), fun op _ => ?_⟩
  cases op <;> decide

def brackets : List Char := [')', '\x7b', '\x7d']

theorem skipBlanks_bracket {bracket : Char} (h : bracket ∈ brackets) (cs : List Char) :
    skipBlanks (bracket :: cs) = bracket :: cs := by
  simp only [brackets, List.mem_cons, List.not_mem_nil, or_false] at h
  rcases h with rfl | rfl | rfl <;> exact skipBlanks_cons (by decide) cs

theorem notMem_of_mem_operator {c : Char} (h : c ∈ op.text) :
    c ∉ 'x' :: 'X' :: brackets := by
  have hall : ∀ op ∈ Operator.all,
      (op.text.all (· ∉ 'x' :: 'X' :: brackets)) = true := by
    decide
  exact of_decide_eq_true (List.all_eq_true.1 (hall op op.mem_all) c h)

/-- A bracket ends every phrase. -/
theorem stops_bracket {bracket : Char} (h : bracket ∈ brackets) (strength : Nat)
    (cs : List Char) : Stops strength (bracket :: cs) := by
  refine ⟨fun c hc => ?_, fun op _ hbegins => ?_⟩
  · obtain rfl : bracket = c := Option.some.inj hc
    constructor <;> rintro rfl <;> revert h <;> decide
  · rw [skipBlanks_bracket h] at hbegins
    obtain ⟨tail, htail⟩ := hbegins
    have hhead := head?_operator_append op tail
    rw [htail] at hhead
    have hmem := notMem_of_mem_operator (List.mem_of_head? hhead.symm)
    exact hmem (List.mem_cons_of_mem _ (List.mem_cons_of_mem _ h))

/-- Before an operator, only that operator and looser ones can be taken up. -/
theorem stops_operator (op : Operator) (hrest : ∀ c ∈ rest.head?, c ∉ continuing) :
    Stops (op.level + 1) (op.text ++ rest) := by
  refine ⟨fun c hc => ?_, fun other hother hbegins => ?_⟩
  · rw [head?_operator_append] at hc
    have hmem := notMem_of_mem_operator (List.mem_of_head? hc)
    constructor <;> rintro rfl <;> revert hmem <;> decide
  · rw [skipBlanks_operator] at hbegins
    have hle := level_le_of_begins (begins_operator_of_begins hbegins hrest)
    omega

/-! ### Links and chains -/

theorem readOperator_eq_none (h : ∀ op ∈ ops, ¬ op.text <+: cs) :
    (readOperator ops cs).result = none := by
  refine Option.eq_none_iff_forall_ne_some.2 fun ⟨op, rest⟩ hread => ?_
  obtain ⟨hmem, rfl⟩ := mem_of_readOperator hread
  exact h op hmem (List.prefix_append _ _)

/-- The operator that is read is the one that the text shows. -/
theorem readOperator_text
    (ordered : ops.Pairwise fun first second => ¬ first.text <+: second.text)
    (hmem : op ∈ ops) (hrest : ∀ c ∈ rest.head?, c ∉ continuing) :
    (readOperator ops (op.text ++ rest)).result = some (op, rest) := by
  induction ops with
  | nil => cases hmem
  | cons first ops ih =>
      rw [readOperator_cons, Reading.result_orElse, Reading.result_map]
      rcases List.mem_cons.1 hmem with rfl | htail
      · rw [(readWord_eq_some_iff (u := ()) _ _ _).2 rfl]
        rfl
      · have hfirst : (readWord first.text (op.text ++ rest)).result = none := by
          refine Option.eq_none_iff_forall_ne_some.2 ?_
          rintro ⟨_, left⟩ hread
          have hbegins : first.text <+: op.text ++ rest :=
            ⟨left, ((readWord_eq_some_iff _ _ _).1 hread).symm⟩
          exact List.rel_of_pairwise_cons ordered htail (begins_operator_of_begins hbegins hrest)
        rw [hfirst]
        exact ih ordered.of_cons htail

theorem readChain_of_link_none (h : (readLink operand ops cs).result = none) :
    (readChain operand ops steps lhs cs).result = some (lhs, cs) := by
  cases steps with
  | zero => rfl
  | succ steps => simp only [readChain, h]

theorem readChain_of_link {rhs : Expr}
    (h : (readLink operand ops cs).result = some ((op, rhs), rest)) :
    (readChain operand ops (steps + 1) lhs cs).result =
      (readChain operand ops steps (binary op lhs rhs) rest).result := by
  simp only [readChain, h, Reading.result_alsoRefused]

theorem length_lt_of_link {rhs : Expr} (hoperand : Sound strength operand)
    (h : (readLink operand ops cs).result = some ((op, rhs), rest)) :
    rest.length < cs.length := by
  obtain ⟨after, hop, hrhs⟩ := readLink_eq_some_iff.1 h
  obtain ⟨text, htext, -⟩ := hoperand _ _ _ hrhs
  have hoperator := congrArg List.length (mem_of_readOperator hop).2
  have hright := congrArg List.length htext
  have hcs := Text.length_skipBlanks_le cs
  have hafter := Text.length_skipBlanks_le after
  have hpos : 0 < op.text.length := by cases op <;> decide
  simp only [List.length_append] at hoperator hright
  omega

/-- A chain ends before its steps do, so all numbers of steps that reach its end are alike. -/
theorem readChain_congr_steps {steps' : Nat} (hoperand : Sound strength operand)
    (hsteps : cs.length ≤ steps) (hsteps' : cs.length ≤ steps') :
    (readChain operand ops steps lhs cs).result =
      (readChain operand ops steps' lhs cs).result := by
  induction steps generalizing lhs cs steps' with
  | zero =>
      have hlink : (readLink operand ops cs).result = none := by
        refine Option.eq_none_iff_forall_ne_some.2 fun ⟨⟨op, rhs⟩, rest⟩ hlink => ?_
        have hlt := length_lt_of_link hoperand hlink
        omega
      rw [readChain_of_link_none hlink, readChain_of_link_none hlink]
  | succ steps ih =>
      cases hlink : (readLink operand ops cs).result with
      | none => rw [readChain_of_link_none hlink, readChain_of_link_none hlink]
      | some link =>
          obtain ⟨⟨op, rhs⟩, rest⟩ := link
          have hlt := length_lt_of_link hoperand hlink
          cases steps' with
          | zero => omega
          | succ steps' =>
              rw [readChain_of_link hlink, readChain_of_link hlink]
              exact ih (by omega) (by omega)

/-! ### Reading up to what follows -/

/-- Reading by `ls`, once `e` is read and `cs` is left: the loosest level goes on with its chain. -/
def resume (atom : List Char → Reading Expr) :
    List (List Operator) → Expr → List Char → Option (Expr × List Char)
  | [], e, cs => some (e, cs)
  | ops :: tighter, e, cs => (readChain (readLevels atom tighter) ops cs.length e cs).result

theorem resume_of_stops (hgraded : Graded m ls) (hstops : Stops m after) :
    resume atom ls e (skipBlanks after) = some (e, skipBlanks after) := by
  cases hgraded with
  | nil => rfl
  | @cons _ ops tighter level =>
      have hop : (readOperator ops (skipBlanks (skipBlanks after))).result = none := by
        refine readOperator_eq_none fun op hmem => ?_
        rw [skipBlanks_skipBlanks]
        exact hstops.operator op ((level op).1 hmem).ge
      refine readChain_of_link_none (Option.eq_none_iff_forall_ne_some.2 ?_)
      rintro ⟨⟨op, rhs⟩, rest⟩ hlink
      obtain ⟨left, hread, -⟩ := readLink_eq_some_iff.1 hlink
      rw [hop] at hread
      cases hread

theorem resume_of_link {tighter : List (List Operator)} {rhs : Expr}
    (hoperand : Sound strength (readLevels atom tighter))
    (h : (readLink (readLevels atom tighter) ops cs).result = some ((op, rhs), rest)) :
    resume atom (ops :: tighter) lhs cs = resume atom (ops :: tighter) (binary op lhs rhs) rest := by
  have hlt := length_lt_of_link hoperand h
  obtain ⟨n, hn⟩ : ∃ n, cs.length = n + 1 := ⟨cs.length - 1, by omega⟩
  rw [resume, hn, readChain_of_link h]
  exact readChain_congr_steps hoperand (by omega) (Nat.le_refl _)

/-- A level whose first operand ends where reading stops resumes there. -/
theorem readLevels_cons_of_stops {tighter : List (List Operator)} (hgraded : Graded m tighter)
    (hstops : Stops m after)
    (h : (readLevels atom tighter cs).result = resume atom tighter e (skipBlanks after)) :
    (readLevels atom (ops :: tighter) cs).result =
      resume atom (ops :: tighter) e (skipBlanks after) := by
  rw [resume_of_stops hgraded hstops] at h
  rw [readLevels, Reading.result_andThen, h]
  rfl

theorem readLevels_skipBlanks (hatom : ∀ cs, atom (skipBlanks cs) = atom cs) :
    readLevels atom ls (skipBlanks cs) = readLevels atom ls cs := by
  induction ls generalizing cs with
  | nil => exact hatom cs
  | cons ops tighter ih => rw [readLevels, readLevels, ih]

theorem readAtom_skipBlanks : readAtom inner (skipBlanks cs) = readAtom inner cs := by
  rw [readAtom, readAtom, skipBlanks_skipBlanks]

/-- To read the text before any text where reading may stop is to resume with the expression. The
brackets of the text are nested less deep than it has characters. -/
def Complete (strength : Nat) (next : Option Char) (text : List Char) (e : Expr) : Prop :=
  ∀ depth after m ls, after.head? = next → (skipBlanks (text ++ after)).length ≤ depth →
    Graded m ls → (∀ op : Operator, strength ≤ op.level → m ≤ op.level) →
    Stops (m + 1) after →
    (readLevels (readAtom (readNested depth)) ls (text ++ after)).result =
      resume (readAtom (readNested depth)) ls e (skipBlanks after)

theorem complete_of_atom
    (h : ∀ depth after, after.head? = next → (skipBlanks (text ++ after)).length ≤ depth →
      (∀ c ∈ after.head?, c ≠ 'x' ∧ c ≠ 'X') →
      (readAtom (readNested depth) (text ++ after)).result = some (e, skipBlanks after)) :
    Complete strength next text e := by
  intro depth after m ls hnext hdepth hgraded hle hstops
  clear hle
  induction hgraded with
  | nil => exact h depth after hnext hdepth hstops.unmarked
  | cons _ _ above ih =>
      exact readLevels_cons_of_stops above hstops (ih (hstops.mono (Nat.le_succ _)))

/-- At the level of an operator the chain takes up the operator behind its left operand. -/
theorem readLevels_operation {left right : List Char} {rhs : Expr}
    {tighter : List (List Operator)} (hgraded : Graded op.level (ops :: tighter))
    (hright : Spells (op.level + 1) after.head? right rhs)
    (ihleft : Complete op.level op.text.head? left lhs)
    (ihright : Complete (op.level + 1) after.head? right rhs)
    (hdepth : (skipBlanks (left ++ (op.text ++ (right ++ after)))).length ≤ depth)
    (hstops : Stops (op.level + 1) after) :
    (readLevels (readAtom (readNested depth)) (ops :: tighter)
      (left ++ (op.text ++ (right ++ after)))).result =
        resume (readAtom (readNested depth)) (ops :: tighter) (binary op lhs rhs)
          (skipBlanks after) := by
  obtain _ | ⟨level, ordered, above⟩ := hgraded
  have hcontinuing : ∀ c ∈ (right ++ after).head?, c ∉ continuing := by
    obtain ⟨c, tail, rfl, hc⟩ := hright.head
    rintro d ⟨⟩
    exact hc
  have hoperand := sound_readLevels above fun _ => sound_readAtom (sound_readNested depth)
  have hlhs := ihleft depth (op.text ++ (right ++ after)) _ (ops :: tighter)
    (head?_operator_append _ _) hdepth (.cons level ordered above) (fun _ h => h)
    (stops_operator op hcontinuing)
  have hdepthRight : (skipBlanks (right ++ after)).length ≤ depth := by
    refine Nat.le_trans ?_ hdepth
    rw [← List.append_assoc]
    exact length_skipBlanks_append_le _ _
  have hrhs : (readLevels (readAtom (readNested depth)) tighter
      (skipBlanks (right ++ after))).result = some (rhs, skipBlanks after) := by
    rw [readLevels_skipBlanks fun _ => readAtom_skipBlanks,
      ihright depth after _ tighter rfl hdepthRight above (fun _ h => h)
        (hstops.mono (Nat.le_succ _)),
      resume_of_stops above hstops]
  have hop := readOperator_text ordered ((level op).2 rfl) hcontinuing
  rw [← skipBlanks_operator] at hop
  rw [hlhs, skipBlanks_operator]
  exact resume_of_link hoperand (readLink_eq_some_iff.2 ⟨_, hop, hrhs⟩)

theorem Complete.operation {left right : List Char} {rhs : Expr}
    (strong : strength ≤ op.level) (hright : Spells (op.level + 1) next right rhs)
    (ihleft : Complete op.level op.text.head? left lhs)
    (ihright : Complete (op.level + 1) next right rhs) :
    Complete strength next (left ++ op.text ++ right) (binary op lhs rhs) := by
  intro depth after m ls hnext hdepth hgraded hle hstops
  have hm := hle op strong
  clear hle
  subst hnext
  rw [List.append_assoc, List.append_assoc] at hdepth ⊢
  -- The levels looser than the operator read it whole as their first operand.
  induction hgraded with
  | nil top =>
      have htop := top op
      omega
  | @cons m ops tighter level ordered above ih =>
      by_cases heq : op.level = m
      · subst heq
        exact readLevels_operation (.cons level ordered above) hright ihleft ihright hdepth hstops
      · exact readLevels_cons_of_stops above hstops
          (ih (hstops.mono (Nat.le_succ _)) (by omega))

theorem Complete.padded {before trailing : List Char} (leading : Blanks before)
    (htrailing : Blanks trailing) (ih : Complete strength (trailing.head?.or next) text e) :
    Complete strength next (before ++ text ++ trailing) e := by
  intro depth after m ls hnext hdepth hgraded hle hstops
  have hafter : skipBlanks (before ++ text ++ trailing ++ after) =
      skipBlanks (text ++ (trailing ++ after)) := by
    rw [List.append_assoc, List.append_assoc, skipBlanks_append leading]
  rw [hafter] at hdepth
  have hread := ih depth (trailing ++ after) m ls (by rw [List.head?_append, hnext]) hdepth
    hgraded hle (hstops.blanks htrailing)
  rw [skipBlanks_append htrailing, ← readLevels_skipBlanks fun _ => readAtom_skipBlanks,
    ← hafter, readLevels_skipBlanks fun _ => readAtom_skipBlanks] at hread
  exact hread

/-! ### Atoms -/

theorem complete_decimal {digits : List Char} {value : Int64} (run : Run Char.isDigit next digits)
    (fits : value.toInt = ofDigits 10 digits) : Complete strength next digits (const value) := by
  refine complete_of_atom fun depth after hnext _ hunmarked => ?_
  subst hnext
  obtain ⟨d, ds, rfl⟩ := List.exists_cons_of_ne_nil run.nonempty
  have hd : isBlank d = false :=
    isBlank_of_isHexDigit (isHexDigit_of_isDigit (run.members d List.mem_cons_self))
  -- The digit zero would begin a hexadecimal numeral, were it not for what follows.
  have hhexadecimal : (readHexadecimal (d :: ds ++ after)).result = none := by
    refine Option.eq_none_iff_forall_ne_some.2 fun ⟨e, rest⟩ hread => ?_
    obtain ⟨x, digits, _, htext, hx, -⟩ := readHexadecimal_eq_some_iff.1 hread
    obtain ⟨rfl, htail⟩ := List.cons.inj htext
    cases ds with
    | nil =>
        have hmark := hunmarked x (by rw [show after = x :: (digits ++ rest) from htail]; rfl)
        exact hx.elim hmark.1 hmark.2
    | cons c ds =>
        obtain ⟨rfl, -⟩ := List.cons.inj htail
        have hdigit := run.members c (by simp)
        rcases hx with rfl | rfl <;> revert hdigit <;> decide
  have hdecimal := readDecimal_eq_some_iff.2 ⟨d :: ds, value, rfl, run, fits, rfl⟩
  refine readAtom_eq_some_iff.2 ⟨after, ?_, rfl⟩
  rw [List.cons_append, skipBlanks_cons hd, ← List.cons_append, hhexadecimal, hdecimal]
  rfl

theorem complete_hexadecimal {x : Char} {digits : List Char} {value : Int64}
    (hx : x = 'x' ∨ x = 'X') (run : Run isHexDigit next digits)
    (fits : value.toInt = ofDigits 16 digits) :
    Complete strength next ('0' :: x :: digits) (const value) := by
  refine complete_of_atom fun depth after hnext _ _ => ?_
  subst hnext
  have hhexadecimal :=
    readHexadecimal_eq_some_iff.2 ⟨x, digits, value, rfl, hx, run, fits, rfl⟩
  refine readAtom_eq_some_iff.2 ⟨after, ?_, rfl⟩
  rw [List.cons_append, skipBlanks_cons (by decide), List.cons_append, hhexadecimal]
  rfl

theorem complete_identifier (run : Run isIdentifierContinue next ['o', 'p', 'a', 'r', 'g']) :
    Complete strength next ['o', 'p', 'a', 'r', 'g'] oparg := by
  refine complete_of_atom fun depth after hnext _ _ => ?_
  subst hnext
  have hvariable := readVariable_eq_some_iff.2 ⟨rfl, run, rfl⟩
  refine readAtom_eq_some_iff.2 ⟨after, ?_, rfl⟩
  have hskip : skipBlanks (['o', 'p', 'a', 'r', 'g'] ++ after) =
      ['o', 'p', 'a', 'r', 'g'] ++ after := skipBlanks_cons (by decide) _
  rw [hskip, hvariable]
  rfl

/-- Where nothing that follows can be taken up, the text is read whole. -/
theorem Complete.readLevels_levels (h : Complete 0 next text e) (hstops : Stops 1 after)
    (hnext : after.head? = next) (hdepth : (skipBlanks (text ++ after)).length ≤ depth) :
    (readLevels (readAtom (readNested depth)) levels (skipBlanks (text ++ after))).result =
      some (e, skipBlanks after) := by
  have hloosest : ∀ op : Operator, 0 ≤ op.level → 1 ≤ op.level := by
    intro op _
    cases op <;> decide
  rw [readLevels_skipBlanks fun _ => readAtom_skipBlanks,
    h depth after 1 levels hnext hdepth graded_levels hloosest (hstops.mono (Nat.le_succ _)),
    resume_of_stops graded_levels hstops]

theorem Complete.readNested {closing : Char} (h : Complete 0 (some closing) text e)
    (hclosing : closing ∈ brackets) (hdepth : (text ++ closing :: rest).length < depth) :
    (readNested depth (skipBlanks (text ++ closing :: rest))).result =
      some (e, closing :: rest) := by
  have hlength := Text.length_skipBlanks_le (text ++ closing :: rest)
  obtain ⟨n, rfl⟩ : ∃ n, depth = n + 1 := ⟨depth - 1, by omega⟩
  have hread := h.readLevels_levels (stops_bracket hclosing 1 rest) rfl
    (Nat.le_of_lt_succ (Nat.lt_of_le_of_lt hlength hdepth))
  rwa [skipBlanks_bracket hclosing] at hread

theorem Complete.readEnclosed {opening closing : Char} (h : Complete 0 (some closing) text e)
    (hclosing : closing ∈ brackets) (hdepth : (text ++ closing :: rest).length < depth) :
    (readEnclosed (Expr.readNested depth) opening closing
      (opening :: (text ++ closing :: rest))).result = some (e, rest) :=
  readEnclosed_eq_some_iff.2
    ⟨_, _, rfl, h.readNested hclosing hdepth, skipBlanks_bracket hclosing rest⟩

theorem Complete.readBlock {before : List Char} (h : Complete 0 (some '\x7d') text e)
    (hbefore : Blanks before) (hdepth : (text ++ '\x7d' :: rest).length < depth) :
    (readBlock (Expr.readNested depth) (before ++ '\x7b' :: (text ++ '\x7d' :: rest))).result =
      some (e, skipBlanks rest) := by
  refine readBlock_eq_some_iff.2 ⟨rest, ?_, rfl⟩
  rw [skipBlanks_append hbefore, skipBlanks_cons (by decide)]
  exact h.readEnclosed (by decide) hdepth

theorem Complete.parentheses (h : Complete 0 (some ')') text e) :
    Complete strength next ('(' :: text ++ [')']) e := by
  refine complete_of_atom fun depth after _ hdepth _ => ?_
  have htext : '(' :: text ++ [')'] ++ after = '(' :: (text ++ ')' :: after) := by
    simp only [List.append_assoc, List.cons_append, List.nil_append]
  have hskip : skipBlanks ('(' :: (text ++ ')' :: after)) = '(' :: (text ++ ')' :: after) :=
    skipBlanks_cons (by decide) _
  rw [htext, hskip, List.length_cons] at hdepth
  refine readAtom_eq_some_iff.2 ⟨after, ?_, rfl⟩
  rw [htext, hskip, h.readEnclosed (by decide) hdepth]
  rfl

theorem Complete.conditional {blank : Char}
    {conditionText thenText beforeElse afterElse elseText : List Char}
    {condition thenBranch elseBranch : Expr} (hblank : isBlank blank = true)
    (hcondition : Complete 0 (some '\x7b') conditionText condition)
    (hthen : Complete 0 (some '\x7d') thenText thenBranch) (hbefore : Blanks beforeElse)
    (hafter : Blanks afterElse) (helse : Complete 0 (some '\x7d') elseText elseBranch) :
    Complete strength next
      ('i' :: 'f' :: blank :: conditionText ++ '\x7b' :: thenText ++ '\x7d' :: beforeElse ++
        ['e', 'l', 's', 'e'] ++ afterElse ++ '\x7b' :: elseText ++ ['\x7d'])
      (ifElse condition thenBranch elseBranch) := by
  refine complete_of_atom fun depth after _ hdepth _ => ?_
  obtain ⟨behindElse, hbehindElse⟩ :
      ∃ cs, cs = afterElse ++ '\x7b' :: (elseText ++ '\x7d' :: after) := ⟨_, rfl⟩
  obtain ⟨behind, hbehind⟩ : ∃ cs, cs = beforeElse ++ (['e', 'l', 's', 'e'] ++ behindElse) :=
    ⟨_, rfl⟩
  have htext : 'i' :: 'f' :: blank :: conditionText ++ '\x7b' :: thenText ++
      '\x7d' :: beforeElse ++ ['e', 'l', 's', 'e'] ++ afterElse ++ '\x7b' :: elseText ++
        ['\x7d'] ++ after =
      'i' :: 'f' :: blank :: (conditionText ++ '\x7b' :: (thenText ++ '\x7d' :: behind)) := by
    rw [hbehind, hbehindElse]
    simp only [List.append_assoc, List.cons_append]
    rfl
  have hlengthElse := congrArg List.length hbehindElse
  have hlength := congrArg List.length hbehind
  rw [htext] at hdepth ⊢
  rw [skipBlanks_cons (by decide)] at hdepth
  simp only [List.length_cons, List.length_append, List.length_nil] at hdepth hlength hlengthElse
  have hreadElse : (Expr.readBlock (Expr.readNested depth) behindElse).result =
      some (elseBranch, skipBlanks after) := by
    rw [hbehindElse]
    refine helse.readBlock hafter ?_
    simp only [List.length_append, List.length_cons]
    omega
  have hskip : skipBlanks behind = ['e', 'l', 's', 'e'] ++ behindElse := by
    rw [hbehind, skipBlanks_append hbefore]
    exact skipBlanks_cons (by decide) _
  have hreadThen : (Expr.readBlock (Expr.readNested depth)
      ('\x7b' :: (thenText ++ '\x7d' :: behind))).result =
        some (thenBranch, ['e', 'l', 's', 'e'] ++ behindElse) := by
    rw [← hskip]
    refine hthen.readBlock .nil ?_
    simp only [List.length_append, List.length_cons]
    omega
  have hreadCondition : (Expr.readNested depth (skipBlanks
      (conditionText ++ '\x7b' :: (thenText ++ '\x7d' :: behind)))).result =
        some (condition, '\x7b' :: (thenText ++ '\x7d' :: behind)) := by
    refine hcondition.readNested (by decide) ?_
    simp only [List.length_append, List.length_cons]
    omega
  have hread := readConditional_eq_some_iff.2
    ⟨blank, _, _, _, _, _, _, rfl, hblank, hreadCondition, hreadThen, hreadElse, rfl⟩
  refine readAtom_eq_some_iff.2 ⟨skipBlanks after, ?_, (skipBlanks_skipBlanks after).symm⟩
  rw [skipBlanks_cons (by decide), hread]
  rfl

/-! ### The whole text -/

theorem Spells.complete (h : Spells strength next text e) : Complete strength next text e := by
  induction h with
  | decimal run fits => exact complete_decimal run fits
  | hexadecimal hx run fits => exact complete_hexadecimal hx run fits
  | identifier run => exact complete_identifier run
  | parentheses _ ih => exact ih.parentheses
  | conditional hblank _ _ hbefore hafter _ ihcondition ihthen ihelse =>
      exact .conditional hblank ihcondition ihthen hbefore hafter ihelse
  | operation strong _ hright ihleft ihright => exact .operation strong hright ihleft ihright
  | padded leading _ trailing ih => exact .padded leading trailing ih

theorem readAll_of_spells (h : Spells 0 none cs e) : (readAll cs).result = some (e, []) := by
  have hread : (read (skipBlanks cs)).result = some (e, []) := by
    have hlevels := h.complete.readLevels_levels (stops_nil 1) rfl (Nat.le_refl _)
    rwa [List.append_nil] at hlevels
  rw [readAll, Reading.result_andThen, hread]
  rfl

/-- A whole text is read exactly as it is spelled. -/
theorem parse_eq_ok_iff {text : String} : parse text = .ok e ↔ Spells 0 none text.toList e := by
  constructor
  · intro h
    unfold parse at h
    dsimp only at h
    split at h
    · next hread =>
        cases h
        exact spells_of_readAll hread
    · cases h
  · intro h
    have hread := readAll_of_spells h
    unfold parse
    dsimp only
    rw [hread]

theorem parseFor_eq_ok_iff {owner text : String} :
    parseFor owner text = .ok e ↔ parse text = .ok e := by
  unfold parseFor
  cases parse text <;> simp

theorem exists_of_parseFor_eq_error {owner text : String} {error : BuildError}
    (h : parseFor owner text = .error error) :
    ∃ span reason,
      parse text = .error span ∧ error = .invalidExpression owner text span reason := by
  unfold parseFor at h
  split at h
  · cases h
  · next span hspan => exact ⟨span, _, hspan, (Except.error.inj h).symm⟩

theorem Spells.right_unique {e' : Expr} (h : Spells 0 none cs e) (h' : Spells 0 none cs e') :
    e = e' := by
  have hread := readAll_of_spells h
  rw [readAll_of_spells h'] at hread
  exact (Prod.mk.inj (Option.some.inj hread)).1.symm

/-- The texts that are read as an expression are those that spell it, and no text spells two. -/
theorem parseFor_eq_ok_iff_spells (owner text : String) :
    (∀ e, parseFor owner text = .ok e ↔ Spells 0 none text.toList e) ∧
      {e | Spells 0 none text.toList e}.Subsingleton :=
  ⟨fun _ => parseFor_eq_ok_iff.trans parse_eq_ok_iff,
    fun _ h _ h' => Spells.right_unique h h'⟩

/-- A shift begins like the comparison and binds tighter. -/
theorem parseFor_eq_ok_iff_spells_shift :
    Spells 0 none "1 << oparg < 0x1F".toList
      (binary .lt (binary .shiftLeft one oparg) (const 31)) :=
  ((parseFor_eq_ok_iff_spells "SWAP" "1 << oparg < 0x1F").1 _).1 (by decide)

end Bytecode.Expr

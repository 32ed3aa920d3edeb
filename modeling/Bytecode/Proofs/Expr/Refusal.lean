import Bytecode.Error
import Bytecode.Proofs.Expr.Completeness
import Bytecode.Proofs.Expr.Viability

/-!
# Where reading gets stuck

A reading halts well behind a text when everything before its furthest refusal is viable. Each
combinator keeps this, so that it holds of a whole reader by the places that its parts are open at.
Refusals of abandoned alternatives are among those of a reading: each alternative has to halt well,
whether or not it is the one that is taken. A rejected literal or name counts as a refusal of its
first character, and no condition is put on what it has read.
-/

namespace Bytecode.Expr

open Text (Reading isBlank isHexDigit isIdentifierContinue skipBlanks sharedLength readWord
  readBlanks readRun readWord_eq_some_iff)

variable {α β : Type} {before used cs word text : List Char} {r : Reading α}
  {strength : Nat} {lhs : Expr} {inner atom operand : List Char → Reading Expr}
  {ops : List Operator} {opening closing : Char} {member : Char → Bool}

/-- The reading of `cs`, which stands behind `before`, has its furthest refusal behind a viable
text. -/
def Halts (before cs : List Char) (r : Reading α) : Prop :=
  ∃ done left, cs = done ++ left ∧ r.refused = left.length ∧ Viable (before ++ done)

/-! ### Combinators -/

theorem halts_start (h : Viable before) (result : Option (α × List Char)) :
    Halts before cs ⟨result, cs.length⟩ :=
  ⟨[], cs, rfl, rfl, by rwa [List.append_nil]⟩

namespace Halts

/-- A reading that starts further on. -/
theorem later (h : Halts (before ++ used) cs r) : Halts before (used ++ cs) r := by
  obtain ⟨done, left, rfl, hrefused, hviable⟩ := h
  refine ⟨used ++ done, left, (List.append_assoc ..).symm, hrefused, ?_⟩
  rwa [← List.append_assoc]

theorem blanks (h : ∀ bs, Blanks bs → cs = bs ++ skipBlanks cs →
    Halts (before ++ bs) (skipBlanks cs) r) : Halts before cs r := by
  obtain ⟨bs, hbs, hcs⟩ := exists_blanks cs
  rw [hcs]
  exact (h bs hbs hcs).later

theorem map (h : Halts before cs r) (f : α → β) : Halts before cs (r.map f) := h

theorem alsoRefused (h : Halts before cs r) {other : Reading β} (hother : Halts before cs other) :
    Halts before cs (r.alsoRefused other.refused) := by
  by_cases hle : other.refused ≤ r.refused
  · obtain ⟨done, left, hcs, hrefused, hviable⟩ := hother
    refine ⟨done, left, hcs, ?_, hviable⟩
    rw [Reading.refused_alsoRefused, Nat.min_eq_left hle, hrefused]
  · obtain ⟨done, left, hcs, hrefused, hviable⟩ := h
    refine ⟨done, left, hcs, ?_, hviable⟩
    rw [Reading.refused_alsoRefused, Nat.min_eq_right (by omega), hrefused]

theorem andThen (h : Halts before cs r) {next : α → List Char → Reading β}
    (hnext : ∀ value rest, r.result = some (value, rest) →
      ∃ used, cs = used ++ rest ∧ Halts (before ++ used) rest (next value rest)) :
    Halts before cs (r.andThen next) := by
  unfold Reading.andThen
  cases hresult : r.result with
  | none => exact h
  | some p =>
      obtain ⟨value, rest⟩ := p
      obtain ⟨used, rfl, hlater⟩ := hnext value rest hresult
      exact hlater.later.alsoRefused h

theorem orElse (h : Halts before cs r) {other : Unit → Reading α}
    (hother : Halts before cs (other ())) : Halts before cs (r.orElse other) := by
  unfold Reading.orElse
  cases hresult : r.result with
  | none => exact hother.alsoRefused h
  | some p => exact h

/-- No condition is put on a reading whose value is rejected. -/
theorem accepting (hbefore : Viable before) {f : α → Option β}
    (h : (∀ value rest, r.result = some (value, rest) → ∃ image, f value = some image) →
      Halts before cs r) :
    Halts before cs (.accepting cs r f) := by
  unfold Reading.accepting
  cases hresult : r.result with
  | none => exact h fun value rest hsome => by rw [hresult] at hsome; cases hsome
  | some p =>
      obtain ⟨value, rest⟩ := p
      cases himage : f value with
      | none =>
          simp only [himage]
          exact halts_start hbefore none
      | some image =>
          simp only [himage]
          refine h fun value' rest' hsome => ⟨image, ?_⟩
          rw [hresult] at hsome
          cases hsome
          exact himage

end Halts

/-! ### Tokens -/

theorem exists_of_sharedLength (word cs : List Char) :
    ∃ done, done.length = sharedLength word cs ∧ done <+: word ∧ done <+: cs := by
  induction word generalizing cs with
  | nil => exact ⟨[], rfl, List.nil_prefix, List.nil_prefix⟩
  | cons c word ih =>
      cases cs with
      | nil => exact ⟨[], rfl, List.nil_prefix, List.nil_prefix⟩
      | cons d cs =>
          by_cases hcd : c = d
          · subst hcd
            obtain ⟨done, hlength, hword, hcs⟩ := ih cs
            refine ⟨c :: done, ?_, List.cons_prefix_cons.2 ⟨rfl, hword⟩,
              List.cons_prefix_cons.2 ⟨rfl, hcs⟩⟩
            simp only [sharedLength, if_true, List.length_cons, hlength]
          · refine ⟨[], ?_, List.nil_prefix, List.nil_prefix⟩
            simp only [sharedLength, hcd, if_false, List.length_nil]

theorem halts_readWord (h : Viable (before ++ word)) : Halts before cs (readWord word cs) := by
  unfold readWord
  by_cases hshared : sharedLength word cs = word.length
  · simp only [hshared, if_true]
    exact halts_start h.of_append _
  · obtain ⟨done, hlength, hword, left, rfl⟩ := exists_of_sharedLength word cs
    simp only [hshared, if_false]
    refine ⟨done, left, rfl, ?_, h.of_isPrefix ((List.prefix_append_right_inj _).2 hword)⟩
    show _ - _ = _
    rw [← hlength, List.length_append]
    omega

theorem halts_readBlanks (h : Viable before) : Halts before cs (readBlanks cs) := by
  unfold readBlanks
  split
  · split
    · exact halts_start h _
    · exact halts_start h _
  · exact halts_start h _

/-- A run is refused at its start, or behind its end. -/
theorem readRun_eq (member : Char → Bool) (cs : List Char) :
    readRun member cs = .refuse cs ∨ ∃ run rest, cs = run ++ rest ∧
      readRun member cs = ⟨some (run, rest), rest.length⟩ := by
  unfold readRun
  split
  · exact .inl rfl
  · exact .inr ⟨cs.takeWhile member, cs.dropWhile member,
      List.takeWhile_append_dropWhile.symm, rfl⟩

theorem halts_readRun (hbefore : Viable before)
    (h : ∀ run rest, (readRun member cs).result = some (run, rest) → Viable (before ++ run)) :
    Halts before cs (readRun member cs) := by
  rcases readRun_eq member cs with hrefuse | ⟨run, rest, hcs, hrun⟩
  · rw [hrefuse]
    exact halts_start hbefore none
  · have hviable : Viable (before ++ run) := h run rest (by rw [hrun])
    rw [hrun]
    exact ⟨run, rest, hcs, rfl, hviable⟩

/-! ### Atoms -/

/-- A reader halts well wherever a phrase of the strength may stand. -/
def Halting (strength : Nat) (reader : List Char → Reading Expr) : Prop :=
  ∀ before cs, Open strength before → Halts before cs (reader cs)

theorem halting_readDecimal : Halting strength readDecimal := by
  intro before cs hopen
  refine .accepting hopen.viable fun haccepted => halts_readRun hopen.viable fun run rest hrun => ?_
  obtain ⟨e, he⟩ := haccepted run rest hrun
  obtain ⟨value, hfits, -⟩ := literal?_eq_some_iff.1 he
  exact hopen _ _ _ (.decimal (readRun_eq_some_iff.1 hrun).2 hfits)

theorem halting_readHexadecimal : Halting strength readHexadecimal := by
  intro before cs hopen
  have hmark : ∀ x, x = 'x' ∨ x = 'X' → Viable (before ++ ['0', x]) := by
    intro x hx
    have hzero : Spells strength none ['0', x, '0'] (const 0) :=
      .hexadecimal hx (.singleton (by decide)) (by decide)
    exact (hopen _ _ _ hzero).of_isPrefix ⟨['0'], by simp⟩
  refine .accepting hopen.viable fun haccepted => ?_
  have hstart : Halts before cs
      ((readWord ['0', 'x'] cs).orElse fun _ => readWord ['0', 'X'] cs) :=
    .orElse (halts_readWord (hmark 'x' (.inl rfl))) (halts_readWord (hmark 'X' (.inr rfl)))
  refine hstart.andThen fun _ rest hword => ?_
  have hcs : ∃ x, (x = 'x' ∨ x = 'X') ∧ cs = ['0', x] ++ rest := by
    rw [Reading.result_orElse, Option.or_eq_some_iff, readWord_eq_some_iff,
      readWord_eq_some_iff] at hword
    rcases hword with hcs | ⟨-, hcs⟩
    · exact ⟨'x', .inl rfl, hcs⟩
    · exact ⟨'X', .inr rfl, hcs⟩
  obtain ⟨x, hx, hcs⟩ := hcs
  refine ⟨['0', x], hcs, halts_readRun (hmark x hx) fun run rest' hrun => ?_⟩
  obtain ⟨e, he⟩ := haccepted run rest' (by
    rw [Reading.result_andThen, hword]
    exact hrun)
  obtain ⟨value, hfits, -⟩ := literal?_eq_some_iff.1 he
  have hviable := hopen _ _ _ (.hexadecimal hx (readRun_eq_some_iff.1 hrun).2 hfits)
  rwa [List.append_assoc]

theorem halting_readVariable : Halting strength readVariable := by
  intro before cs hopen
  refine .accepting hopen.viable fun haccepted => halts_readRun hopen.viable fun run rest hrun => ?_
  obtain ⟨e, he⟩ := haccepted run rest hrun
  by_cases hname : run = ['o', 'p', 'a', 'r', 'g']
  · subst hname
    exact hopen _ _ _ (.identifier (readRun_eq_some_iff.1 hrun).2)
  · simp [hname] at he

theorem halts_readEnclosed (hsound : Sound 0 inner) (hinner : Halting 0 inner)
    (h : Encloses before opening closing) :
    Halts before cs (readEnclosed inner opening closing cs) := by
  have hopen := h.inside
  refine (halts_readWord hopen.viable).andThen fun _ rest hword => ?_
  refine ⟨[opening], (readWord_eq_some_iff _ _ _).1 hword, ?_⟩
  refine .blanks fun leading hleading _ => ?_
  refine (hinner _ _ (hopen.blanks hleading)).andThen fun e left hread => ?_
  obtain ⟨text, htext, hspells⟩ := hsound _ _ _ hread
  refine ⟨text, htext, .map ?_ _⟩
  refine .blanks fun trailing htrailing hleft => halts_readWord ?_
  rw [hleft] at hspells
  have hviable := h _ _ _ ((hspells.trail htrailing).lead hleading)
  simpa only [List.append_assoc, List.cons_append, List.nil_append] using hviable

theorem halts_readBlock (hsound : Sound 0 inner) (hinner : Halting 0 inner)
    (h : ∀ bs, Blanks bs → cs = bs ++ skipBlanks cs →
      Encloses (before ++ bs) '\x7b' '\x7d') :
    Halts before cs (readBlock inner cs) := by
  refine .blanks fun bs hbs hcs => ?_
  have hencloses := h bs hbs hcs
  refine (halts_readEnclosed hsound hinner hencloses).andThen fun e rest hread => ?_
  obtain ⟨text, htext, hspells⟩ := exists_of_readEnclosed hsound hread
  refine ⟨'\x7b' :: text ++ ['\x7d'], ?_, halts_start ?_ _⟩
  · rw [htext]
    simp only [List.append_assoc, List.cons_append, List.nil_append]
  · have hviable := hencloses _ _ _ hspells
    rwa [List.append_assoc] at hviable

/-- The word that opens a conditional and the blanks behind it. -/
theorem halts_readIf (hopen : Open strength before) {next : List Char → Reading α}
    (hnext : ∀ blank leading rest, isBlank blank = true → Blanks leading →
      Halts (before ++ 'i' :: 'f' :: blank :: leading) rest (next rest)) :
    Halts before cs ((readWord ['i', 'f'] cs).andThen fun _ rest =>
      (readBlanks rest).andThen fun _ rest => next rest) := by
  have hif : Viable (before ++ ['i', 'f']) := by
    have hcondition : Open 0 (before ++ ['i', 'f', ' ']) := hopen.afterIf (by decide)
    exact hcondition.viable.of_isPrefix ⟨[' '], by simp⟩
  refine (halts_readWord hif).andThen fun _ rest hword => ?_
  refine ⟨['i', 'f'], (readWord_eq_some_iff _ _ _).1 hword, ?_⟩
  refine (halts_readBlanks hif).andThen fun _ start hblanks => ?_
  obtain ⟨blank, cs', rfl, hblank, rfl⟩ := readBlanks_eq_some_iff.1 hblanks
  obtain ⟨leading, hleading, hcs'⟩ := exists_blanks cs'
  refine ⟨blank :: leading, by rw [List.cons_append, ← hcs'], ?_⟩
  rw [List.append_assoc]
  exact hnext blank leading _ hblank hleading

theorem halts_readElse (hsound : Sound 0 inner) (hinner : Halting 0 inner)
    (h : ∀ bs, Blanks bs → Encloses (before ++ ['e', 'l', 's', 'e'] ++ bs) '\x7b' '\x7d')
    (f : Expr → α) :
    Halts before cs ((readWord ['e', 'l', 's', 'e'] cs).andThen fun _ rest =>
      (readBlock inner rest).map f) := by
  have helse := (h [] .nil).inside.viable.of_append
  rw [List.append_nil] at helse
  refine (halts_readWord helse).andThen fun _ rest hword => ?_
  refine ⟨['e', 'l', 's', 'e'], (readWord_eq_some_iff _ _ _).1 hword, .map ?_ f⟩
  exact halts_readBlock hsound hinner fun bs hbs _ => h bs hbs

theorem halting_readConditional (hsound : Sound 0 inner) (hinner : Halting 0 inner) :
    Halting strength (readConditional inner) := by
  intro before cs hopen
  refine halts_readIf hopen fun blank leading start hblank hleading => ?_
  have hcondition : Open 0 (before ++ 'i' :: 'f' :: blank :: leading) := by
    have hopened := (hopen.afterIf hblank).blanks hleading
    simpa only [List.append_assoc, List.cons_append, List.nil_append] using hopened
  refine (hinner _ _ hcondition).andThen fun condition afterCondition hread => ?_
  obtain ⟨conditionText, hconditionText, hspells⟩ := hsound _ _ _ hread
  refine ⟨conditionText, hconditionText, ?_⟩
  have hwhole : ∀ bs ds, Blanks bs → afterCondition = bs ++ ds →
      Spells 0 ds.head? (leading ++ (conditionText ++ bs)) condition := by
    intro bs ds hbs hds
    rw [hds] at hspells
    exact (hspells.trail hbs).lead hleading
  have hthenBlock : Halts (before ++ 'i' :: 'f' :: blank :: leading ++ conditionText)
      afterCondition (readBlock inner afterCondition) := by
    refine halts_readBlock hsound hinner fun bs hbs hafterCondition => ?_
    have hencloses := hopen.thenBlock hblank (hwhole _ _ hbs hafterCondition)
    simpa only [List.append_assoc, List.cons_append, List.nil_append] using hencloses
  refine hthenBlock.andThen fun thenBranch afterThen hthen => ?_
  obtain ⟨bs, thenText, beforeElse, hafterCondition, hbs, hbeforeElse, hspellsThen⟩ :=
    exists_of_readBlock hsound hthen
  refine ⟨bs ++ '\x7b' :: thenText ++ '\x7d' :: beforeElse, hafterCondition, ?_⟩
  refine halts_readElse hsound hinner (fun afterElse hafterElse => ?_) _
  have hsplit : afterCondition =
      bs ++ ('\x7b' :: thenText ++ '\x7d' :: beforeElse ++ afterThen) := by
    rw [hafterCondition]
    simp only [List.append_assoc]
  have hencloses := hopen.elseBlock hblank (hwhole _ _ hbs hsplit) hspellsThen hbeforeElse
    hafterElse
  simpa only [List.append_assoc, List.cons_append, List.nil_append] using hencloses

/-- Every alternative halts well, taken or abandoned. -/
theorem halting_readAtom (hsound : Sound 0 inner) (hinner : Halting 0 inner) :
    Halting strength (readAtom inner) := by
  intro before cs hopen
  refine .blanks fun bs hbs _ => ?_
  have hstart := hopen.blanks hbs
  have henclosed : Halts (before ++ bs) (skipBlanks cs)
      (readEnclosed inner '(' ')' (skipBlanks cs)) :=
    halts_readEnclosed hsound hinner hstart.parenthesis
  refine Halts.andThen (.orElse (.orElse (.orElse ?_ ?_) ?_) (.orElse ?_ henclosed)) ?_
  · exact halting_readHexadecimal _ _ hstart
  · exact halting_readDecimal _ _ hstart
  · exact halting_readConditional hsound hinner _ _ hstart
  · exact halting_readVariable _ _ hstart
  · intro e rest hread
    simp only [Reading.result_orElse, Option.or_assoc] at hread
    obtain ⟨text, htext, hspells⟩ := exists_of_readAlternatives hsound hread
    exact ⟨text, htext, halts_start (hstart _ _ _ hspells) _⟩

/-! ### Operators -/

theorem halts_readOperator (h : ∀ op ∈ ops, Viable (before ++ op.text))
    (hbefore : Viable before) : Halts before cs (readOperator ops cs) := by
  induction ops with
  | nil => exact halts_start hbefore none
  | cons op ops ih =>
      have hfirst : Halts before cs (readWord op.text cs) :=
        halts_readWord (h op List.mem_cons_self)
      rw [readOperator_cons]
      exact (hfirst.map _).orElse (ih fun op hop => h op (List.mem_cons_of_mem _ hop))

theorem halts_readLink (hoperand : Halting (strength + 1) operand)
    (hops : ∀ op ∈ ops, op.level = strength) (hopen : Open strength before)
    (hlhs : Spells strength cs.head? text lhs) :
    Halts (before ++ text) cs (readLink operand ops cs) := by
  refine .blanks fun bs hbs hcs => ?_
  rw [hcs] at hlhs
  have hleft : Spells strength (skipBlanks cs).head? (text ++ bs) lhs := hlhs.trail hbs
  have hright : ∀ op ∈ ops, Open (strength + 1) (before ++ text ++ bs ++ op.text) := by
    intro op hop
    have hopened := hopen.operand hleft (hops op hop)
    simpa only [List.append_assoc] using hopened
  have hbefore : Viable (before ++ text ++ bs) := by
    rw [List.append_assoc]
    exact hopen _ _ _ hleft
  refine (halts_readOperator (fun op hop => (hright op hop).viable) hbefore).andThen ?_
  intro op rest hread
  obtain ⟨hop, hoperator⟩ := mem_of_readOperator hread
  refine ⟨op.text, hoperator, .blanks fun leading hleading _ => .map ?_ _⟩
  exact hoperand _ _ ((hright op hop).blanks hleading)

/-- The links of a chain are read behind the operation that has been built so far. -/
theorem halts_readChain (hsound : Sound (strength + 1) operand)
    (hoperand : Halting (strength + 1) operand) (hops : ∀ op ∈ ops, op.level = strength)
    (hopen : Open strength before) {steps : Nat} (hlhs : Spells strength cs.head? text lhs) :
    Halts (before ++ text) cs (readChain operand ops steps lhs cs) := by
  induction steps generalizing lhs cs text with
  | zero => exact halts_start (hopen _ _ _ hlhs) _
  | succ steps ih =>
      have hlink := halts_readLink hoperand hops hopen hlhs
      rw [readChain]
      split
      · exact hlink
      · next op rhs rest hread =>
          obtain ⟨link, rfl, hbinary⟩ := exists_of_readLink hsound hops hlhs hread
          have hlater := ih hbinary
          rw [← List.append_assoc] at hlater
          exact hlater.later.alsoRefused hlink

theorem halting_readLevels {ls : List (List Operator)} (hgraded : Graded strength ls)
    (hsound : ∀ strength, Sound strength atom) (hatom : ∀ strength, Halting strength atom) :
    Halting strength (readLevels atom ls) := by
  induction hgraded with
  | nil => exact hatom _
  | cons level _ above ih =>
      intro before cs hopen
      refine (ih _ _ (hopen.of_le (Nat.le_succ _))).andThen fun lhs rest hread => ?_
      obtain ⟨text, htext, hspells⟩ := sound_readLevels above hsound _ _ _ hread
      exact ⟨text, htext, halts_readChain (sound_readLevels above hsound) ih
        (fun op hop => (level op).1 hop) hopen (hspells.of_le (Nat.le_succ _))⟩

/-! ### Whole texts -/

theorem halting_readNested (depth : Nat) : Halting 0 (readNested depth) := by
  induction depth with
  | zero => exact fun _ _ hopen => halts_start hopen.viable none
  | succ depth ih =>
      have hsound := sound_readNested depth
      intro before cs hopen
      exact halting_readLevels graded_levels (fun _ => sound_readAtom hsound)
        (fun _ => halting_readAtom hsound ih) before cs (hopen.of_le (Nat.zero_le _))

theorem halts_readAll (cs : List Char) : Halts [] cs (readAll cs) := by
  refine .blanks fun bs hbs _ => ?_
  have hopen := open_nil.blanks hbs
  refine (halting_readNested _ _ _ hopen).andThen fun e rest hread => ?_
  obtain ⟨text, htext, hspells⟩ := sound_readNested _ _ _ _ hread
  refine ⟨text, htext, ?_⟩
  split
  · exact halts_start (hopen _ _ _ hspells) _
  · next left hleft =>
      obtain ⟨trailing, htrailing, hrest⟩ := exists_blanks rest
      rw [hrest] at hspells
      have hviable := hopen _ _ _ (hspells.trail htrailing)
      refine ⟨trailing, skipBlanks rest, hrest, rfl, ?_⟩
      rwa [List.append_assoc]

/-! ### Reported ranges -/

theorem utf8Length_eq (cs : List Char) : utf8Length cs = (String.ofList cs).utf8ByteSize := by
  induction cs with
  | nil => rfl
  | cons c cs ih =>
      calc utf8Length (c :: cs) = c.utf8Size + utf8Length cs := rfl
        _ = (String.singleton c ++ String.ofList cs).utf8ByteSize := by
            rw [ih, String.utf8ByteSize_append, String.utf8ByteSize_singleton]
        _ = (String.ofList (c :: cs)).utf8ByteSize := by
            rw [String.ofList_cons]

theorem isValid_utf8ByteSize (before after : String) :
    (⟨before.utf8ByteSize⟩ : String.Pos.Raw).IsValid (before ++ after) :=
  String.Pos.Raw.isValid_iff_exists_append.2 ⟨before, after, rfl, rfl⟩

theorem size_le_append (before after : String) :
    before.utf8ByteSize ≤ (before ++ after).utf8ByteSize := by
  rw [String.utf8ByteSize_append]
  exact Nat.le_add_right _ _

theorem ofLeft_append (done left : List Char) :
    Span.ofLeft (done ++ left) left.length =
      ⟨utf8Length done, utf8Length done + utf8Length (left.take 1)⟩ := by
  have hbefore : (done ++ left).length - left.length = done.length := by
    rw [List.length_append, Nat.add_sub_cancel]
  simp only [Span.ofLeft, hbefore, List.take_left, List.drop_left]

theorem utf8Length_take_one (cs : List Char) :
    utf8Length (cs.take 1) = cs.head?.elim 0 Char.utf8Size := by
  cases cs <;> rfl

/-- The range is that of the first character of `after` in `before ++ after`; at the end of the text
it is empty. -/
structure Span.Marks (span : Span) (before after : String) : Prop where
  start_eq : span.start = before.utf8ByteSize
  start_le_stop : span.start ≤ span.stop
  stop_le_size : span.stop ≤ (before ++ after).utf8ByteSize
  start_valid : (⟨span.start⟩ : String.Pos.Raw).IsValid (before ++ after)
  stop_valid : (⟨span.stop⟩ : String.Pos.Raw).IsValid (before ++ after)
  length_eq : span.stop - span.start = after.toList.head?.elim 0 Char.utf8Size

theorem marks_ofLeft (done left : List Char) :
    (Span.ofLeft (done ++ left) left.length).Marks (String.ofList done) (String.ofList left) := by
  have hstop : utf8Length done + utf8Length (left.take 1) =
      (String.ofList done ++ String.ofList (left.take 1)).utf8ByteSize := by
    rw [utf8Length_eq, utf8Length_eq, String.utf8ByteSize_append]
  have hleft : String.ofList left = String.ofList (left.take 1) ++ String.ofList (left.drop 1) := by
    rw [← String.ofList_append, List.take_append_drop]
  rw [ofLeft_append]
  constructor
  case start_eq => exact utf8Length_eq done
  case start_le_stop => exact Nat.le_add_right _ _
  case stop_le_size =>
    show utf8Length done + utf8Length (left.take 1) ≤ _
    rw [hstop, hleft, ← String.append_assoc]
    exact size_le_append _ _
  case start_valid =>
    show (⟨utf8Length done⟩ : String.Pos.Raw).IsValid _
    rw [utf8Length_eq]
    exact isValid_utf8ByteSize _ _
  case stop_valid =>
    show (⟨utf8Length done + utf8Length (left.take 1)⟩ : String.Pos.Raw).IsValid _
    rw [hstop, hleft, ← String.append_assoc]
    exact isValid_utf8ByteSize _ _
  case length_eq =>
    rw [String.toList_ofList, ← utf8Length_take_one]
    exact Nat.add_sub_cancel_left ..

theorem eq_of_parse_eq_error {text : String} {span : Span} (h : parse text = .error span) :
    span = .ofLeft text.toList (readAll text.toList).refused := by
  unfold parse at h
  dsimp only at h
  split at h
  · cases h
  · exact (Except.error.inj h).symm

/-- A text that cannot be read is reported at the range of one character, or at its end, and what
stands before that place begins a text that can be read. -/
theorem parseFor_error_viable {owner text : String} {error : BuildError}
    (h : parseFor owner text = .error error) :
    ∃ span reason before after, error = .invalidExpression owner text span reason ∧
      text = before ++ after ∧ span.Marks before after ∧
      ∃ more e, parseFor owner (before ++ more) = .ok e := by
  obtain ⟨span, reason, hparse, herror⟩ := exists_of_parseFor_eq_error h
  obtain ⟨done, left, hsplit, hrefused, more, e, hspells⟩ := halts_readAll text.toList
  refine ⟨span, reason, String.ofList done, String.ofList left, herror, ?_, ?_,
    String.ofList more, e, ?_⟩
  · rw [← String.ofList_append, ← hsplit, String.ofList_toList]
  · rw [eq_of_parse_eq_error hparse, hrefused, hsplit]
    exact marks_ofLeft done left
  · rw [parseFor_eq_ok_iff, parse_eq_ok_iff, ← String.ofList_append, String.toList_ofList]
    exact hspells

/-- The comparison is refused, and the parenthesis before it can be closed otherwise. -/
theorem parseFor_error_viable_comparison :
    ∃ before after, "(oparg ≥ 2)" = before ++ after ∧ (⟨7, 10⟩ : Span).Marks before after ∧
      ∃ more e, parseFor "SWAP" (before ++ more) = .ok e := by
  have herror : parseFor "SWAP" "(oparg ≥ 2)" = .error
      (.invalidExpression "SWAP" "(oparg ≥ 2)" ⟨7, 10⟩ "unexpected character") := by decide
  obtain ⟨span, reason, before, after, hreported, hsplit, hmarks, hviable⟩ :=
    parseFor_error_viable herror
  cases hreported
  exact ⟨before, after, hsplit, hmarks, hviable⟩

end Bytecode.Expr

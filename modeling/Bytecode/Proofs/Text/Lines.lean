import Bytecode.Text.Lines
import Mathlib.Data.List.DropRight

/-!
# Line ends of either kind

A carriage return in front of a line feed belongs to the line end. A line that loses its trailing
blanks loses it anyway, so that it makes no difference there whether lines end at the line feed alone
or with the carriage return. What trimming does not take away is a carriage return with a character
other than a blank behind it on the same line.
-/

namespace Bytecode.Text

variable {cs line : List Char} {ls others : List (List Char)} {c : Char}

def inFirst (c : Char) (ls : List (List Char)) : List (List Char) := (c :: ls.headD []) :: ls.tail

/-- The lines of a text in which a line feed ends a line, alone or behind a carriage return. Neither
belongs to the line, and a final line end opens no further line. -/
def brokenLines : List Char → List (List Char)
  | [] => []
  | '\n' :: cs => [] :: brokenLines cs
  | '\r' :: '\n' :: cs => [] :: brokenLines cs
  | c :: cs => inFirst c (brokenLines cs)

example : brokenLines "a\r\r\n\nb\rc\n".toList = [['a', '\r'], [], ['b', '\r', 'c']] := by decide

/-- The lines of a text without its blanks at either end, each without its trailing blanks. -/
def shownLines (text : String) : List (List Char) := (brokenLines (trim text.toList)).map trimEnd

/-! ### Complete lines -/

theorem brokenLines_append_lineFeed (hfeed : '\n' ∉ line) (hreturn : line.getLast? ≠ some '\r')
    (rest : List Char) : brokenLines (line ++ '\n' :: rest) = line :: brokenLines rest := by
  induction line with
  | nil => rfl
  | cons c line ih =>
      obtain ⟨hc, hline⟩ := not_or.1 fun h => hfeed (List.mem_cons.2 h)
      have hbroken : brokenLines (c :: (line ++ '\n' :: rest)) =
          inFirst c (brokenLines (line ++ '\n' :: rest)) := by
        rw [brokenLines]
        · exact Ne.symm hc
        · rintro others rfl hothers
          cases line with
          | nil => exact hreturn rfl
          | cons d line =>
              obtain ⟨rfl, -⟩ := List.cons.inj hothers
              exact hline List.mem_cons_self
      have hlast : line.getLast? ≠ some '\r' := by
        cases line with
        | nil => simp
        | cons d line => rwa [List.getLast?_cons_cons] at hreturn
      rw [List.cons_append, hbroken, ih hline hlast]
      rfl

/-- Lines that are ended by line feeds are the lines of the text. -/
theorem brokenLines_flatMap (hfeed : ∀ line ∈ ls, '\n' ∉ line)
    (hreturn : ∀ line ∈ ls, line.getLast? ≠ some '\r') :
    brokenLines (ls.flatMap fun line => line ++ ['\n']) = ls := by
  induction ls with
  | nil => rfl
  | cons line ls ih =>
      rw [List.forall_mem_cons] at hfeed hreturn
      rw [List.flatMap_cons, List.append_assoc, List.singleton_append,
        brokenLines_append_lineFeed hfeed.1 hreturn.1, ih hfeed.2 hreturn.2]

/-! ### Trailing blanks -/

theorem trimEnd_eq_nil_iff : trimEnd cs = [] ↔ ∀ c ∈ cs, isBlank c = true :=
  List.rdropWhile_eq_nil_iff

theorem trimEnd_cons (c : Char) (cs : List Char) :
    trimEnd (c :: cs) = if trimEnd cs = [] ∧ isBlank c = true then [] else c :: trimEnd cs := by
  by_cases hcs : cs.reverse.dropWhile isBlank = []
  · cases hc : isBlank c <;> simp [trimEnd, List.dropWhile_append, hcs, hc]
  · simp [trimEnd, List.dropWhile_append, hcs]

/-- What is left does not end in a blank. -/
theorem isBlank_of_getLast?_trimEnd (h : (trimEnd cs).getLast? = some c) : isBlank c = false := by
  have hne : trimEnd cs ≠ [] := by
    intro hnil
    rw [hnil] at h
    cases h
  rw [List.getLast?_eq_some_getLast hne, Option.some.injEq] at h
  rw [← h]
  exact Bool.eq_false_iff.2 (List.rdropWhile_last_not isBlank cs hne)

/-! ### Lines without their trailing blanks -/

theorem lines_cons (hc : c ≠ '\n') (cs : List Char) : lines (c :: cs) = inFirst c (lines cs) := by
  rw [lines, if_neg hc]
  cases lines cs <;> rfl

theorem map_trimEnd_inFirst (c : Char) (h : ls.map trimEnd = others.map trimEnd) :
    (inFirst c ls).map trimEnd = (inFirst c others).map trimEnd := by
  cases ls <;> cases others <;> simp_all [inFirst, trimEnd_cons]

/-- Without trailing blanks, lines are the same whether or not the carriage return in front of a
line feed belongs to them. -/
theorem map_trimEnd_lines (cs : List Char) :
    (lines cs).map trimEnd = (brokenLines cs).map trimEnd := by
  induction cs using brokenLines.induct with
  | case1 => rfl
  | case2 cs ih => simpa [lines, brokenLines] using ih
  | case3 cs ih =>
      have hblank : trimEnd ['\r'] = trimEnd [] := by decide
      simpa [lines, brokenLines, hblank] using ih
  | case4 c cs hfeed hreturn ih =>
      rw [lines_cons hfeed, brokenLines]
      · exact map_trimEnd_inFirst c ih
      · exact hfeed
      · exact hreturn

theorem trimmedLines_eq (text : String) :
    trimmedLines text = (shownLines text).map String.ofList := by
  rw [shownLines, ← map_trimEnd_lines, List.map_map]
  rfl

theorem lineFeed_notMem_shownLines {text : String} (h : line ∈ shownLines text) : '\n' ∉ line := by
  rw [shownLines, ← map_trimEnd_lines] at h
  obtain ⟨line, hline, rfl⟩ := List.mem_map.1 h
  have hkept : trimEnd line <+: line := List.rdropWhile_prefix isBlank line
  exact fun hmem => lineFeed_notMem_lines _ line hline (hkept.subset hmem)

/-! ### Carriage returns within lines -/

/-- A carriage return with a character other than a blank behind it on the same line. -/
def InnerReturn (cs : List Char) : Prop :=
  ∃ front back, cs = front ++ '\r' :: back ∧
    ∃ c ∈ back.takeWhile fun c => c ≠ '\n', isBlank c = false

theorem innerReturn_cons_iff :
    InnerReturn (c :: cs) ↔
      (c = '\r' ∧ ∃ d ∈ cs.takeWhile fun d => d ≠ '\n', isBlank d = false) ∨ InnerReturn cs := by
  constructor
  · rintro ⟨front, back, hsplit, hback⟩
    cases front with
    | nil =>
        obtain ⟨rfl, rfl⟩ := List.cons.inj hsplit
        exact .inl ⟨rfl, hback⟩
    | cons d front => exact .inr ⟨front, back, (List.cons.inj hsplit).2, hback⟩
  · rintro (⟨rfl, h⟩ | ⟨front, back, rfl, h⟩)
    · exact ⟨[], cs, rfl, h⟩
    · exact ⟨c :: front, back, rfl, h⟩

theorem return_mem_trimEnd_cons_iff :
    '\r' ∈ trimEnd (c :: cs) ↔ (c = '\r' ∧ ∃ d ∈ cs, isBlank d = false) ∨ '\r' ∈ trimEnd cs := by
  have hleft : (∃ d ∈ cs, isBlank d = false) ↔ trimEnd cs ≠ [] := by
    simp [trimEnd_eq_nil_iff]
  rw [hleft, trimEnd_cons]
  split
  · next h => simp [h.1]
  · next h =>
      have hblank : c = '\r' → trimEnd cs ≠ [] := by
        rintro rfl hnil
        exact h ⟨hnil, by decide⟩
      rw [List.mem_cons, eq_comm, and_iff_left_of_imp hblank]

theorem headD_lines (cs : List Char) :
    (lines cs).headD [] = cs.takeWhile fun c => c ≠ '\n' := by
  induction cs with
  | nil => rfl
  | cons c cs ih =>
      by_cases hc : c = '\n'
      · simp [lines, hc]
      · rw [lines_cons hc, List.takeWhile_cons_of_pos (by simpa using hc), ← ih]
        rfl

theorem innerReturn_nil : ¬ InnerReturn [] := by
  rintro ⟨front, back, hsplit, -⟩
  simp at hsplit

/-- A line keeps a carriage return exactly where it is an inner one. -/
theorem exists_return_mem_iff (cs : List Char) :
    (∃ line ∈ (brokenLines cs).map trimEnd, '\r' ∈ line) ↔ InnerReturn cs := by
  rw [← map_trimEnd_lines]
  simp only [List.mem_map, exists_exists_and_eq_and]
  induction cs with
  | nil => simp [lines, innerReturn_nil]
  | cons c cs ih =>
      rw [innerReturn_cons_iff, ← ih]
      by_cases hc : c = '\n'
      · simp [lines, hc, trimEnd]
      · have hfirst : (∃ line ∈ lines cs, '\r' ∈ trimEnd line) ↔
            '\r' ∈ trimEnd ((lines cs).headD []) ∨ ∃ line ∈ (lines cs).tail, '\r' ∈ trimEnd line := by
          cases lines cs <;> simp [trimEnd]
        rw [hfirst, lines_cons hc, inFirst, List.exists_mem_cons_iff, return_mem_trimEnd_cons_iff,
          headD_lines, or_assoc]

theorem exists_return_mem_shownLines_iff (text : String) :
    (∃ line ∈ shownLines text, '\r' ∈ line) ↔ InnerReturn (trim text.toList) :=
  exists_return_mem_iff _

end Bytecode.Text

import Bytecode.Text.Blank

/-!
# Lines of a text

A line ends at a line feed or at the end of the text; the empty text has no line, and a final
line feed opens no further line.
-/

namespace Bytecode.Text

def lines : List Char → List (List Char)
  | [] => []
  | c :: cs =>
      if c = '\n' then [] :: lines cs
      else
        match lines cs with
        | [] => [[c]]
        | line :: rest => (c :: line) :: rest

/-- No line holds a line feed. -/
theorem lineFeed_notMem_lines (cs : List Char) : ∀ line ∈ lines cs, '\n' ∉ line := by
  induction cs with
  | nil => simp [lines]
  | cons c cs ih =>
      by_cases hc : c = '\n'
      · simpa [lines, hc] using ih
      · cases hl : lines cs with
        | nil => simpa [lines, hc, hl] using Ne.symm hc
        | cons line rest =>
            rw [hl] at ih
            simp only [lines, hc, if_false, hl, List.mem_cons, forall_eq_or_imp] at ih ⊢
            exact ⟨fun h => h.elim (fun e => hc e.symm) ih.1, ih.2⟩

/-- The lines of a trimmed text, each without its trailing blanks. -/
def trimmedLines (text : String) : List String :=
  (lines (trim text.toList)).map fun line => String.ofList (trimEnd line)

end Bytecode.Text

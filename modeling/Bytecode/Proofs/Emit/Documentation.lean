import Bytecode.Proofs.Emit.Layout
import Mathlib.Logic.Function.Iterate

/-!
# Documentation in the emitted text

Documentation and the header become comments, one for each line of the trimmed text, with the line
behind the mark of the comment. Whatever the text holds, it does not end a comment and is not taken
for code. One character spoils a comment, and trimming takes it away only at the end of a line: a
carriage return, which Rust refuses in comments that document something.
-/

namespace Bytecode

namespace Rust

inductive DocComment where
  | outer (text : List Char)
  | inner (text : List Char)
  deriving DecidableEq, Repr

/-- The documentation that a line is, if it is one. With a fourth slash it is a plain comment, and a
carriage return is refused. -/
def docComment? (line : List Char) : Option DocComment :=
  match line.dropWhile isBlank with
  | '/' :: '/' :: '/' :: text =>
      if text.head? = some '/' ∨ '\r' ∈ text then none else some (.outer text)
  | '/' :: '/' :: '!' :: text => if '\r' ∈ text then none else some (.inner text)
  | _ => none

theorem docComment?_indented (n : Nat) (line : List Char) :
    docComment? (List.replicate n ' ' ++ line) = docComment? line := by
  have hblanks : ∀ c ∈ List.replicate n ' ', isBlank c = true := by
    intro c hc
    rw [List.eq_of_mem_replicate hc]
    decide
  rw [docComment?, List.dropWhile_append_of_pos hblanks]
  rfl

end Rust

namespace Emit

open Rust (DocComment docComment? docComment?_indented)
open Text (brokenLines shownLines InnerReturn)

variable {doc : String} {line : List Char} {lines : Lines}

/-! ### Comments -/

/-- A way to write lines of documentation as comments that are read back. -/
structure CommentStyle where
  /-- What stands in front of the text: a margin and the mark of the comment. -/
  mark : List Char
  body : List Char → List Char
  kind : List Char → DocComment
  plain : ∀ c ∈ mark, c ≠ '\n' ∧ c ≠ '\r'
  body_eq : ∀ line, body line = ' ' :: line ∨ line = [] ∧ body line = []
  read_eq : ∀ line, docComment? (mark ++ body line) =
    if '\r' ∈ line then none else some (kind (body line))

namespace CommentStyle

/-- Three slashes within so many blocks, and a blank in front of a text that is not empty. -/
def outer (depth : Nat) : CommentStyle where
  mark := List.replicate (4 * depth) ' ' ++ ['/', '/', '/']
  body line := if line = [] then [] else ' ' :: line
  kind := .outer
  plain c hc := by
    rcases List.mem_append.1 hc with hc | hc
    · rw [List.eq_of_mem_replicate hc]
      decide
    · obtain rfl : c = '/' := by simpa using hc
      decide
  body_eq line := by by_cases h : line = [] <;> simp [h]
  read_eq line := by
    rw [List.append_assoc, docComment?_indented]
    by_cases h : line = []
    · rw [h]
      rfl
    · simp [docComment?, Rust.isBlank, Rust.blankChars, h]

/-- Two slashes and an exclamation mark, and a blank in front of any text. -/
def inner : CommentStyle where
  mark := ['/', '/', '!']
  body line := ' ' :: line
  kind := .inner
  plain := by simp
  body_eq _ := .inl rfl
  read_eq line := by simp [docComment?, Rust.isBlank, Rust.blankChars]

variable (style : CommentStyle)

def written (line : List Char) : List Char := style.mark ++ style.body line

variable {style}

theorem mem_written_iff {c : Char} (hblank : c ≠ ' ') (hmark : c ∉ style.mark) :
    c ∈ style.written line ↔ c ∈ line := by
  rw [written, List.mem_append, or_iff_right hmark]
  rcases style.body_eq line with h | ⟨rfl, h⟩ <;> simp [h, hblank]

theorem lineFeed_mem_written_iff : '\n' ∈ style.written line ↔ '\n' ∈ line :=
  mem_written_iff (by decide) fun hmem => (style.plain _ hmem).1 rfl

theorem return_mem_written_iff : '\r' ∈ style.written line ↔ '\r' ∈ line :=
  mem_written_iff (by decide) fun hmem => (style.plain _ hmem).2 rfl

/-- A carriage return at the end of a comment stands at the end of the line in it. -/
theorem getLast?_written_ne (h : line.getLast? ≠ some '\r') :
    (style.written line).getLast? ≠ some '\r' := by
  rw [written, List.getLast?_append]
  rcases style.body_eq line with hbody | ⟨-, hbody⟩
  · rw [hbody]
    cases line with
    | nil => simp
    | cons c line =>
        rw [List.getLast?_cons_cons]
        cases hlast : (c :: line).getLast? with
        | none => simp at hlast
        | some d => rwa [hlast] at h
  · rw [hbody]
    exact fun hlast => (style.plain _ (List.mem_of_getLast? hlast)).2 rfl

end CommentStyle

/-- Lines that document something: they are added to a text as complete lines, one comment for each
line of the documentation, without line feeds in them. Each is read as a comment with this text,
unless it has a carriage return, which comes from an inner one of the trimmed documentation. -/
structure Documents (style : CommentStyle) (lines : Lines) (doc : String) : Prop where
  text : ∀ before : Lines, (before ++ lines).render.toList = before.render.toList ++
    (shownLines doc).flatMap fun line => style.mark ++ style.body line ++ ['\n']
  oneLined : ∀ line ∈ lines, '\n' ∉ line.toList
  read : (brokenLines lines.render.toList).map docComment? = (shownLines doc).map fun line =>
    if '\r' ∈ line then none else some (style.kind (style.body line))
  returns : (∃ line ∈ lines, '\r' ∈ line.toList) ↔ InnerReturn (Text.trim doc.toList)

theorem toList_render (lines : Lines) :
    lines.render.toList = (lines.map String.toList).flatMap fun line => line ++ ['\n'] := by
  unfold Lines.render
  induction lines with
  | nil => rfl
  | cons line lines ih =>
      rw [List.map_cons, String.join_cons, String.toList_append, String.toList_append, ih]
      rfl

theorem documents_of_map {style : CommentStyle}
    (h : lines.map String.toList = (shownLines doc).map style.written) :
    Documents style lines doc := by
  have hfeed : ∀ line ∈ (shownLines doc).map style.written, '\n' ∉ line := by
    refine List.forall_mem_map.2 fun line hline => ?_
    rw [CommentStyle.lineFeed_mem_written_iff]
    exact Text.lineFeed_notMem_shownLines hline
  have hreturn : ∀ line ∈ (shownLines doc).map style.written, line.getLast? ≠ some '\r' := by
    refine List.forall_mem_map.2 fun line hline => CommentStyle.getLast?_written_ne fun hlast => ?_
    obtain ⟨line, -, rfl⟩ := List.mem_map.1 hline
    exact absurd (Text.isBlank_of_getLast?_trimEnd hlast) (by decide)
  refine ⟨fun before => ?_, fun line hline => ?_, ?_, ?_⟩
  · rw [toList_render, List.map_append, List.flatMap_append, ← toList_render, h, List.flatMap_map]
    rfl
  · exact hfeed line.toList (h ▸ List.mem_map_of_mem hline)
  · rw [toList_render, h, Text.brokenLines_flatMap hfeed hreturn, List.map_map]
    exact List.map_congr_left fun line _ => style.read_eq line
  · have hlines : (∃ line ∈ lines, '\r' ∈ line.toList) ↔
        ∃ line ∈ lines.map String.toList, '\r' ∈ line := by
      simp only [List.mem_map, exists_exists_and_eq_and]
    rw [hlines, h, ← Text.exists_return_mem_shownLines_iff]
    simp only [List.mem_map, exists_exists_and_eq_and, CommentStyle.return_mem_written_iff]

/-! ### Documentation and the header -/

theorem indent_eq_map (h : ∀ line ∈ lines, line ≠ "") :
    indent lines = lines.map fun line => "    " ++ line :=
  List.map_congr_left fun line hline => if_neg fun hempty => h line hline (String.isEmpty_iff.1 hempty)

/-- Within so many blocks, lines stand that many times four columns to the right. -/
theorem map_toList_iterate_indent (h : ∀ line ∈ lines, line ≠ "") (depth : Nat) :
    (indent^[depth] lines).map String.toList =
      lines.map fun line => List.replicate (4 * depth) ' ' ++ line.toList := by
  induction depth generalizing lines with
  | zero => rfl
  | succ depth ih =>
      have hindented : ∀ line ∈ indent lines, line ≠ "" := by
        rw [indent_eq_map h]
        simp
      rw [Function.iterate_succ_apply, ih hindented, indent_eq_map h, List.map_map]
      refine List.map_congr_left fun line _ => ?_
      rw [Function.comp_apply, String.toList_append, ← List.append_assoc, Nat.mul_succ,
        List.replicate_add]
      rfl

theorem documents_docLines (doc : String) (depth : Nat) :
    Documents (.outer depth) (indent^[depth] (docLines (some doc))) doc := by
  have hne : ∀ line ∈ docLines (some doc), line ≠ "" := by
    refine List.forall_mem_map.2 fun line _ => ?_
    split
    · decide
    · simp
  refine documents_of_map ?_
  rw [map_toList_iterate_indent hne, docLines, Text.trimmedLines_eq, List.map_map, List.map_map]
  refine List.map_congr_left fun line _ => ?_
  by_cases hline : line = []
  · simp [CommentStyle.written, CommentStyle.outer, hline]
  · simp [CommentStyle.written, CommentStyle.outer, hline]

theorem documents_header (m : GeneratedModel) :
    Documents .inner ((Text.trimmedLines m.config.header).map fun line => "//! " ++ line)
      m.config.header := by
  refine documents_of_map ?_
  rw [Text.trimmedLines_eq, List.map_map, List.map_map]
  refine List.map_congr_left fun line _ => ?_
  simp [CommentStyle.written, CommentStyle.inner]

/-- Documentation at any depth, and the header, are emitted as comments that are read back as the
lines of the text, except for lines with a carriage return in front of a character that is not a
blank. -/
theorem documentation_commented (m : GeneratedModel) (doc : String) (depth : Nat) :
    Documents (.outer depth) (indent^[depth] (docLines (some doc))) doc ∧
    ∃ front, header m = front ++
        ["//!", "//! @generated by opforge. Do not edit by hand.", "", "use core::fmt;", ""] ∧
      Documents .inner front m.config.header :=
  ⟨documents_docLines doc depth, _, rfl, documents_header m⟩

theorem documentation_keeps_return :
    docLines (some "First.\rSecond.") = ["/// First.\rSecond."] ∧
      '\r' ∈ "/// First.\rSecond.".toList ∧
      docComment? "/// First.\rSecond.".toList = none := by
  decide

end Emit

end Bytecode

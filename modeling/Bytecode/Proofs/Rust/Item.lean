import Bytecode.Emit.Lines
import Bytecode.Proofs.Rust.Token

/-!
# Implementations and their functions

Emitted lines are read by their layout. A line that opens a block ends in a brace, and the lines of
the block stand further to the right. The functions of a text are the blocks within those of its
implementations; comments and attributes between them are passed over.
-/

namespace Bytecode.Rust

open Emit (Lines indent block blockClosedBy)

def linesOf (text : String) : Lines := (Text.lines text.toList).map String.ofList

/-! ### Blocks -/

/-- Whether a line is empty or stands further to the right. -/
def isIndented (line : String) : Bool := line.toList.head?.all fun c => c = ' '

def isComment (line : String) : Bool := ['/', '/'].isPrefixOf line.toList

def opens (line : String) : Bool :=
  !isIndented line && !isComment line && line.toList.getLast? = some '\x7b'

def unindent (lines : Lines) : Lines := lines.map fun line => String.ofList (line.toList.drop 4)

/-- The blocks of some lines: their openings, and the lines in them. -/
def blocks : Lines → List (String × Lines)
  | [] => []
  | line :: lines =>
      if opens line then (line, unindent (lines.takeWhile isIndented)) :: blocks lines
      else blocks lines

variable {lines more body : Lines} {line opening closing : String} {bs : List (String × Lines)}

theorem isIndented_of_mem_indent (h : line ∈ indent body) : isIndented line = true := by
  obtain ⟨line, -, rfl⟩ := List.mem_map.1 h
  split
  · next hempty => rw [String.isEmpty_iff.1 hempty]; rfl
  · rw [isIndented, String.toList_append]; rfl

theorem unindent_indent (body : Lines) : unindent (indent body) = body := by
  rw [unindent, indent, List.map_map]
  refine List.map_id'' (fun line => ?_) body
  dsimp only [Function.comp_apply]
  split
  · next hempty => rw [String.isEmpty_iff.1 hempty]; rfl
  · rw [String.toList_append]
    exact String.ofList_toList

/-! ### What is found in lines -/

section Finds

variable {α β : Type} {find : Lines → List β} {found others : List β}

/-- Whatever follows, this is found in the lines, in front of what is found behind them. -/
def Finds (find : Lines → List β) (lines : Lines) (found : List β) : Prop :=
  ∀ more, find (lines ++ more) = found ++ find more

theorem finds_nil (find : Lines → List β) : Finds find [] [] := fun _ => rfl

theorem Finds.eq (h : Finds find lines found) (hnil : find [] = []) : find lines = found := by
  have hall := h []
  rwa [List.append_nil, hnil, List.append_nil] at hall

theorem Finds.append (h : Finds find lines found) (hmore : Finds find more others) :
    Finds find (lines ++ more) (found ++ others) := by
  intro rest
  rw [List.append_assoc, h, hmore, List.append_assoc]

theorem Finds.append_nil (h : Finds find lines found) (hmore : Finds find more []) :
    Finds find (lines ++ more) found := by
  have hall := h.append hmore
  rwa [List.append_nil] at hall

theorem Finds.nil_append (h : Finds find lines []) (hmore : Finds find more found) :
    Finds find (lines ++ more) found :=
  h.append hmore

theorem Finds.cons (hline : Finds find [line] []) (h : Finds find lines found) :
    Finds find (line :: lines) found :=
  hline.nil_append h

theorem finds_flatMap {l : List α} {linesOf : α → Lines} {foundIn : α → List β}
    (h : ∀ a ∈ l, Finds find (linesOf a) (foundIn a)) :
    Finds find (l.flatMap linesOf) (l.flatMap foundIn) := by
  induction l with
  | nil => exact finds_nil find
  | cons a l ih =>
      exact .append (h a List.mem_cons_self) (ih fun a ha => h a (List.mem_cons_of_mem _ ha))

theorem finds_flatMap_nil {l : List α} {linesOf : α → Lines}
    (h : ∀ a ∈ l, Finds find (linesOf a) []) : Finds find (l.flatMap linesOf) [] := by
  have hall := finds_flatMap h
  rwa [List.flatMap_eq_nil_iff.2 fun _ _ => rfl] at hall

/-- Where the names of the elements differ, only the lines of one of them have what is its own. -/
theorem finds_flatMap_of_mem {ν : Type} {l : List α} {a : α} {linesOf : α → Lines}
    {names : α → List ν} (hdistinct : (l.flatMap names).Nodup) (ha : a ∈ l)
    (hown : Finds find (linesOf a) found)
    (hother : ∀ b ∈ l, (∀ name ∈ names a, name ∉ names b) → Finds find (linesOf b) []) :
    Finds find (l.flatMap linesOf) found := by
  -- Its names are not among those in front of it, nor among those behind it.
  obtain ⟨front, back, rfl⟩ := List.append_of_mem ha
  rw [List.flatMap_append, List.flatMap_cons] at hdistinct ⊢
  obtain ⟨-, hrest, hfront⟩ := List.nodup_append.1 hdistinct
  obtain ⟨-, -, hback⟩ := List.nodup_append.1 hrest
  refine .nil_append (finds_flatMap_nil fun b hb => ?_)
    (.append_nil hown (finds_flatMap_nil fun b hb => ?_))
  · refine hother b (List.mem_append_left _ hb) fun name hname hmem => ?_
    exact hfront name (List.mem_flatMap.2 ⟨b, hb, hmem⟩) name (List.mem_append_left _ hname) rfl
  · refine hother b (List.mem_append_right _ (List.mem_cons_of_mem _ hb)) fun name hname hmem => ?_
    exact hback name hname name (List.mem_flatMap.2 ⟨b, hb, hmem⟩) rfl

end Finds

/-- Whatever follows, these are the blocks of the lines. -/
abbrev Lays : Lines → List (String × Lines) → Prop := Finds blocks

theorem lays_nil : Lays [] [] := finds_nil blocks

theorem lays_line (h : opens line = false) : Lays [line] [] := by
  intro more
  rw [List.singleton_append, blocks, if_neg (Bool.eq_false_iff.1 h), List.nil_append]

theorem lays_of_forall (h : ∀ line ∈ lines, opens line = false) : Lays lines [] := by
  induction lines with
  | nil => exact lays_nil
  | cons line lines ih =>
      exact .cons (lays_line (h line List.mem_cons_self))
        (ih fun line hline => h line (List.mem_cons_of_mem _ hline))

theorem opens_of_isIndented (h : isIndented line = true) : opens line = false := by
  rw [opens, h]
  rfl

theorem lays_blockClosedBy (hopening : opens (opening ++ " \x7b") = true)
    (hclosing : isIndented closing = false) (hplain : opens closing = false) (body : Lines) :
    Lays (blockClosedBy closing opening body) [(opening ++ " \x7b", body)] := by
  have hindented : ∀ line ∈ indent body, isIndented line = true := fun _ h =>
    isIndented_of_mem_indent h
  have hbody : Lays (indent body ++ [closing]) [] := by
    refine lays_of_forall fun line hline => ?_
    rcases List.mem_append.1 hline with h | h
    · exact opens_of_isIndented (hindented line h)
    · rwa [List.mem_singleton.1 h]
  intro more
  have hmore := hbody more
  rw [List.append_assoc] at hmore
  rw [blockClosedBy, List.cons_append, List.cons_append, blocks, if_pos hopening,
    List.append_assoc, hmore, List.takeWhile_append_of_pos hindented]
  rw [List.singleton_append, List.takeWhile_cons_of_neg (Bool.eq_false_iff.1 hclosing),
    List.append_nil, unindent_indent]
  rfl

theorem lays_block (hopening : opens (opening ++ " \x7b") = true) (body : Lines) :
    Lays (block opening body) [(opening ++ " \x7b", body)] :=
  lays_blockClosedBy hopening (by decide) (by decide) body

/-! #### Lines that open blocks, and others -/

theorem head?_append {text : String} {c : Char} (h : text.toList.head? = some c) (more : String) :
    (text ++ more).toList.head? = some c := by
  rw [String.toList_append, List.head?_append, h]
  rfl

theorem opens_append {c : Char} (hhead : opening.toList.head? = some c) (hblank : c ≠ ' ')
    (hcomment : c ≠ '/') : opens (opening ++ " \x7b") = true := by
  obtain ⟨cs, hcs⟩ : ∃ cs, opening.toList = c :: cs := by
    cases hlist : opening.toList with
    | nil => rw [hlist] at hhead; cases hhead
    | cons d cs => rw [hlist] at hhead; cases hhead; exact ⟨cs, rfl⟩
  have hline : (opening ++ " \x7b").toList = c :: (cs ++ " \x7b".toList) := by
    rw [String.toList_append, hcs, List.cons_append]
  have hlast : (opening ++ " \x7b").toList.getLast? = some '\x7b' := by
    rw [String.toList_append, List.getLast?_append]
    rfl
  have hindented : isIndented (opening ++ " \x7b") = false := by
    rw [isIndented, hline]
    exact decide_eq_false hblank
  have hplain : isComment (opening ++ " \x7b") = false := by
    rw [isComment, hline, List.isPrefixOf, beq_false_of_ne (Ne.symm hcomment), Bool.false_and]
  rw [opens, hindented, hplain, hlast]
  rfl

theorem opens_of_getLast? (text suffix : String) (c : Char)
    (hlast : suffix.toList.getLast? = some c) (hc : c ≠ '\x7b') :
    opens (text ++ suffix) = false := by
  rw [opens, String.toList_append, List.getLast?_append, hlast]
  simp [hc]

theorem opens_of_isComment (h : isComment line = true) : opens line = false := by
  rw [opens, h]
  simp

theorem opens_of_mem_docLines {doc : Option String} (h : line ∈ Emit.docLines doc) :
    opens line = false := by
  cases doc with
  | none => cases h
  | some doc =>
      obtain ⟨line, -, rfl⟩ := List.mem_map.1 h
      split
      · decide
      · refine opens_of_isComment ?_
        rw [isComment, String.toList_append]
        rfl

theorem lays_blank : Lays [""] [] := lays_line (by decide)

theorem lays_docLines (doc : Option String) : Lays (Emit.docLines doc) [] :=
  lays_of_forall fun _ h => opens_of_mem_docLines h

/-! ### Implementations -/

def owner? : List Token → Option (List Token)
  | .name "impl" :: ts => some ts.dropLast
  | _ => none

def bodiesOf (lines : Lines) (owner : List Token) : List Lines :=
  ((blocks lines).filter fun b => owner? (tokens b.1.toList) = some owner).map Prod.snd

variable {owner : List Token} {bodies : List Lines}

/-- Whatever follows, this is in the implementations of the owner. -/
abbrev Implements (owner : List Token) : Lines → List Lines → Prop :=
  Finds fun lines => bodiesOf lines owner

theorem Lays.implements (h : Lays lines bs) (owner : List Token) :
    Implements owner lines
      ((bs.filter fun b => owner? (tokens b.1.toList) = some owner).map Prod.snd) := by
  intro more
  simp only [bodiesOf]
  rw [h, List.filter_append, List.map_append]

theorem Lays.implements_nil (h : Lays lines []) : Implements owner lines [] := h.implements owner

theorem implements_block (hopening : opens (opening ++ " \x7b") = true)
    (howner : owner? (tokens (opening ++ " \x7b").toList) = some owner) (body : Lines) :
    Implements owner (block opening body) [body] := by
  have hblock := (lays_block hopening body).implements owner
  rwa [List.filter_cons_of_pos (by exact decide_eq_true howner)] at hblock

theorem implements_block_of_ne (hopening : opens (opening ++ " \x7b") = true)
    (howner : owner? (tokens (opening ++ " \x7b").toList) ≠ some owner) (body : Lines) :
    Implements owner (block opening body) [] := by
  have hblock := (lays_block hopening body).implements owner
  rwa [List.filter_cons_of_neg (by simpa using howner)] at hblock

/-! ### Functions -/

structure Function where
  name : String
  parameter : String
  body : Lines
  deriving DecidableEq, Repr

def signature? : List Token → Option (String × String)
  | .name "fn" :: .name name :: .symbol "(" :: .symbol "&" :: .name parameter :: _ =>
      some (name, parameter)
  | .name "fn" :: .name name :: .symbol "(" :: .name parameter :: _ => some (name, parameter)
  | _ :: ts => signature? ts
  | [] => none

def declared? (b : String × Lines) : Option Function :=
  (signature? (tokens b.1.toList)).map fun signature => ⟨signature.1, signature.2, b.2⟩

def functionsIn (body : Lines) : List Function := (blocks body).filterMap declared?

variable {fs : List Function} {signature name parameter : String}

/-- Whatever follows, these are the functions in the lines. -/
abbrev Defines : Lines → List Function → Prop := Finds functionsIn

theorem Lays.defines (h : Lays lines bs) : Defines lines (bs.filterMap declared?) := by
  intro more
  rw [functionsIn, h, List.filterMap_append, functionsIn]

theorem Lays.defines_nil (h : Lays lines []) : Defines lines [] := h.defines

theorem defines_block (hopening : opens (signature ++ " \x7b") = true)
    (hsignature : signature? (tokens (signature ++ " \x7b").toList) = some (name, parameter))
    (body : Lines) : Defines (block signature body) [⟨name, parameter, body⟩] := by
  have hblock := (lays_block hopening body).defines
  rwa [List.filterMap_cons_some (by rw [declared?, hsignature]; rfl)] at hblock

theorem defines_function (hopening : opens (signature ++ " \x7b") = true)
    (hsignature : signature? (tokens (signature ++ " \x7b").toList) = some (name, parameter))
    (body : Lines) : Defines (Emit.function signature body) [⟨name, parameter, body⟩] := by
  have hattribute : Lays ["#[must_use]"] [] := lays_line (by decide)
  exact hattribute.defines_nil.nil_append (defines_block hopening hsignature body)

/-- The one function of an owner that has this name. -/
def function? (lines : Lines) (owner : List Token) (name : String) : Option Function :=
  match ((bodiesOf lines owner).flatMap functionsIn).filter fun f => f.name = name with
  | [f] => some f
  | _ => none

theorem filter_eq_singleton {f : Function} (hnames : (fs.map Function.name).Nodup) (hf : f ∈ fs) :
    (fs.filter fun g => g.name = f.name) = [f] := by
  induction fs with
  | nil => cases hf
  | cons g fs ih =>
      rw [List.map_cons, List.nodup_cons] at hnames
      obtain ⟨hnew, hnames⟩ := hnames
      rcases List.mem_cons.1 hf with rfl | hf
      · have hothers : (fs.filter fun g => g.name = f.name) = [] :=
          List.filter_eq_nil_iff.2 fun g hg hname =>
            hnew (List.mem_map.2 ⟨g, hg, of_decide_eq_true hname⟩)
        rw [List.filter_cons_of_pos (by exact decide_eq_true rfl), hothers]
      · have hne : g.name ≠ f.name := fun h => hnew (List.mem_map.2 ⟨f, hf, h.symm⟩)
        rw [List.filter_cons_of_neg (by simpa using hne), ih hnames hf]

/-- A function of an owner is found by its name, if all its functions have different names. -/
theorem Implements.function?_eq {f : Function} (h : Implements owner lines bodies)
    (hnames : ((bodies.flatMap functionsIn).map Function.name).Nodup)
    (hf : f ∈ bodies.flatMap functionsIn) : function? lines owner f.name = some f := by
  rw [function?, h.eq rfl, filter_eq_singleton hnames hf]

end Bytecode.Rust

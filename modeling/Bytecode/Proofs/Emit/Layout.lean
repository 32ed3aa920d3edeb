import Bytecode.Proofs.Emit.Lookup
import Bytecode.Proofs.Operand.Encoding
import Bytecode.Proofs.Instruction.Cases
import Bytecode.Proofs.Text.Lines

/-!
# The lines of the emitted text

No emitted line holds a line feed, so that the lines of the text are the emitted ones.
-/

namespace Bytecode

open Rust (isIdentifier)

namespace Emit

def IsLine (text : String) : Prop := '\n' ∉ text.toList

instance (text : String) : Decidable (IsLine text) := inferInstanceAs (Decidable (¬ _))

def AreLines (lines : Lines) : Prop := ∀ line ∈ lines, IsLine line

variable {lines more body : Lines} {line text opening closing : String} {names : List String}

/-! ### Texts -/

@[simp] theorem isLine_append_iff (text more : String) :
    IsLine (text ++ more) ↔ IsLine text ∧ IsLine more := by
  simp [IsLine]

@[simp low] theorem isLine_iff (text : String) : IsLine text ↔ '\n' ∉ text.toList := Iff.rfl

@[simp] theorem isLine_toString_text (text : String) : IsLine (toString text) ↔ IsLine text :=
  Iff.rfl

theorem isLine_of_isIdentifier (h : isIdentifier text = true) : IsLine text := by
  have hword := List.all_eq_true.1 (Bool.and_eq_true_iff.1 h).1
  intro hmem
  have hfeed := hword _ hmem
  revert hfeed
  decide

theorem lineFeed_notMem_toDigits {base : Nat} (hlow : 1 < base) (hhigh : base ≤ 16) (n : Nat) :
    '\n' ∉ Nat.toDigits base n := fun hmem =>
  absurd (Text.isHexDigit_of_mem_toDigits hlow hhigh hmem) (by decide)

@[simp] theorem isLine_toString (n : UInt32) : IsLine (toString n) := by
  have htext : (toString n).toList = Nat.toDigits 10 n.toNat := Nat.toList_repr
  rw [IsLine, htext]
  exact lineFeed_notMem_toDigits (by decide) (by decide) n.toNat

@[simp] theorem isLine_width (width : Width) : IsLine width.name := by
  cases width <;> decide

theorem isLine_converted {spelling : Expr.Spelling} {e : Expr} (h : IsLine text) :
    IsLine (e.converted spelling text) := by
  unfold Expr.converted
  split <;> simp [h]

theorem isLine_operandText {spelling : Expr.Spelling} {e : Expr} (parent : Operator) (right : Bool)
    (h : IsLine text) : IsLine (e.operandText spelling parent right text) := by
  have hconverted : IsLine (e.converted spelling text) := isLine_converted h
  unfold Expr.operandText
  dsimp only
  split <;> simp [hconverted]

theorem isLine_bareText (e : Expr) : IsLine (e.bareText .rust) := by
  induction e with
  | const value =>
      rw [Expr.bareText, Int.toString_eq_repr, Int.repr_eq_if]
      split <;> simp [IsLine, lineFeed_notMem_toDigits]
  | oparg => decide
  | binary op lhs rhs ihlhs ihrhs =>
      have hsymbol : IsLine op.symbol := by cases op <;> decide
      simp [Expr.bareText, isLine_operandText, ihlhs, ihrhs, hsymbol]
  | ifElse condition thenBranch elseBranch ihcondition ihthen ihelse =>
      have hcondition : IsLine (Expr.conditionText .rust condition (condition.bareText .rust)) := by
        rw [Expr.conditionText]
        split
        · exact ihcondition
        · simp [isLine_operandText, ihcondition]
      simp [Expr.bareText, isLine_converted, hcondition, ihthen, ihelse]

@[simp] theorem isLine_rust (e : Expr) : IsLine e.rust := isLine_converted (isLine_bareText e)

@[simp] theorem isLine_escaped (text : String) : IsLine (Text.escaped text) := by
  have hchar : ∀ c, '\n' ∉ Text.escapeChar c := by
    intro c
    have hdigits : '\n' ∉ Nat.toDigits 16 c.toNat := lineFeed_notMem_toDigits (by decide) (by decide) _
    unfold Text.escapeChar
    split
    · decide
    · split
      · decide
      · split
        · decide
        · next hfeed =>
            split
            · simp [Ne.symm hfeed]
            · split <;> simp [Ne.symm hfeed, Text.hexDigits, hdigits]
  simp [IsLine, Text.escaped, Text.escape, hchar]

/-! ### Lines -/

@[simp] theorem areLines_nil : AreLines [] := List.forall_mem_nil _

@[simp] theorem areLines_cons_iff (line : String) (lines : Lines) :
    AreLines (line :: lines) ↔ IsLine line ∧ AreLines lines :=
  List.forall_mem_cons

@[simp] theorem areLines_append_iff (lines more : Lines) :
    AreLines (lines ++ more) ↔ AreLines lines ∧ AreLines more :=
  List.forall_mem_append

@[simp] theorem areLines_map_iff {α : Type} (l : List α) (f : α → String) :
    AreLines (l.map f) ↔ ∀ a ∈ l, IsLine (f a) :=
  List.forall_mem_map

theorem areLines_ite {p : Prop} [Decidable p] (hlines : AreLines lines) (hmore : AreLines more) :
    AreLines (if p then lines else more) := by
  split
  · exact hlines
  · exact hmore

@[simp] theorem areLines_filterMap_iff {α : Type} (l : List α) (f : α → Option String) :
    AreLines (l.filterMap f) ↔ ∀ a ∈ l, ∀ line, f a = some line → IsLine line := by
  simp only [AreLines, List.mem_filterMap]
  exact ⟨fun h a ha line hline => h line ⟨a, ha, hline⟩,
    fun h line ⟨a, ha, hline⟩ => h a ha line hline⟩

@[simp] theorem areLines_flatMap_iff {α : Type} (l : List α) (f : α → Lines) :
    AreLines (l.flatMap f) ↔ ∀ a ∈ l, AreLines (f a) := by
  simp only [AreLines, List.mem_flatMap]
  exact ⟨fun h a ha line hline => h line ⟨a, ha, hline⟩,
    fun h line ⟨a, ha, hline⟩ => h a ha line hline⟩

@[simp] theorem areLines_indent_iff (lines : Lines) : AreLines (indent lines) ↔ AreLines lines := by
  rw [indent, areLines_map_iff]
  refine forall₂_congr fun line _ => ?_
  have hblanks : IsLine "    " := by decide
  split <;> simp [hblanks]

@[simp] theorem areLines_blockClosedBy_iff (closing opening : String) (body : Lines) :
    AreLines (blockClosedBy closing opening body) ↔
      IsLine opening ∧ AreLines body ∧ IsLine closing := by
  have hbrace : IsLine " \x7b" := by decide
  simp [blockClosedBy, hbrace]

@[simp] theorem areLines_block_iff (opening : String) (body : Lines) :
    AreLines (block opening body) ↔ IsLine opening ∧ AreLines body := by
  have hclosing : IsLine "\x7d" := by decide
  simp [block, hclosing]

@[simp] theorem areLines_function_iff (signature : String) (body : Lines) :
    AreLines (function signature body) ↔ IsLine signature ∧ AreLines body := by
  have hattribute : IsLine "#[must_use]" := by decide
  simp [function, hattribute]

@[simp] theorem isLine_arm_iff (pattern result : String) :
    IsLine (arm pattern result) ↔ IsLine pattern ∧ IsLine result := by
  have harrow : IsLine " => " := by decide
  have hcomma : IsLine "," := by decide
  simp [arm, harrow, hcomma]

theorem isLine_of_mem_trimmedLines (h : line ∈ Text.trimmedLines text) : IsLine line := by
  rw [Text.trimmedLines_eq] at h
  obtain ⟨cs, hcs, rfl⟩ := List.mem_map.1 h
  rw [IsLine, String.toList_ofList]
  exact Text.lineFeed_notMem_shownLines hcs

@[simp] theorem areLines_docLines (doc : Option String) : AreLines (docLines doc) := by
  cases doc with
  | none => exact areLines_nil
  | some doc =>
      refine (areLines_map_iff _ _).2 fun line hline => ?_
      split
      · decide
      · simp [isLine_of_mem_trimmedLines hline]

theorem areLines_aliasType {error : String} {type : AliasType} (herror : IsLine error)
    (hname : IsLine type.name) : AreLines (aliasType error type) := by
  unfold aliasType
  dsimp only
  split <;> simp [herror, hname]

theorem areLines_namedType {error : String} {type : NamedType} (herror : IsLine error)
    (hname : IsLine type.name) (hvariants : ∀ variant ∈ type.variants, IsLine variant.name) :
    AreLines (namedType error type) := by
  simpa [namedType, rawArms, herror, hname] using hvariants

theorem areLines_conversion {source target : NamedType} (hsource : IsLine source.name)
    (htarget : IsLine target.name) (hvariants : ∀ variant ∈ source.variants, IsLine variant.name) :
    AreLines (conversion source target) := by
  simpa [conversion, hsource, htarget] using hvariants

theorem areLines_header (m : GeneratedModel) : AreLines (header m) := by
  have hheader : ∀ line ∈ Text.trimmedLines m.config.header, IsLine line := fun _ hline =>
    isLine_of_mem_trimmedLines hline
  simpa [header] using hheader

/-! ### The steps for a set -/

structure OneLined (set : SetModel) : Prop where
  opcodeEnum : IsLine set.opcodeEnum
  instructionEnum : IsLine set.instructionEnum
  name : ∀ c ∈ set.model.cases, IsLine c.name
  operand : ∀ c ∈ set.model.cases, ∀ operand, c.operand = some operand →
    IsLine operand.field ∧ IsLine operand.type

variable {m : GeneratedModel} {set : SetModel} {c : Case}

theorem mem_cases_of_get? {name : String} (h : set.model.get? name = some c) :
    c ∈ set.model.cases :=
  List.mem_reverse.1 (List.mem_of_find?_eq_some h)

theorem exists_of_mem_knownCases {name : String} (h : name ∈ knownCases set names) :
    ∃ c ∈ set.model.cases, c.name = name := by
  obtain ⟨c, hc, rfl⟩ := List.mem_map.1 h
  obtain ⟨_, -, hfound⟩ := List.mem_filterMap.1 hc
  exact ⟨c, mem_cases_of_get? hfound, rfl⟩

theorem mem_deoptArms_iff {row : List String × String} :
    row ∈ deoptArms set ↔ ∃ target ∈ set.model.cases, set.deopt.familyMembers target.name ≠ [] ∧
      row = (knownCases set (set.deopt.familyMembers target.name), target.name) := by
  refine List.mem_filterMap.trans (exists_congr fun target => and_congr_right fun _ => ?_)
  dsimp only
  by_cases hne : set.deopt.familyMembers target.name = []
  · simp [hne]
  · rw [if_neg (by simpa using hne)]
    exact ⟨fun h => ⟨hne, (Option.some.inj h).symm⟩, fun h => congrArg some h.2.symm⟩

theorem mem_instructionDeoptArms_iff {row : Case × Case} :
    row ∈ instructionDeoptArms set ↔ ∃ entry ∈ set.deopt.entries,
      set.model.get? entry.1 = some row.1 ∧ set.model.get? entry.2 = some row.2 := by
  refine List.mem_filterMap.trans (exists_congr fun entry => and_congr_right fun _ => ?_)
  cases set.model.get? entry.1 <;> cases set.model.get? entry.2 <;> simp [Prod.ext_iff]

theorem isLine_alternatives (h : ∀ name ∈ names, IsLine name) : IsLine (alternatives names) := by
  induction names with
  | nil => decide
  | cons name names ih =>
      have hname := h name List.mem_cons_self
      have hnames := ih fun name hname => h name (List.mem_cons_of_mem _ hname)
      cases names with
      | nil => simpa [alternatives] using hname
      | cons other names =>
          simp [Rust.alternatives_cons_cons, hname, hnames]

theorem isLine_isOneOf (h : ∀ name ∈ names, IsLine name) : IsLine (isOneOf names) := by
  unfold isOneOf
  split
  · decide
  · simp [isLine_alternatives h]

theorem isLine_withFields {name : String} {fields : Option String} (hname : IsLine name)
    (hfields : ∀ text, fields = some text → IsLine text) : IsLine (withFields name fields) := by
  cases fields with
  | none => exact hname
  | some fields => simp [withFields, hname, hfields fields rfl]

theorem areLines_opcodeEnum (h : OneLined set) : AreLines (opcodeEnum m set) := by
  have hkind : IsLine set.kind.name := by cases set.kind <;> decide
  simpa [opcodeEnum, hkind, h.opcodeEnum] using h.name

theorem areLines_instructionEnum (h : OneLined set) (herror : IsLine m.config.errorType) :
    AreLines (instructionEnum m set) := by
  have hkind : IsLine set.kind.name := by cases set.kind <;> decide
  have hfields : ∀ c ∈ set.model.cases, ∀ text : Operand → String,
      (∀ operand, IsLine operand.field ∧ IsLine operand.type → IsLine (text operand)) →
      IsLine (withFields c.name (c.operand.map text)) := by
    intro c hc text htext
    refine isLine_withFields (h.name c hc) fun _ hsome => ?_
    obtain ⟨operand, hoperand, rfl⟩ := Option.map_eq_some_iff.1 hsome
    exact htext operand (h.operand c hc operand hoperand)
  have hdeclared : ∀ c ∈ set.model.cases, IsLine (instructionCase c) := by
    intro c hc
    have htext := hfields c hc (fun operand => s!"{operand.field}: {operand.type}")
      fun operand h => by simp [h.1, h.2]
    simpa [instructionCase] using htext
  have hopcode : ∀ c ∈ set.model.cases, IsLine (opcodeArm set.opcodeEnum c) := by
    intro c hc
    have htext := hfields c hc (fun _ => "..") fun _ _ => by decide
    simp [opcodeArm, htext, h.opcodeEnum, h.name c hc]
  have hdecoded : ∀ c ∈ set.model.cases, IsLine (decodeArm set.opcodeEnum c) := by
    intro c hc
    have htext := hfields c hc
      (fun operand => s!"{operand.field}: {operand.type}::try_from(oparg)?") fun operand h => by
        simp [h.1, h.2]
    simpa [decodeArm, h.opcodeEnum, h.name c hc] using htext
  have hoparg : ∀ c ∈ set.model.cases, ∀ line, opargArm? c = some line → IsLine line := by
    intro c hc line hline
    obtain ⟨operand, hoperand, rfl⟩ := Option.map_eq_some_iff.1 hline
    have htext := hfields c hc Operand.field fun operand h => h.1
    have hfield := (h.operand c hc operand hoperand).1
    simp [bindingPattern, htext, hfield]
  simpa [instructionEnum, h.opcodeEnum, h.instructionEnum, herror, hkind, areLines_ite] using
    ⟨hdeclared, hopcode, hdecoded, hoparg⟩

theorem areLines_conversions (h : OneLined set) (herror : IsLine m.config.errorType) :
    AreLines (conversions m set) := by
  simpa [conversions, opcodeArms, h.opcodeEnum, herror] using h.name

theorem areLines_displayNames (h : OneLined set) : AreLines (displayNames m set) := by
  simpa [displayNames, displayBy, nameArm, h.opcodeEnum, h.instructionEnum] using h.name

theorem isLine_isOneOf_filter (h : OneLined set) (p : Case → Bool) :
    IsLine (isOneOf ((set.model.cases.filter p).map Case.name)) := by
  refine isLine_isOneOf fun name hname => ?_
  obtain ⟨c, hc, rfl⟩ := List.mem_map.1 hname
  exact h.name c (List.mem_filter.1 hc).1

theorem areLines_predicates (h : OneLined set) : AreLines (predicates m set) := by
  have hcases : ∀ p, IsLine (isOneOf (predicateCases set p)) := fun p => isLine_isOneOf_filter h _
  have hplaceholders : IsLine (isOneOf (placeholderCases set)) := isLine_isOneOf_filter h _
  have hname : ∀ p : Predicate, IsLine p.functionName := fun p => by cases p <;> decide
  simp [predicates, h.opcodeEnum, hcases, hplaceholders, hname]

theorem areLines_stackEffect (h : OneLined set) : AreLines (stackEffect m set) := by
  have harms : ∀ c ∈ set.model.cases, ∀ line, stackArm? set c = some line → IsLine line := by
    intro c hc line harm
    obtain ⟨effect, -, rfl⟩ := Option.map_eq_some_iff.1 harm
    simp [h.name c hc]
  simpa [stackEffect, h.opcodeEnum] using harms

theorem areLines_deoptBody (set : SetModel) {arms : List String} {otherwise : String}
    (harms : AreLines arms) (hotherwise : IsLine otherwise) :
    AreLines (deoptBody set arms otherwise) := by
  unfold deoptBody
  split <;> simp [harms, hotherwise]

theorem isLine_instructionDeoptArm (h : OneLined set) {specialized target : Case}
    (hspecialized : specialized ∈ set.model.cases) (htarget : target ∈ set.model.cases) :
    IsLine (instructionDeoptArm specialized target) := by
  have hname := h.name specialized hspecialized
  have hgoal := h.name target htarget
  unfold instructionDeoptArm
  split
  · next source goal hsource htarget' =>
      have hsourceField := (h.operand _ hspecialized source hsource).1
      have hgoalField := (h.operand _ htarget goal htarget').1
      have hpattern : IsLine (bindingPattern specialized) := by
        refine isLine_withFields hname fun _ hsome => ?_
        obtain rfl : source.field = _ := by simpa [hsource] using hsome
        exact hsourceField
      have hresult : ∀ field, IsLine field → IsLine (withFields target.name (some field)) :=
        fun field hfield => isLine_withFields hgoal (by rintro _ ⟨⟩; exact hfield)
      dsimp only
      split <;> simp [hpattern, hresult, hsourceField, hgoalField]
  · simp [hname, hgoal]

theorem areLines_deopt (h : OneLined set) : AreLines (deopt m set) := by
  have hknown : ∀ names, ∀ name ∈ knownCases set names, IsLine name := by
    intro names name hname
    obtain ⟨c, hc, rfl⟩ := exists_of_mem_knownCases hname
    exact h.name c hc
  have hspecialized : IsLine (isOneOf (specializedCases set)) := isLine_isOneOf (hknown _)
  have hopcodes : AreLines
      ((deoptArms set).map fun row => arm (alternatives row.1) s!"Self::{row.2}") := by
    refine (areLines_map_iff _ _).2 fun row hrow => ?_
    obtain ⟨target, htarget, -, rfl⟩ := mem_deoptArms_iff.1 hrow
    simp [isLine_alternatives (hknown _), h.name target htarget]
  have hinstructions : AreLines ((instructionDeoptArms set).map fun row =>
      instructionDeoptArm row.1 row.2) := by
    refine (areLines_map_iff _ _).2 fun row hrow => ?_
    obtain ⟨_, -, hcase, htarget⟩ := mem_instructionDeoptArms_iff.1 hrow
    exact isLine_instructionDeoptArm h (mem_cases_of_get? hcase) (mem_cases_of_get? htarget)
  have hself : IsLine (arm "_" "self") := by decide
  have hother : IsLine (arm "other" "other") := by decide
  have hopcodeBody := areLines_deoptBody set hopcodes hself
  have hinstructionBody := areLines_deoptBody set hinstructions hother
  simpa [deopt, h.opcodeEnum, h.instructionEnum, hspecialized] using
    ⟨hopcodeBody, hinstructionBody⟩

theorem areLines_sizeAssertions (h : OneLined set) : AreLines (sizeAssertions m set) := by
  have hbytes : IsLine (toString set.model.width.bytes) := by cases set.model.width <;> decide
  simpa [sizeAssertions, h.opcodeEnum] using hbytes

theorem areLines_setLines (h : OneLined set) (herror : IsLine m.config.errorType) :
    AreLines (steps.flatMap fun step => step.setLines m set) := by
  rw [setLines_eq]
  simp only [areLines_append_iff]
  exact ⟨areLines_opcodeEnum h, areLines_instructionEnum h herror, areLines_conversions h herror,
    areLines_displayNames h, areLines_predicates h, areLines_stackEffect h, areLines_deopt h,
    areLines_sizeAssertions h⟩

theorem areLines_modelLines (herror : IsLine m.config.errorType)
    (hnames : ∀ type ∈ m.registry.types, IsLine type.name)
    (hvariants : ∀ type ∈ m.registry.named, ∀ variant ∈ type.variants, IsLine variant.name) :
    AreLines (steps.flatMap fun step => step.modelLines m) := by
  have hnamed : ∀ type ∈ m.registry.named, IsLine type.name := fun type htype =>
    hnames _ (mem_named_iff.1 htype)
  rw [modelLines_eq]
  simp only [areLines_append_iff]
  refine ⟨areLines_header m, ?_, ?_, ?_⟩
  · exact (areLines_flatMap_iff _ _).2 fun aliased haliased =>
      areLines_aliasType herror (hnames _ (mem_aliases_iff.1 haliased))
  · exact (areLines_flatMap_iff _ _).2 fun named hmem =>
      areLines_namedType herror (hnamed named hmem) (hvariants named hmem)
  · refine (areLines_flatMap_iff _ _).2 fun derived hderived => ?_
    unfold derivedConversion
    split
    · exact areLines_nil
    · split
      · exact areLines_nil
      · next base hbase =>
          have hmem : base ∈ m.registry.named := by
            obtain ⟨type, htype, hview⟩ := Option.bind_eq_some_iff.1 hbase
            exact List.mem_filterMap.2 ⟨type, List.mem_of_find?_eq_some htype, hview⟩
          have hto := areLines_conversion (hnamed base hmem) (hnamed derived hderived)
            (hvariants base hmem)
          have hback := areLines_conversion (hnamed derived hderived) (hnamed base hmem)
            (hvariants derived hderived)
          simp [hnamed base hmem, hnamed derived hderived, hto, hback]

/-! ### Lines of a text -/

theorem lines_append_lineFeed {cs : List Char} (h : '\n' ∉ cs) (rest : List Char) :
    Text.lines (cs ++ '\n' :: rest) = cs :: Text.lines rest := by
  induction cs with
  | nil => simp [Text.lines]
  | cons c cs ih =>
      obtain ⟨hc, hcs⟩ := not_or.1 (List.mem_cons.not.1 h)
      rw [List.cons_append, Text.lines, if_neg (Ne.symm hc), ih hcs]

/-- The lines that a text is rendered from are its lines. -/
theorem linesOf_render (h : AreLines lines) : Rust.linesOf lines.render = lines := by
  have hlines : Text.lines lines.render.toList = lines.map String.toList := by
    unfold Lines.render
    induction lines with
    | nil => rfl
    | cons line lines ih =>
        obtain ⟨hline, hlines⟩ := (areLines_cons_iff _ _).1 h
        rw [List.map_cons, String.join_cons, String.toList_append, String.toList_append,
          List.append_assoc, List.map_cons, ← ih hlines]
        exact lines_append_lineFeed hline _
  rw [Rust.linesOf, hlines, List.map_map]
  exact List.map_id'' (fun _ => String.ofList_toList) lines

end Emit

namespace GeneratedModel

open Emit

variable {table : Table} {source : PropertySource} {m : GeneratedModel} {set : SetModel}

theorem exists_kind_of_mem_emitted (h : set ∈ m.emitted) : ∃ kind, m.set kind = set := by
  have hmem := (List.mem_filter.1 h).1
  simp only [sets, List.mem_cons, List.not_mem_nil, or_false] at hmem
  obtain rfl | rfl := hmem
  · exact ⟨.real, rfl⟩
  · exact ⟨.pseudo, rfl⟩

theorem WellNamed.oneLined (hnames : m.WellNamed) (h : table.build source = .ok m)
    (hset : set ∈ m.emitted) : OneLined set := by
  obtain ⟨hopcode, hinstruction⟩ := hnames.isIdentifier_enums hset
  refine ⟨isLine_of_isIdentifier hopcode, isLine_of_isIdentifier hinstruction,
    fun c hc => isLine_of_isIdentifier (hnames.cases set hset c hc).name,
    fun c hc operand hoperand => ⟨?_, ?_⟩⟩
  · exact isLine_of_isIdentifier ((hnames.cases set hset c hc).field operand hoperand)
  · obtain ⟨kind, rfl⟩ := exists_kind_of_mem_emitted hset
    have hresolves := InstructionModel.resolves_build (Table.model_of_build h kind)
    obtain ⟨_, -, hcase⟩ := exists_of_forall₂ hresolves hc
    obtain ⟨type, htype⟩ := hcase.operand operand hoperand
    rw [← Registry.name_of_get? htype]
    exact isLine_of_isIdentifier (hnames.isIdentifier_name type (List.mem_of_find?_eq_some htype))

/-- The lines of the text are the emitted ones, unless the error type breaks a line. -/
theorem WellNamed.linesOf_render (hnames : m.WellNamed) (h : table.build source = .ok m)
    (herror : IsLine m.config.errorType) : Rust.linesOf m.render = m.lines := by
  refine Emit.linesOf_render ((areLines_append_iff _ _).2 ⟨?_, ?_⟩)
  · exact areLines_modelLines herror
      (fun type htype => isLine_of_isIdentifier (hnames.isIdentifier_name type htype))
      fun type htype variant hvariant =>
        isLine_of_isIdentifier (hnames.variants type htype variant hvariant)
  · exact (areLines_flatMap_iff _ _).2 fun set hset =>
      areLines_setLines (hnames.oneLined h hset) herror

end GeneratedModel

end Bytecode

import Bytecode.CommandLine.Run
import Bytecode.Proofs.Instruction.Deoptimization
import Bytecode.Proofs.Instruction.Loading
import Bytecode.Proofs.StackEffect.Origin

/-!
# Summaries

The summary of a built model is read off its stages: the range of the opcodes off the ends of the
cases, the specialized instructions off the deopt targets, the placeholders off the stack effects.
What it shows are the figures of the table, which has the instructions of both sets in one list.
-/

namespace Bytecode

/-! ### Figures of a table -/

def Table.membersOf (table : Table) (kind : SetKind) : List (String × InstructionSpec) :=
  table.instructions.entries.filter fun entry => kind.Covers table.config entry.2.opcode

structure Figures where
  instructions : Nat
  /-- The lowest and the highest opcode. -/
  opcodes : Option (Nat × Nat)
  specialized : Nat
  placeholders : Nat
  deriving DecidableEq, Repr

namespace Figures

def range (figures : Figures) : String :=
  match figures.opcodes with
  | some (lowest, highest) => s!"{lowest}..={highest}"
  | none => "empty"

def line (figures : Figures) (kind : SetKind) (opcodeEnum : String) (width : Width) : String :=
  s!"{kind.name} set `{opcodeEnum}`: {figures.instructions} instructions " ++
    s!"(opcodes {figures.range}, repr {width.name}), " ++
    s!"{figures.specialized} specialized, {figures.placeholders} placeholders"

/-- A range of opcodes is not spelled like the lack of one. -/
theorem range_eq_empty_iff (figures : Figures) :
    figures.range = "empty" ↔ figures.opcodes = none := by
  unfold range
  split
  · next lowest highest hopcodes =>
      have hdots : '.' ∈ s!"{lowest}..={highest}".toList := by simp [toString]
      constructor
      · intro hempty
        rw [hempty] at hdots
        exact absurd hdots (by decide)
      · intro hnone
        rw [hopcodes] at hnone
        cases hnone
  · next hnone => exact iff_of_true rfl hnone

end Figures

/-- The figures of the instructions of a kind; an instruction is specialized when it deoptimizes to
another one. -/
def Table.figures (table : Table) (kind : SetKind) (deopt : DeoptMap) : Figures :=
  let members := table.membersOf kind
  let opcodes := members.map fun entry => entry.2.opcode.toNat
  { instructions := members.length
    opcodes := do return (← opcodes.min?, ← opcodes.max?)
    specialized := members.countP fun entry => deopt.deopt entry.1 ≠ entry.1
    placeholders := members.countP fun entry => entry.2.placeholder }

theorem Table.opcodes_figures_eq_none_iff (table : Table) (kind : SetKind) (deopt : DeoptMap) :
    (table.figures kind deopt).opcodes = none ↔ table.membersOf kind = [] := by
  cases hmembers : table.membersOf kind with
  | nil => simp [figures, hmembers]
  | cons entry members => simp [figures, hmembers, List.min?_cons, List.max?_cons]

/-! ### Ends of increasing lists -/

theorem max?_eq_of_perm {xs ys : List Nat} (h : xs.Perm ys) : xs.max? = ys.max? := by
  apply Option.ext
  intro n
  rw [List.max?_eq_some_iff, List.max?_eq_some_iff]
  simp only [h.mem_iff]

theorem min?_eq_of_perm {xs ys : List Nat} (h : xs.Perm ys) : xs.min? = ys.min? := by
  apply Option.ext
  intro n
  rw [List.min?_eq_some_iff, List.min?_eq_some_iff]
  simp only [h.mem_iff]

theorem min?_eq_head? {xs : List Nat} (h : xs.Pairwise (· < ·)) : xs.min? = xs.head? :=
  List.min?_eq_head? (h.imp fun hlt => Nat.min_eq_left (Nat.le_of_lt hlt))

theorem max?_eq_getLast? {xs : List Nat} (h : xs.Pairwise (· < ·)) : xs.max? = xs.getLast? := by
  have hreverse : xs.reverse.Pairwise (fun a b => max a b = a) :=
    (List.pairwise_reverse.2 h).imp fun hlt => Nat.max_eq_left (Nat.le_of_lt hlt)
  rw [max?_eq_of_perm (List.reverse_perm xs).symm, List.max?_eq_head? hreverse, List.head?_reverse]

/-! ### The definitions of a kind -/

namespace Table

variable {table : Table} {source : PropertySource} {definitions : Definitions} {α : Type}

/-- What a definition takes from its instruction is listed in a set as it is in the table. -/
theorem perm_membersOf (hload : table.load source = .ok definitions) (kind : SetKind)
    {f : Definition → α} {g : String × InstructionSpec → α}
    (hfg : ∀ entry d, table.Describes source entry.1 entry.2 d → f d = g entry) :
    ((definitions.set kind).definitions.map f).Perm ((table.membersOf kind).map g) := by
  obtain ⟨known, all, hknown, hall, -, hmem⟩ := exists_all_of_load hload
  have hindexes := indexes_of_byCanonicalName hknown
  have hdescribes : List.Forall₂ (fun entry d => table.Describes source entry.1 entry.2 d)
      table.instructions.entries all :=
    (mapM_eq_ok_iff.1 hall).imp fun _ _ => describes_of_define hindexes
  have hnames : table.instructions.names = all.map Definition.name :=
    map_eq_map_of_forall₂ hdescribes fun _ _ hd => hd.name.symm
  have hnodup : all.Nodup := .of_map Definition.name (hnames ▸ NameMap.nodup_names _)
  have hperm : (definitions.set kind).definitions.Perm
      (all.filter fun d => kind.Covers table.config d.opcode) := by
    have hset := (nodup_names_of_load hload kind).of_map
    refine (List.perm_ext_iff_of_nodup hset (hnodup.filter _)).2 fun d => ?_
    rw [hmem kind d, List.mem_filter, decide_eq_true_iff]
  have hmembers : List.Forall₂ (fun entry d => table.Describes source entry.1 entry.2 d)
      (table.membersOf kind) (all.filter fun d => kind.Covers table.config d.opcode) :=
    List.rel_filter (fun _ _ hd => by simp only [hd.opcode]) hdescribes
  rw [map_eq_map_of_forall₂ hmembers fun entry d hd => (hfg entry d hd).symm]
  exact hperm.map f

theorem countP_membersOf (hload : table.load source = .ok definitions) (kind : SetKind)
    {p : Definition → Bool} {q : String × InstructionSpec → Bool}
    (hpq : ∀ entry d, table.Describes source entry.1 entry.2 d → p d = q entry) :
    (definitions.set kind).definitions.countP p = (table.membersOf kind).countP q := by
  have hcount := (perm_membersOf hload kind hpq).countP_eq id
  rwa [List.countP_map, List.countP_map] at hcount

theorem length_membersOf (hload : table.load source = .ok definitions) (kind : SetKind) :
    (definitions.set kind).definitions.length = (table.membersOf kind).length := by
  have hperm := perm_membersOf hload kind (f := fun _ => ()) (g := fun _ => ()) fun _ _ _ => rfl
  simpa using hperm.length_eq

/-- Each instruction is covered by one of the two kinds. -/
theorem length_membersOf_add (hload : table.load source = .ok definitions) :
    (table.membersOf .real).length + (table.membersOf .pseudo).length =
      table.instructions.size := by
  obtain ⟨known, all, -, hall, hperm, -⟩ := exists_all_of_load hload
  calc (table.membersOf .real).length + (table.membersOf .pseudo).length
      = (definitions.real.definitions ++ definitions.pseudo.definitions).length := by
        rw [← length_membersOf hload, ← length_membersOf hload, List.length_append]
        rfl
    _ = all.length := hperm.length_eq
    _ = table.instructions.size := (mapM_eq_ok_iff.1 hall).length_eq.symm

end Table

/-! ### Deoptimized instructions -/

namespace DeoptMap.Resolved

variable {set : InstructionSet} {map : DeoptMap} {d : Definition}

/-- No specialized instruction deoptimizes to itself, and every other one does. -/
theorem isSpecialized_eq_deopt_ne (h : Resolved set map) (hd : d ∈ set.definitions) :
    map.isSpecialized d.name = decide (map.deopt d.name ≠ d.name) := by
  obtain ⟨root, hroot⟩ := h.roots d hd
  have hself : root.name = d.name ↔ d.family = none := by
    rw [← hroot.eq_self_iff]
    exact ⟨InstructionSet.eq_of_name h.names hroot.mem hd, fun heq => by rw [heq]⟩
  rw [h.isSpecialized_eq hd, h.deopt_eq hd hroot, Bool.eq_iff_iff, decide_eq_true_iff, Ne, hself]
  exact Option.isSome_iff_ne_none

theorem length_entries (h : Resolved set map) :
    map.entries.length = set.definitions.countP fun d => d.family.isSome := by
  rw [List.countP_eq_length_filter, h.entries.length_eq]

end DeoptMap.Resolved

/-! ### Summaries of sets -/

namespace SetModel

variable {table : Table} {source : PropertySource} {definitions : Definitions} {kind : SetKind}
  {registry : Registry} {built : SetModel}

/-- The cases stand in the order of their opcodes, so that the ends are the bounds. -/
theorem opcodes_figures_eq (hload : table.load source = .ok definitions)
    (hbuild : build (definitions.set kind) registry table.config = .ok built) (deopt : DeoptMap) :
    (table.figures kind deopt).opcodes =
      built.opcodeRange?.map fun ends => (ends.1.toNat, ends.2.toNat) := by
  obtain ⟨-, hmodel, -, -⟩ := build_eq_ok hbuild
  have hopcodes := InstructionModel.opcodes_eq (InstructionModel.resolves_build hmodel)
  have hcases : built.model.cases.map (fun c => c.opcode.toNat) =
      (definitions.set kind).definitions.map fun d => d.opcode.toNat := by
    have hmapped := congrArg (List.map UInt32.toNat) hopcodes.symm
    simpa only [List.map_map, Function.comp_def] using hmapped
  have hincreasing : (built.model.cases.map fun c => c.opcode.toNat).Pairwise (· < ·) := by
    rw [hcases, List.pairwise_map]
    exact (definitions.set kind).increasing.imp fun hlt => UInt32.lt_iff_toNat_lt.1 hlt
  have hperm : (built.model.cases.map fun c => c.opcode.toNat).Perm
      ((table.membersOf kind).map fun entry => entry.2.opcode.toNat) := by
    rw [hcases]
    exact Table.perm_membersOf hload kind fun _ _ hd => by rw [hd.opcode]
  have hmin := (min?_eq_of_perm hperm).symm.trans (min?_eq_head? hincreasing)
  have hmax := (max?_eq_of_perm hperm).symm.trans (max?_eq_getLast? hincreasing)
  simp only [Table.figures, hmin, hmax, opcodeRange?, List.head?_map, List.getLast?_map]
  cases built.model.cases.head? <;> cases built.model.cases.getLast? <;> rfl

theorem specializedCount_eq (hload : table.load source = .ok definitions)
    (hbuild : build (definitions.set kind) registry table.config = .ok built) :
    built.specializedCount = (table.figures kind built.deopt).specialized ∧
      built.specializedCount = built.deopt.entries.length := by
  obtain ⟨-, hmodel, hresolve, -⟩ := build_eq_ok hbuild
  have hresolved := DeoptMap.resolved_of_load hload hmodel hresolve
  have hnames := InstructionModel.names_eq (InstructionModel.resolves_build hmodel)
  have hdefinitions : built.specializedCount =
      (definitions.set kind).definitions.countP fun d => built.deopt.isSpecialized d.name := by
    have hcount := congrArg (List.countP built.deopt.isSpecialized) hnames.symm
    rwa [List.countP_map, List.countP_map] at hcount
  constructor
  · rw [hdefinitions, List.countP_congr fun d hd => by
      rw [hresolved.isSpecialized_eq_deopt_ne hd]]
    exact Table.countP_membersOf hload kind fun _ _ hd => by rw [hd.name]
  · rw [hdefinitions, hresolved.length_entries]
    exact List.countP_congr fun d hd => by rw [hresolved.isSpecialized_eq hd]

theorem placeholderCount_eq (hload : table.load source = .ok definitions)
    (hbuild : build (definitions.set kind) registry table.config = .ok built) (deopt : DeoptMap) :
    built.placeholderCount = (table.figures kind deopt).placeholders := by
  obtain ⟨-, -, -, hstack⟩ := build_eq_ok hbuild
  rw [placeholderCount, StackEffects.incomplete_eq hstack, List.length_map,
    ← List.countP_eq_length_filter]
  exact Table.countP_membersOf hload kind fun _ _ hd => hd.placeholder

theorem size_eq (hload : table.load source = .ok definitions)
    (hbuild : build (definitions.set kind) registry table.config = .ok built) (deopt : DeoptMap) :
    built.model.size = (table.figures kind deopt).instructions := by
  obtain ⟨-, hmodel, -, -⟩ := build_eq_ok hbuild
  have hlength := (InstructionModel.resolves_build hmodel).length_eq
  exact hlength.symm.trans (Table.length_membersOf hload kind)

/-- The line of a set shows the figures of the table. -/
theorem summary_eq_line (hload : table.load source = .ok definitions)
    (hbuild : build (definitions.set kind) registry table.config = .ok built) :
    built.summary =
      (table.figures kind built.deopt).line kind built.opcodeEnum built.model.width := by
  have hkind : built.kind = kind :=
    (InstructionModel.kind_of_build (build_eq_ok hbuild).2.1).trans (Table.kind_of_load hload kind)
  rw [summary, Figures.line, Figures.range, opcodes_figures_eq hload hbuild,
    ← size_eq hload hbuild, ← placeholderCount_eq hload hbuild,
    ← (specializedCount_eq hload hbuild).1, hkind]
  cases built.opcodeRange? <;> rfl

end SetModel

/-! ### Summaries of built models -/

namespace GeneratedModel

open CommandLine

variable {table : Table} {source : PropertySource} {m : GeneratedModel}

def figures (m : GeneratedModel) (table : Table) (kind : SetKind) : Figures :=
  table.figures kind (m.set kind).deopt

theorem run_check {arguments : List String} {inputs : Inputs} {directory : Directory}
    (hparse : Invocation.parse arguments = .ok (.run (.check inputs)))
    (hbuild : inputs.build directory.read? = .ok m) :
    CommandLine.run arguments directory =
      ⟨0, String.join (m.summary.map fun line => line ++ "\n"), directory⟩ := by
  have hrun : (Command.check inputs).run directory.read? =
      .ok (.print (String.join (m.summary.map fun line => line ++ "\n"))) := by
    rw [Command.run, Command.inputs, hbuild]
    rfl
  rw [CommandLine.run, hparse]
  simp only [hrun, Except.bind, Action.perform]

/-- The model of two documents is that of the table and the records that they spell. -/
theorem build_of_documents {read : String → Option String} {inputs : Inputs}
    {records : PropertyRecords}
    (htable : (read inputs.table).bind Table.ofToml? = some table)
    (hrecords : (read inputs.properties).bind PropertyRecords.ofToml? = some records)
    (hbuild : table.build records.source = .ok m) : inputs.build read = .ok m := by
  obtain ⟨tableText, htableText, htable⟩ := Option.bind_eq_some_iff.1 htable
  obtain ⟨recordsText, hrecordsText, hrecords⟩ := Option.bind_eq_some_iff.1 hrecords
  simp only [Inputs.build, htableText, htable, hrecordsText, hrecords, hbuild]
  rfl

/-- The summary of a built model shows the figures of the table, and the check of its documents
prints it. The bounds are missing where a set is empty, the specialized instructions are those with
a deopt entry, and every instruction is counted in one of the two sets. -/
theorem summary_shows_figures (h : table.build source = .ok m) :
    m.summary = [s!"{m.registry.size} oparg types",
      (m.figures table .real).line .real m.real.opcodeEnum m.real.model.width,
      (m.figures table .pseudo).line .pseudo m.pseudo.opcodeEnum m.pseudo.model.width] ∧
    (∀ kind, ((m.set kind).definitions.definitions.map fun d => (d.name, d.opcode)).Perm
      ((table.membersOf kind).map fun entry => (entry.1, entry.2.opcode))) ∧
    (∀ kind, (m.figures table kind).range = "empty" ↔ table.membersOf kind = []) ∧
    (∀ kind, (m.figures table kind).specialized = (m.set kind).deopt.entries.length) ∧
    (m.figures table .real).instructions + (m.figures table .pseudo).instructions =
      table.instructions.size ∧
    ∀ arguments inputs directory,
      Invocation.parse arguments = .ok (.run (.check inputs)) →
      inputs.build directory.read? = .ok m →
      CommandLine.run arguments directory =
        ⟨0, String.join (m.summary.map fun line => line ++ "\n"), directory⟩ := by
  obtain ⟨-, definitions, hload, hset⟩ := Table.build_eq_ok h
  have hlines : ∀ kind, (m.set kind).summary =
      (m.figures table kind).line kind (m.set kind).opcodeEnum (m.set kind).model.width :=
    fun kind => SetModel.summary_eq_line hload (hset kind)
  refine ⟨?_, fun kind => ?_, fun kind => ?_, fun kind => ?_, ?_, ?_⟩
  · rw [summary, sets, List.map_cons, List.map_cons, List.map_nil]
    exact congrArg₂ (fun real pseudo => [_, real, pseudo]) (hlines .real) (hlines .pseudo)
  · rw [(SetModel.build_eq_ok (hset kind)).1]
    exact Table.perm_membersOf hload kind fun _ _ hd => by rw [hd.name, hd.opcode]
  · rw [Figures.range_eq_empty_iff]
    exact Table.opcodes_figures_eq_none_iff table kind _
  · obtain ⟨hfigures, hentries⟩ := SetModel.specializedCount_eq hload (hset kind)
    exact hfigures.symm.trans hentries
  · exact Table.length_membersOf_add hload
  · intro arguments inputs directory hparse hbuild
    exact run_check hparse hbuild

/-- A specialized instruction before its family, and a placeholder among the pseudo instructions. -/
def additions : Table where
  instructions := .ofList [
    ("Add", { opcode := 5, canonicalName := "ADD" }),
    ("AddInt", { opcode := 3, canonicalName := "ADD_INT", family := some "Add" }),
    ("Label", { opcode := 0x100, canonicalName := "LABEL", placeholder := true })]

def additionRecords : PropertyRecords :=
  .ofList [("ADD", { stack := some {} }), ("ADD_INT", { stack := some {} })]

def additionDocuments : Directory := .ofList [
  ("records.toml", "[ADD.stack]\n[ADD_INT.stack]\n"),
  ("table.toml", "[instructions]\n" ++
    "Add = \x7b opcode = 5, canonical_name = 'ADD' \x7d\n" ++
    "AddInt = \x7b opcode = 3, canonical_name = 'ADD_INT', family = 'Add' \x7d\n" ++
    "Label = \x7b opcode = 256, canonical_name = 'LABEL', placeholder = true \x7d\n")]

def additionLines : List String := [
  "0 oparg types",
  "real set `RealOpcode`: 2 instructions (opcodes 3..=5, repr u8), " ++
    "1 specialized, 0 placeholders",
  "pseudo set `PseudoOpcode`: 1 instructions (opcodes 256..=256, repr u16), " ++
    "0 specialized, 1 placeholders"]

theorem summary_shows_figures_additions :
    ∃ m, additions.build additionRecords.source = .ok m ∧ m.summary = additionLines ∧
      (m.figures additions .real).specialized = (m.set .real).deopt.entries.length ∧
      (m.figures additions .real).instructions +
        (m.figures additions .pseudo).instructions = 3 ∧
      CommandLine.run ["check", "--table", "table.toml", "--properties", "records.toml"]
          additionDocuments =
        ⟨0, String.join (additionLines.map fun line => line ++ "\n"), additionDocuments⟩ := by
  have hrun : (do
      let m ← additions.build additionRecords.source
      return m.summary : Except BuildError (List String)) = .ok additionLines := by cbv
  simp only [bind_eq_ok_iff, pure_eq_ok, Except.ok.injEq] at hrun
  obtain ⟨m, hbuild, hsummary⟩ := hrun
  obtain ⟨-, -, -, hentries, hcounts, hchecked⟩ := summary_shows_figures hbuild
  have hparse : Invocation.parse ["check", "--table", "table.toml", "--properties",
      "records.toml"] = .ok (.run (.check ⟨"table.toml", "records.toml"⟩)) := by decide
  have htable : (additionDocuments.read? "table.toml").bind Table.ofToml? = some additions := by
    decide +kernel
  have hrecords : (additionDocuments.read? "records.toml").bind PropertyRecords.ofToml? =
      some additionRecords := by
    decide +kernel
  refine ⟨m, hbuild, hsummary, hentries .real, hcounts, ?_⟩
  rw [hchecked _ _ _ hparse (build_of_documents htable hrecords hbuild), hsummary]

end GeneratedModel

end Bytecode

import Bytecode.Proofs.Instruction.Families
import Mathlib

/-!
# Alignment of the stages

A built set goes through three lists: its definitions, the cases of its model and its stack effects.
They list the same instructions in the order of the opcodes, and those of both sets are the
instructions of the table, each of them once.

The library is imported whole for the run, which `cbv` evaluates by the equations stated there.
-/

namespace Bytecode

variable {config : Config} {kind other : SetKind} {opcode : UInt32} {d : Definition} {c : Case}
  {set : InstructionSet} {model : InstructionModel} {effects : StackEffects}

/-! ### Limits and widths -/

namespace SetKind

def limit (config : Config) : SetKind → UInt32
  | real => config.realLimit
  | pseudo => config.pseudoLimit

/-- The opcodes of a kind; those of the pseudo instructions begin where those of the real ones
end. -/
def Covers (config : Config) (kind : SetKind) (opcode : UInt32) : Prop :=
  match kind with
  | real => opcode < config.realLimit
  | pseudo => config.realLimit ≤ opcode ∧ opcode < config.pseudoLimit

instance (config : Config) (kind : SetKind) (opcode : UInt32) :
    Decidable (kind.Covers config opcode) :=
  match kind with
  | real => inferInstanceAs (Decidable (opcode < config.realLimit))
  | pseudo => inferInstanceAs (Decidable (config.realLimit ≤ opcode ∧ opcode < config.pseudoLimit))

theorem Covers.lt_limit (h : kind.Covers config opcode) : opcode < kind.limit config := by
  cases kind with
  | real => exact h
  | pseudo => exact h.2

theorem Covers.unique (h : kind.Covers config opcode) (hother : other.Covers config opcode) :
    kind = other := by
  cases kind <;> cases other
  · rfl
  · exact absurd h (UInt32.not_lt.2 hother.1)
  · exact absurd hother (UInt32.not_lt.2 h.1)
  · rfl

theorem covers_pseudo_iff (h : opcode < config.realLimit ∨ opcode < config.pseudoLimit) :
    pseudo.Covers config opcode ↔ config.realLimit ≤ opcode :=
  ⟨And.left, fun hle => ⟨hle, h.resolve_left (UInt32.not_lt.2 hle)⟩⟩

theorem exists_covers (h : opcode < config.realLimit ∨ opcode < config.pseudoLimit) :
    ∃ kind : SetKind, kind.Covers config opcode := by
  by_cases hreal : opcode < config.realLimit
  · exact ⟨real, hreal⟩
  · exact ⟨pseudo, UInt32.not_lt.1 hreal, h.resolve_left hreal⟩

end SetKind

namespace Width

def Holds (width : Width) (limit : UInt32) : Prop :=
  ∀ value < limit, value.toNat < 2 ^ (8 * width.bytes)

theorem holds_forLimit (limit : UInt32) : (forLimit limit).Holds limit := by
  intro value hvalue
  have hlt := UInt32.lt_iff_toNat_lt.1 hvalue
  unfold forLimit
  split
  · next hbyte => exact Nat.lt_of_lt_of_le hlt (UInt32.le_iff_toNat_le.1 hbyte)
  · split
    · next hword => exact Nat.lt_of_lt_of_le hlt (UInt32.le_iff_toNat_le.1 hword)
    · exact value.toNat_lt

/-- No narrower width would do: the largest value below `limit` needs this one. -/
theorem Holds.bytes_le {width : Width} {limit : UInt32} (h : width.Holds limit) :
    (forLimit limit).bytes ≤ width.bytes := by
  unfold forLimit
  split
  · cases width <;> decide
  · next hbyte =>
      have hbyte := h 0x100 (UInt32.not_le.1 hbyte)
      split
      · cases width with
        | u8 => exact absurd hbyte (by decide)
        | u16 => decide
        | u32 => decide
      · next hword =>
          have hword := h 0x10000 (UInt32.not_le.1 hword)
          cases width with
          | u8 => exact absurd hword (by decide)
          | u16 => exact absurd hword (by decide)
          | u32 => decide

end Width

/-! ### The definitions of both sets -/

namespace Table

variable {table : Table} {source : PropertySource} {definitions : Definitions}
  {m : GeneratedModel} {known : NameMap String} {all : List Definition}

/-- The canonical names of a front part of the instructions, and whose they are. -/
def Indexes (front : List (String × InstructionSpec)) (known : NameMap String) : Prop :=
  ∀ canonical name, known.get? canonical = some name ↔
    ∃ spec, (name, spec) ∈ front ∧ spec.canonicalName = canonical

theorem Indexes.take {front : List (String × InstructionSpec)} {entry : String × InstructionSpec}
    {known' : NameMap String} (h : Indexes front known)
    (htake : byCanonicalName.take known entry = .ok known') :
    Indexes (front ++ [entry]) known' := by
  rw [byCanonicalName.take] at htake
  split at htake
  · cases htake
  · next hnew =>
      obtain rfl := Except.ok.inj htake
      intro canonical name
      rw [NameMap.get?_insert]
      split
      · next hsame =>
          subst hsame
          constructor
          · intro hname
            obtain rfl := Option.some.inj hname
            exact ⟨entry.2, by simp, rfl⟩
          · rintro ⟨spec, hmem, hcanonical⟩
            rcases List.mem_append.1 hmem with hfront | hlast
            · rw [(h _ _).2 ⟨spec, hfront, hcanonical⟩] at hnew
              cases hnew
            · rw [← List.mem_singleton.1 hlast]
      · next hother =>
          rw [h]
          refine exists_congr fun spec => ?_
          constructor
          · rintro ⟨hmem, hcanonical⟩
            exact ⟨List.mem_append_left _ hmem, hcanonical⟩
          · rintro ⟨hmem, hcanonical⟩
            rcases List.mem_append.1 hmem with hfront | hlast
            · exact ⟨hfront, hcanonical⟩
            · rw [← List.mem_singleton.1 hlast] at hother
              exact absurd hcanonical hother

theorem indexes_of_byCanonicalName (h : table.byCanonicalName = .ok known) :
    Indexes table.instructions.entries known :=
  foldlM_induction h (by simp [Indexes, NameMap.get?_empty]) fun _ _ _ _ _ _ hfront hstep =>
    hfront.take hstep

theorem nodup_canonicalNames (h : table.byCanonicalName = .ok known) :
    (table.instructions.entries.map fun entry => entry.2.canonicalName).Nodup := by
  have hindexes := indexes_of_byCanonicalName h
  refine List.pairwise_map.2 (table.instructions.sorted.imp_of_mem fun ha hb hlt hsame => ?_)
  have hfirst := (hindexes _ _).2 ⟨_, ha, hsame⟩
  rw [(hindexes _ _).2 ⟨_, hb, rfl⟩] at hfirst
  exact String.ne_of_lt hlt (Option.some.inj hfirst).symm

/-- All definitions of a table, parted into the two sets by their opcodes. -/
structure Parted (table : Table) (all : List Definition) (definitions : Definitions) : Prop where
  defines : List.Forall₂ (Defines table.config) table.instructions.entries all
  canonical : (all.map Definition.canonicalName).Nodup
  perm : (definitions.real.definitions ++ definitions.pseudo.definitions).Perm all
  mem_iff : ∀ kind d, d ∈ (definitions.set kind).definitions ↔
    d ∈ all ∧ kind.Covers table.config d.opcode
  width : ∀ kind, (definitions.set kind).width = .forLimit (kind.limit table.config)

/-- The definitions of all instructions are parted by the kinds that cover their opcodes. -/
theorem exists_all_of_load (h : table.load source = .ok definitions) :
    ∃ known all, table.byCanonicalName = .ok known ∧
      table.instructions.entries.mapM (define table.config source known) = .ok all ∧
      (definitions.real.definitions ++ definitions.pseudo.definitions).Perm all ∧
      ∀ kind d, d ∈ (definitions.set kind).definitions ↔
        d ∈ all ∧ kind.Covers table.config d.opcode := by
  obtain ⟨known, all, hknown, hall, hreal, hpseudo⟩ := load_eq_ok h
  have hdefines : List.Forall₂ (Defines table.config) table.instructions.entries all :=
    (mapM_eq_ok_iff.1 hall).imp fun _ _ => defines_of_define
  have hrealPerm := InstructionSet.perm_of_ofDefinitions hreal
  have hpseudoPerm := InstructionSet.perm_of_ofDefinitions hpseudo
  refine ⟨known, all, hknown, hall, ?_, fun kind d => ?_⟩
  · refine (hrealPerm.append hpseudoPerm).trans ?_
    simp only [decide_not]
    exact List.filter_append_perm _ all
  · cases kind with
    | real => exact hrealPerm.mem_iff.trans (by simp [SetKind.Covers])
    | pseudo =>
        have hpseudoIff : d ∈ definitions.pseudo.definitions ↔
            d ∈ all ∧ table.config.realLimit ≤ d.opcode :=
          hpseudoPerm.mem_iff.trans (by simp)
        refine hpseudoIff.trans (and_congr_right fun hd => ?_)
        obtain ⟨entry, -, hentry⟩ := exists_of_forall₂ hdefines hd
        exact (SetKind.covers_pseudo_iff hentry.admitted).symm

theorem width_of_load (h : table.load source = .ok definitions) (kind : SetKind) :
    (definitions.set kind).width = .forLimit (kind.limit table.config) := by
  obtain ⟨_, _, -, -, hreal, hpseudo⟩ := load_eq_ok h
  cases kind with
  | real => exact InstructionSet.width_of_ofDefinitions hreal
  | pseudo => exact InstructionSet.width_of_ofDefinitions hpseudo

/-- Loading parts the definitions of all instructions. -/
theorem parted_of_load (h : table.load source = .ok definitions) :
    ∃ all, Parted table all definitions := by
  obtain ⟨known, all, hknown, hall, hperm, hmem⟩ := exists_all_of_load h
  have hdefines : List.Forall₂ (Defines table.config) table.instructions.entries all :=
    (mapM_eq_ok_iff.1 hall).imp fun _ _ => defines_of_define
  have hnames : table.instructions.entries.map (fun entry => entry.2.canonicalName) =
      all.map Definition.canonicalName :=
    map_eq_map_of_forall₂ hdefines fun _ _ hd => hd.canonicalName.symm
  exact ⟨all, hdefines, hnames ▸ nodup_canonicalNames hknown, hperm, hmem, width_of_load h⟩

namespace Parted

/-- The definitions of a kind are those of the instructions that it covers. -/
theorem defined_iff (h : Parted table all definitions) (kind : SetKind) (name canonical : String)
    (opcode : UInt32) :
    (∃ d ∈ (definitions.set kind).definitions,
        d.name = name ∧ d.canonicalName = canonical ∧ d.opcode = opcode) ↔
      ∃ spec, table.instructions.get? name = some spec ∧ spec.canonicalName = canonical ∧
        spec.opcode = opcode ∧ kind.Covers table.config opcode := by
  constructor
  · rintro ⟨d, hd, rfl, rfl, rfl⟩
    obtain ⟨hall, hcovers⟩ := (h.mem_iff kind d).1 hd
    obtain ⟨⟨name, spec⟩, hentry, hdefines⟩ := exists_of_forall₂ h.defines hall
    refine ⟨spec, ?_, hdefines.canonicalName.symm, hdefines.opcode.symm, hcovers⟩
    rw [hdefines.name]
    exact NameMap.get?_eq_some_iff.2 hentry
  · rintro ⟨spec, hspec, rfl, rfl, hcovers⟩
    obtain ⟨d, hd, hdefines⟩ :=
      exists_of_forall₂ h.defines.flip (NameMap.get?_eq_some_iff.1 hspec)
    refine ⟨d, (h.mem_iff kind d).2 ⟨hd, ?_⟩, hdefines.name, hdefines.canonicalName,
      hdefines.opcode⟩
    rwa [hdefines.opcode]

theorem exists_covers (h : Parted table all definitions) {name : String} {spec : InstructionSpec}
    (hspec : table.instructions.get? name = some spec) :
    ∃ kind : SetKind, kind.Covers table.config spec.opcode := by
  obtain ⟨d, -, hdefines⟩ := exists_of_forall₂ h.defines.flip (NameMap.get?_eq_some_iff.1 hspec)
  have hadmitted := hdefines.admitted
  rw [hdefines.opcode] at hadmitted
  exact SetKind.exists_covers hadmitted

/-- Each instruction is defined in one of the two sets. -/
theorem existsUnique_kind (h : Parted table all definitions) {name : String}
    {spec : InstructionSpec} (hspec : table.instructions.get? name = some spec) :
    ∃! kind : SetKind, ∃ d ∈ (definitions.set kind).definitions, d.name = name := by
  obtain ⟨kind, hcovers⟩ := h.exists_covers hspec
  refine ⟨kind, ?_, ?_⟩
  · obtain ⟨d, hd, hname, -⟩ := (h.defined_iff kind name _ _).2 ⟨spec, hspec, rfl, rfl, hcovers⟩
    exact ⟨d, hd, hname⟩
  · rintro other ⟨d, hd, hname⟩
    obtain ⟨otherSpec, hother, -, hopcode, hotherCovers⟩ :=
      (h.defined_iff other name _ _).1 ⟨d, hd, hname, rfl, rfl⟩
    obtain rfl := Option.some.inj (hother.symm.trans hspec)
    rw [← hopcode] at hotherCovers
    exact hotherCovers.unique hcovers

end Parted

end Table

/-! ### The stages of a set -/

namespace InstructionModel

theorem ofOpcode_eq_ok_iff (h : (model.cases.map Case.opcode).Nodup) :
    model.ofOpcode opcode = .ok c ↔ c ∈ model.cases ∧ c.opcode = opcode := by
  have hfound : model.ofOpcode opcode = .ok c ↔ model.ofOpcode? opcode = some c := by
    unfold ofOpcode
    cases model.ofOpcode? opcode <;> simp
  rw [hfound]
  exact find?_key_eq_some_iff h

theorem ofOpcode_eq_error_iff {e : DecodeError} :
    model.ofOpcode opcode = .error e ↔
      e = .invalidBytecode model.kind opcode ∧ ∀ c ∈ model.cases, c.opcode ≠ opcode := by
  have hfound : model.ofOpcode opcode = .error e ↔
      e = .invalidBytecode model.kind opcode ∧ model.ofOpcode? opcode = none := by
    unfold ofOpcode
    cases model.ofOpcode? opcode <;> simp [eq_comm]
  rw [hfound]
  simp [ofOpcode?]

end InstructionModel

namespace StackEffects

theorem forall₂_of_compute (h : compute set model = .ok effects) :
    List.Forall₂ (fun d entry => entryOf model d = .ok entry) set.definitions effects.entries := by
  rw [compute, bind_eq_ok_iff] at h
  obtain ⟨entries, hentries, hend⟩ := h
  obtain rfl := Except.ok.inj hend
  exact mapM_eq_ok_iff.1 hentries

theorem map_fst_entries (h : compute set model = .ok effects) :
    effects.entries.map Prod.fst = set.definitions.map Definition.name := by
  refine (map_eq_map_of_forall₂ (forall₂_of_compute h) fun d entry hentry => ?_).symm
  rw [entryOf, bind_eq_ok_iff] at hentry
  obtain ⟨effect, -, hend⟩ := hentry
  rw [← Except.ok.inj hend]

theorem get?_eq_some_iff (h : (effects.entries.map Prod.fst).Nodup) {name : String}
    {effect : StackEffect} :
    effects.get? name = some effect ↔ (name, effect) ∈ effects.entries := by
  have hfind : effects.get? name = some effect ↔
      ∃ entry, entry ∈ effects.entries ∧ entry.1 = name ∧ entry.2 = effect := by
    simp only [get?, Option.map_eq_some_iff, find?_reverse_key_eq_some_iff h, and_assoc]
  rw [hfind]
  constructor
  · rintro ⟨entry, hentry, rfl, rfl⟩
    exact hentry
  · intro hentry
    exact ⟨_, hentry, rfl, rfl⟩

end StackEffects

/-- The stages of one kind list the instructions of a table that the kind covers, all three in the
order of the opcodes, and every look-up leads to what is listed. -/
structure SetModel.Aligned (table : Table) (kind : SetKind) (built : SetModel) : Prop where
  defined_iff : ∀ name canonical opcode,
    (∃ d ∈ built.definitions.definitions,
        d.name = name ∧ d.canonicalName = canonical ∧ d.opcode = opcode) ↔
      ∃ spec, table.instructions.get? name = some spec ∧ spec.canonicalName = canonical ∧
        spec.opcode = opcode ∧ kind.Covers table.config opcode
  increasing : (built.definitions.definitions.map Definition.opcode).Pairwise (· < ·)
  case_opcodes : built.model.cases.map Case.opcode =
    built.definitions.definitions.map Definition.opcode
  case_names : built.model.cases.map Case.name =
    built.definitions.definitions.map Definition.name
  effect_names : built.stack.entries.map Prod.fst =
    built.definitions.definitions.map Definition.name
  definition_of_name : ∀ name d, built.definitions.get? name = some d ↔
    d ∈ built.definitions.definitions ∧ d.name = name
  definition_of_opcode : ∀ opcode d, built.definitions.ofOpcode? opcode = some d ↔
    d ∈ built.definitions.definitions ∧ d.opcode = opcode
  case_of_name : ∀ name c, built.model.get? name = some c ↔ c ∈ built.model.cases ∧ c.name = name
  case_of_opcode : ∀ opcode c, built.model.ofOpcode opcode = .ok c ↔
    c ∈ built.model.cases ∧ c.opcode = opcode
  no_case : ∀ opcode e, built.model.ofOpcode opcode = .error e ↔
    e = .invalidBytecode kind opcode ∧ ∀ c ∈ built.model.cases, c.opcode ≠ opcode
  effect_of_name : ∀ name effect, built.stack.get? name = some effect ↔
    (name, effect) ∈ built.stack.entries
  width : built.model.width = built.definitions.width
  fits : ∀ d ∈ built.definitions.definitions,
    d.opcode.toNat < 2 ^ (8 * built.definitions.width.bytes)
  holds : built.definitions.width.Holds (kind.limit table.config)
  narrowest : ∀ width : Width, width.Holds (kind.limit table.config) →
    built.definitions.width.bytes ≤ width.bytes

theorem SetModel.aligned_of_build {table : Table} {source : PropertySource}
    {definitions : Definitions} {registry : Registry} {built : SetModel} {all : List Definition}
    (hload : table.load source = .ok definitions) (hparted : table.Parted all definitions)
    (hbuild : SetModel.build (definitions.set kind) registry table.config = .ok built) :
    built.Aligned table kind := by
  obtain ⟨hdefinitions, hmodel, -, hstack⟩ := SetModel.build_eq_ok hbuild
  have hkind : built.model.kind = kind :=
    (InstructionModel.kind_of_build hmodel).trans (Table.kind_of_load hload kind)
  have hresolves := InstructionModel.resolves_build hmodel
  have heffects := StackEffects.map_fst_entries hstack
  have hnames := Table.nodup_names_of_load hload kind
  have hopcodes := (definitions.set kind).nodup_opcodes
  have hwidth := hparted.width kind
  rw [← hdefinitions] at hresolves heffects hnames hopcodes hwidth
  have hcaseOpcodes : (built.model.cases.map Case.opcode).Nodup := by
    rwa [← InstructionModel.opcodes_eq hresolves]
  exact {
    defined_iff := by
      rw [hdefinitions]
      exact hparted.defined_iff kind
    increasing := List.pairwise_map.2 built.definitions.increasing
    case_opcodes := (InstructionModel.opcodes_eq hresolves).symm
    case_names := (InstructionModel.names_eq hresolves).symm
    effect_names := heffects
    definition_of_name := fun _ _ => InstructionSet.get?_eq_some_iff hnames
    definition_of_opcode := fun _ _ => InstructionSet.ofOpcode?_eq_some_iff
    case_of_name := fun _ _ => InstructionModel.get?_eq_some_iff hresolves hnames
    case_of_opcode := fun _ _ => InstructionModel.ofOpcode_eq_ok_iff hcaseOpcodes
    no_case := fun opcode e => by
      rw [← hkind]
      exact InstructionModel.ofOpcode_eq_error_iff
    effect_of_name := fun _ _ => StackEffects.get?_eq_some_iff (by rwa [heffects])
    width := by
      rw [InstructionModel.width_of_build hmodel, hdefinitions]
    fits := by
      intro d hd
      rw [hwidth]
      rw [hdefinitions] at hd
      exact Width.holds_forLimit _ _ ((hparted.mem_iff kind d).1 hd).2.lt_limit
    holds := by
      rw [hwidth]
      exact Width.holds_forLimit _
    narrowest := by
      intro width hholds
      rw [hwidth]
      exact hholds.bytes_le }

namespace GeneratedModel

variable {table : Table} {source : PropertySource} {m : GeneratedModel}

/-- The stages of both sets are aligned with the table, and nothing is in both sets: no
instruction, no opcode that is decoded and no canonical name. -/
theorem stages_aligned (h : table.build source = .ok m) :
    (∀ kind, (m.set kind).Aligned table kind) ∧
      (∀ name spec, table.instructions.get? name = some spec →
        ∃! kind, ∃ d ∈ (m.set kind).definitions.definitions, d.name = name) ∧
      (∀ kind, ∀ c ∈ (m.set kind).model.cases,
        (m.set kind).model.ofOpcode c.opcode = .ok c) ∧
      (∀ kind other opcode c d, (m.set kind).model.ofOpcode opcode = .ok c →
        (m.set other).model.ofOpcode opcode = .ok d → kind = other) ∧
      (m.sets.flatMap fun set =>
        set.definitions.definitions.map Definition.canonicalName).Nodup := by
  obtain ⟨-, definitions, hload, hset⟩ := Table.build_eq_ok h
  obtain ⟨all, hparted⟩ := Table.parted_of_load hload
  have haligned : ∀ kind, (m.set kind).Aligned table kind := fun kind =>
    SetModel.aligned_of_build hload hparted (hset kind)
  have hdefinitions : ∀ kind, (m.set kind).definitions = definitions.set kind := fun kind =>
    (SetModel.build_eq_ok (hset kind)).1
  have hcovers : ∀ kind opcode c, (m.set kind).model.ofOpcode opcode = .ok c →
      kind.Covers table.config opcode := by
    intro kind opcode c hc
    obtain ⟨hmem, rfl⟩ := ((haligned kind).case_of_opcode opcode c).1 hc
    have hopcode := List.mem_map_of_mem (f := Case.opcode) hmem
    rw [(haligned kind).case_opcodes, hdefinitions] at hopcode
    obtain ⟨d, hd, hsame⟩ := List.mem_map.1 hopcode
    rw [← hsame]
    exact ((hparted.mem_iff kind d).1 hd).2
  refine ⟨haligned, fun name spec hspec => ?_, fun kind c hc => ?_, ?_, ?_⟩
  · simp only [hdefinitions]
    exact hparted.existsUnique_kind hspec
  · exact ((haligned kind).case_of_opcode _ c).2 ⟨hc, rfl⟩
  · intro kind other opcode c d hc hd
    exact (hcovers kind opcode c hc).unique (hcovers other opcode d hd)
  · have hreal := hdefinitions .real
    have hpseudo := hdefinitions .pseudo
    simp only [set, Definitions.set] at hreal hpseudo
    have hcanonical := (hparted.perm.map Definition.canonicalName).nodup_iff.2 hparted.canonical
    simpa [sets, hreal, hpseudo] using hcanonical

/-- Two real instructions, whose opcodes are not in the order of their names, and a pseudo one. -/
def blocks : Table where
  config := { realLimit := 8, pseudoLimit := 0x200 }
  instructions := .ofList [
    ("Jump", { opcode := 7, canonicalName := "JUMP" }),
    ("Nop", { opcode := 3, canonicalName := "NOP" }),
    ("SetupFinally", { opcode := 0x100, canonicalName := "SETUP_FINALLY" })]

theorem stages_aligned_blocks :
    ∃ m, blocks.build (fun _ => some { stack := some {} }) = .ok m ∧
      m.real.stack.entries.map Prod.fst = ["Nop", "Jump"] ∧
      ∃ c, m.pseudo.model.ofOpcode 0x100 = .ok c ∧ m.pseudo.model.get? "SetupFinally" = some c ∧
        ∀ d, m.real.model.ofOpcode 0x100 ≠ .ok d := by
  have hrun : (do
      let m ← blocks.build fun _ => some { stack := some {} }
      return (m.real.model.cases.map Case.name,
        (m.pseudo.model.ofOpcode 0x100).toOption.map Case.name) :
          Except BuildError (List String × Option String)) =
      .ok (["Nop", "Jump"], some "SetupFinally") := by cbv
  simp only [bind_eq_ok_iff, pure_eq_ok, Except.ok.injEq, Prod.mk.injEq] at hrun
  obtain ⟨m, hbuild, hcases, hpseudo⟩ := hrun
  obtain ⟨haligned, -, -, hdisjoint, -⟩ := stages_aligned hbuild
  obtain ⟨c, hc, hname⟩ := Option.map_eq_some_iff.1 hpseudo
  have hdecode : (m.set .pseudo).model.ofOpcode 0x100 = .ok c := by
    cases hfound : m.pseudo.model.ofOpcode 0x100 with
    | error e => simp [hfound, Except.toOption] at hc
    | ok found => simpa [set, hfound, Except.toOption] using hc
  have hmem := (((haligned .pseudo).case_of_opcode 0x100 c).1 hdecode).1
  have heffects := (haligned .real).effect_names.trans (haligned .real).case_names.symm
  refine ⟨m, hbuild, heffects.trans hcases, c, hdecode,
    ((haligned .pseudo).case_of_name _ c).2 ⟨hmem, hname⟩, fun d hd => ?_⟩
  cases hdisjoint .real .pseudo 0x100 d c hd hdecode

end GeneratedModel

end Bytecode

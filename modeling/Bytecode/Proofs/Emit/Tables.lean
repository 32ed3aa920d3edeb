import Bytecode.Proofs.Emit.Layout
import Bytecode.Proofs.Instruction.Alignment
import Bytecode.Proofs.Instruction.Deoptimization

/-!
# Answers of the emitted functions

The emitted functions answer what the model answers. Raw values become the cases that they are the
opcodes of and the variants that they are the encodings of, predicates hold for the cases that have
them, and deoptimizing leads to the same targets and keeps operands.
-/

namespace Bytecode

open Emit
open Rust (Datum Function call? isIdentifier)

namespace SetModel

/-! ### Rows -/

/-- Cases are found by their names, and every case has a target among them, which carries an operand
if the case does. -/
structure Coherent (set : SetModel) : Prop where
  opcodes : (set.model.cases.map Case.opcode).Nodup
  case_of_name : ∀ name c, set.model.get? name = some c ↔ c ∈ set.model.cases ∧ c.name = name
  resolved : DeoptMap.Resolved set.definitions set.deopt
  exists_case : ∀ entry ∈ set.deopt.entries, ∃ c ∈ set.model.cases, c.name = entry.1
  exists_target : ∀ c ∈ set.model.cases, ∃ t ∈ set.model.cases,
    t.name = set.deopt.deopt c.name ∧ c.operand.isSome = t.operand.isSome

variable {set : SetModel} {c other : Case} {names : List String} {name : String}

namespace Coherent

theorem eq_of_name (h : set.Coherent) (hc : c ∈ set.model.cases) (hother : other ∈ set.model.cases)
    (hname : c.name = other.name) : c = other := by
  have hfound := (h.case_of_name _ _).2 ⟨hc, rfl⟩
  rw [hname, (h.case_of_name _ _).2 ⟨hother, rfl⟩] at hfound
  exact (Option.some.inj hfound).symm

theorem mem_knownCases_iff (h : set.Coherent) (hc : c ∈ set.model.cases) :
    c.name ∈ knownCases set names ↔ c.name ∈ names := by
  constructor
  · intro hmem
    obtain ⟨other, hother, hname⟩ := List.mem_map.1 hmem
    obtain ⟨name, hnames, hfound⟩ := List.mem_filterMap.1 hother
    rwa [← hname, ((h.case_of_name _ _).1 hfound).2]
  · intro hmem
    exact List.mem_map_of_mem
      (List.mem_filterMap.2 ⟨_, hmem, (h.case_of_name _ _).2 ⟨hc, rfl⟩⟩)

theorem mem_predicateCases_iff (h : set.Coherent) (hc : c ∈ set.model.cases) {p : Predicate} :
    c.name ∈ predicateCases set p ↔ c.has p = true := by
  constructor
  · intro hmem
    obtain ⟨other, hother, hname⟩ := List.mem_map.1 hmem
    obtain ⟨hcases, hhas⟩ := List.mem_filter.1 hother
    rwa [← h.eq_of_name hcases hc hname]
  · intro hhas
    exact List.mem_map_of_mem (List.mem_filter.2 ⟨hc, hhas⟩)

theorem mem_specializedCases_iff (h : set.Coherent) (hc : c ∈ set.model.cases) :
    c.name ∈ specializedCases set ↔ set.deopt.isSpecialized c.name = true := by
  rw [specializedCases, h.mem_knownCases_iff hc, DeoptMap.isSpecialized, NameMap.contains,
    Option.isSome_iff_exists]
  simp [h.resolved.get?_targets_iff]

/-- An instruction that is not specialized is its own target. -/
theorem deopt_eq_self (h : set.deopt.isSpecialized name = false) : set.deopt.deopt name = name := by
  have hnone : set.deopt.targets.get? name = none := by
    simpa [DeoptMap.isSpecialized, NameMap.contains] using h
  rw [DeoptMap.deopt, hnone, Option.getD_none]

theorem deopt_eq_self_of_isEmpty (h : set.Coherent) (hempty : set.deopt.isEmpty = true)
    (hc : c ∈ set.model.cases) : set.deopt.deopt c.name = c.name := by
  refine deopt_eq_self (Bool.eq_false_iff.2 fun hspecialized => ?_)
  have hmem := (h.mem_specializedCases_iff hc).2 hspecialized
  rw [specializedCases, h.mem_knownCases_iff hc, List.isEmpty_iff.1 hempty] at hmem
  cases hmem

theorem knownCases_ne_nil (h : set.Coherent) (hmembers : set.deopt.familyMembers name ≠ []) :
    knownCases set (set.deopt.familyMembers name) ≠ [] := by
  obtain ⟨member, hmember⟩ := List.exists_mem_of_ne_nil _ hmembers
  obtain ⟨c, hc, rfl⟩ := h.exists_case _ (h.resolved.mem_familyMembers_iff.1 hmember)
  exact List.ne_nil_of_mem ((h.mem_knownCases_iff hc).2 hmember)

/-- The first row that lists a case has its target; a case in no row is its own target. -/
theorem find?_deoptArms (h : set.Coherent) (hc : c ∈ set.model.cases) :
    (((deoptArms set).find? fun row => row.1.contains c.name).map Prod.snd).getD c.name =
      set.deopt.deopt c.name := by
  -- Whichever row lists the case, it is that of its target: the members of families differ.
  cases hfound : (deoptArms set).find? fun row => row.1.contains c.name with
  | some row =>
      obtain ⟨target, -, -, rfl⟩ := mem_deoptArms_iff.1 (List.mem_of_find?_eq_some hfound)
      have hlisted : c.name ∈ knownCases set (set.deopt.familyMembers target.name) := by
        simpa using List.find?_some hfound
      have hmember := (h.mem_knownCases_iff hc).1 hlisted
      exact (h.resolved.mem_familyMembers_iff_deopt.1 hmember).2.symm
  | none =>
      cases hspecialized : set.deopt.isSpecialized c.name with
      | false => exact (deopt_eq_self hspecialized).symm
      | true =>
          obtain ⟨target, htarget, hname, -⟩ := h.exists_target c hc
          have hmember : c.name ∈ set.deopt.familyMembers target.name :=
            h.resolved.mem_familyMembers_iff_deopt.2 ⟨hspecialized, hname.symm⟩
          have hrow := mem_deoptArms_iff.2 ⟨target, htarget, List.ne_nil_of_mem hmember, rfl⟩
          have hmissed := List.find?_eq_none.1 hfound _ hrow
          simp [(h.mem_knownCases_iff hc).2 hmember] at hmissed

theorem mem_instructionDeoptArms_iff (h : set.Coherent) {row : Case × Case} :
    row ∈ instructionDeoptArms set ↔ row.1 ∈ set.model.cases ∧ row.2 ∈ set.model.cases ∧
      (row.1.name, row.2.name) ∈ set.deopt.entries := by
  simp only [Emit.mem_instructionDeoptArms_iff, h.case_of_name]
  constructor
  · rintro ⟨⟨_, _⟩, hentry, ⟨hcase, rfl⟩, htarget, rfl⟩
    exact ⟨hcase, htarget, hentry⟩
  · rintro ⟨hcase, htarget, hentry⟩
    exact ⟨_, hentry, ⟨hcase, rfl⟩, htarget, rfl⟩

theorem mem_entries_iff (h : set.Coherent) :
    (c.name, other.name) ∈ set.deopt.entries ↔
      set.deopt.isSpecialized c.name = true ∧ set.deopt.deopt c.name = other.name := by
  rw [← h.resolved.mem_familyMembers_iff, h.resolved.mem_familyMembers_iff_deopt]

/-- A listed case carries an operand if its target does. -/
theorem operand_of_mem_instructionDeoptArms (h : set.Coherent) {row : Case × Case}
    (hrow : row ∈ instructionDeoptArms set) : row.1.operand.isSome = row.2.operand.isSome := by
  obtain ⟨hcase, htarget, hentry⟩ := h.mem_instructionDeoptArms_iff.1 hrow
  obtain ⟨t, ht, hname, hoperand⟩ := h.exists_target _ hcase
  rwa [← h.eq_of_name ht htarget (hname.trans (h.mem_entries_iff.1 hentry).2)]

/-- A case is listed with its target; a case that is not listed is its own target. -/
theorem find?_instructionDeoptArms (h : set.Coherent) (hc : c ∈ set.model.cases) :
    ∃ t ∈ set.model.cases, t.name = set.deopt.deopt c.name ∧
      (((instructionDeoptArms set).find? fun row => row.1.name = c.name).map Prod.snd).getD c =
        t := by
  cases hfound : (instructionDeoptArms set).find? fun row => row.1.name = c.name with
  | some row =>
      obtain ⟨-, htarget, hentry⟩ :=
        h.mem_instructionDeoptArms_iff.1 (List.mem_of_find?_eq_some hfound)
      have hname : row.1.name = c.name := by simpa using List.find?_some hfound
      rw [hname] at hentry
      exact ⟨row.2, htarget, (h.mem_entries_iff.1 hentry).2.symm, rfl⟩
  | none =>
      cases hspecialized : set.deopt.isSpecialized c.name with
      | false => exact ⟨c, hc, (deopt_eq_self hspecialized).symm, rfl⟩
      | true =>
          obtain ⟨target, htarget, hname, -⟩ := h.exists_target c hc
          have hrow : (c, target) ∈ instructionDeoptArms set :=
            h.mem_instructionDeoptArms_iff.2
              ⟨hc, htarget, h.mem_entries_iff.2 ⟨hspecialized, hname.symm⟩⟩
          have hmissed := List.find?_eq_none.1 hfound _ hrow
          simp at hmissed

end Coherent

/-! ### Answers -/

/-- The functions that some lines define for a set answer what the set answers. The operands of
instructions are of any type. -/
structure AnsweredBy (set : SetModel) (lines : Lines) (α : Type) : Prop where
  convert : ∀ (raw : UInt32), ∀ c ∈ set.model.cases,
    call? lines (tryFrom set.model.width.name set.opcodeEnum) "try_from" (.integer raw.toNat) =
        some (.ok (.variant c.name none) : Datum α) ↔
      set.model.ofOpcode raw = .ok c
  reject : ∀ raw : UInt32, (∀ c, set.model.ofOpcode raw ≠ .ok c) →
    call? lines (tryFrom set.model.width.name set.opcodeEnum) "try_from" (.integer raw.toNat) =
      some (.err : Datum α)
  predicate : ∀ p : Predicate, ∀ c ∈ set.model.cases,
    call? lines (inherent set.opcodeEnum) p.functionName (.variant c.name none) =
      some (.truth (c.has p) : Datum α)
  deopt : ∀ c ∈ set.model.cases,
    call? lines (inherent set.opcodeEnum) "deopt" (.variant c.name none) =
      some (.variant (set.deopt.deopt c.name) none : Datum α)
  isSpecialized : ∀ c ∈ set.model.cases,
    call? lines (inherent set.opcodeEnum) "is_specialized" (.variant c.name none) =
      some (.truth (set.deopt.isSpecialized c.name) : Datum α)
  instructionDeopt : ∀ c ∈ set.model.cases, ∃ t ∈ set.model.cases,
    t.name = set.deopt.deopt c.name ∧ ∀ x : α,
      call? lines (inherent set.instructionEnum) "deopt" (c.datum x) = some (t.datum x)

end SetModel

namespace GeneratedModel

variable {α : Type} {m : GeneratedModel} {set : SetModel} {c : Case} {raw : UInt32}

/-- Where keys and names differ, a raw value is converted to an entry just if it is its key. -/
theorem converted_eq_ok_iff {β : Type} {entries : List β} {key : β → UInt32} {nameOf : β → String}
    (hkeys : (entries.map key).Nodup)
    (hnames : ∀ a ∈ entries, ∀ b ∈ entries, nameOf a = nameOf b → a = b) {a : β} (ha : a ∈ entries)
    (raw : UInt32) :
    some (((entries.find? fun b => key b = raw).map fun b =>
        (.ok (.variant (nameOf b) none) : Datum α)).getD .err) =
      some (.ok (.variant (nameOf a) none)) ↔ key a = raw := by
  cases hfound : entries.find? fun b => key b = raw with
  | none =>
      have hmissed := List.find?_eq_none.1 hfound a ha
      simpa using hmissed
  | some b =>
      obtain ⟨hb, rfl⟩ := (find?_key_eq_some_iff hkeys).1 hfound
      simp only [Option.map_some, Option.getD_some, Option.some.injEq, Datum.ok.injEq,
        Datum.variant.injEq, and_true]
      constructor
      · intro hname
        rw [hnames b hb a ha hname]
      · intro hkey
        rw [List.inj_on_of_nodup_map hkeys hb ha hkey.symm]

/-- A raw value is converted to the case of its opcode, or not at all. -/
theorem WellNamed.call?_conversion (hnames : m.WellNamed) (hset : set ∈ m.emitted) (raw : UInt32) :
    call? m.lines (tryFrom set.model.width.name set.opcodeEnum) "try_from" (.integer raw.toNat) =
      some (((set.model.ofOpcode? raw).map fun c =>
        (.ok (.variant c.name none) : Datum α)).getD .err) := by
  rw [Rust.call?_eq_of_function? (hnames.function?_opcodeConversion hset)]
  exact value?_rawConversion "try_from" m.config.errorType "::InvalidBytecode)"
    (fun c hc => (hnames.cases set hset c hc).name) raw

/-- The value of a test for some cases at a case of the set. -/
theorem WellNamed.call?_test (hnames : m.WellNamed) (hset : set ∈ m.emitted) {function : String}
    {names : List String} (hmem : ⟨function, "self", [isOneOf names]⟩ ∈ opcodeFunctions set)
    (hcases : ∀ name ∈ names, ∃ c ∈ set.model.cases, c.name = name) (name : String) :
    call? m.lines (inherent set.opcodeEnum) function (.variant name none) =
      some (.truth (names.contains name) : Datum α) := by
  have hids : ∀ name ∈ names, isIdentifier name = true := by
    intro name hname
    obtain ⟨c, hc, rfl⟩ := hcases name hname
    exact (hnames.cases set hset c hc).name
  have hfound := hnames.function?_opcodes hset hmem
  rw [Rust.call?_eq_of_function? hfound, value?_isOneOf _ hids]

theorem WellNamed.call?_predicate (hnames : m.WellNamed) (hset : set ∈ m.emitted)
    (hcoherent : set.Coherent) (hc : c ∈ set.model.cases) (p : Predicate) :
    call? m.lines (inherent set.opcodeEnum) p.functionName (.variant c.name none) =
      some (.truth (c.has p) : Datum α) := by
  have hmem : (⟨p.functionName, "self", [isOneOf (predicateCases set p)]⟩ : Function) ∈
      opcodeFunctions set :=
    List.mem_append_left _ (List.mem_map.2 ⟨p, p.mem_all, rfl⟩)
  have hcases : ∀ name ∈ predicateCases set p, ∃ c ∈ set.model.cases, c.name = name := by
    intro name hname
    obtain ⟨c, hc, hname⟩ := List.mem_map.1 hname
    exact ⟨c, (List.mem_filter.1 hc).1, hname⟩
  have hholds : (predicateCases set p).contains c.name = c.has p := by
    rw [Bool.eq_iff_iff, List.contains_iff_mem, hcoherent.mem_predicateCases_iff hc]
  rw [hnames.call?_test hset hmem hcases, hholds]

theorem WellNamed.call?_isSpecialized (hnames : m.WellNamed) (hset : set ∈ m.emitted)
    (hcoherent : set.Coherent) (hc : c ∈ set.model.cases) :
    call? m.lines (inherent set.opcodeEnum) "is_specialized" (.variant c.name none) =
      some (.truth (set.deopt.isSpecialized c.name) : Datum α) := by
  have hmem : (⟨"is_specialized", "self", [isOneOf (specializedCases set)]⟩ : Function) ∈
      opcodeFunctions set :=
    List.mem_append_right _ (List.mem_cons_of_mem _ (List.mem_singleton_self _))
  have hholds : (specializedCases set).contains c.name = set.deopt.isSpecialized c.name := by
    rw [Bool.eq_iff_iff, List.contains_iff_mem, hcoherent.mem_specializedCases_iff hc]
  rw [hnames.call?_test hset hmem (fun _ => exists_of_mem_knownCases), hholds]

/-! ### Deoptimizing -/

/-- Where nothing is specialized, a deoptimizing function returns its argument. -/
theorem value?_deoptBody_of_isEmpty (hempty : set.deopt.isEmpty = true) (function : String)
    (arms : List String) (otherwise : String) (value : Datum α) :
    Function.value? ⟨function, "self", deoptBody set arms otherwise⟩ value = some value := by
  have hbody : Rust.Body.ofLines? ["self"] = some (.place "self") := by decide
  rw [deoptBody, if_pos hempty, Function.value?, hbody]
  rfl

theorem WellNamed.call?_deopt (hnames : m.WellNamed) (hset : set ∈ m.emitted)
    (hcoherent : set.Coherent) (hc : c ∈ set.model.cases) :
    call? m.lines (inherent set.opcodeEnum) "deopt" (.variant c.name none) =
      some (.variant (set.deopt.deopt c.name) none : Datum α) := by
  have hfound := hnames.function?_opcodes hset
    (List.mem_append_right _ List.mem_cons_self)
  rw [Rust.call?_eq_of_function? hfound]
  cases hempty : set.deopt.isEmpty with
  | true =>
      rw [value?_deoptBody_of_isEmpty hempty, hcoherent.deopt_eq_self_of_isEmpty hempty hc]
  | false =>
      have hrows : ∀ row ∈ deoptArms set, row.1 ≠ [] ∧
          (∀ name ∈ row.1, isIdentifier name = true) ∧ isIdentifier row.2 = true := by
        intro row hrow
        obtain ⟨target, htarget, hmembers, rfl⟩ := mem_deoptArms_iff.1 hrow
        refine ⟨hcoherent.knownCases_ne_nil hmembers, fun name hname => ?_,
          (hnames.cases set hset _ htarget).name⟩
        obtain ⟨other, hother, rfl⟩ := exists_of_mem_knownCases hname
        exact (hnames.cases set hset other hother).name
      rw [deoptBody, hempty, if_neg Bool.false_ne_true, value?_deoptArms _ hrows,
        hcoherent.find?_deoptArms hc]

theorem WellNamed.exists_call?_instructionDeopt (hnames : m.WellNamed) (hset : set ∈ m.emitted)
    (hcoherent : set.Coherent) (hc : c ∈ set.model.cases) :
    ∃ t ∈ set.model.cases, t.name = set.deopt.deopt c.name ∧ ∀ x : α,
      call? m.lines (inherent set.instructionEnum) "deopt" (c.datum x) = some (t.datum x) := by
  simp only [Rust.call?_eq_of_function? (hnames.function?_instructionDeopt hset), instructionDeopt]
  cases hempty : set.deopt.isEmpty with
  | true =>
      refine ⟨c, hc, (hcoherent.deopt_eq_self_of_isEmpty hempty hc).symm, fun x => ?_⟩
      exact value?_deoptBody_of_isEmpty hempty _ _ _ _
  | false =>
      have hrows : ∀ row ∈ instructionDeoptArms set, row.1.WellNamed ∧ row.2.WellNamed ∧
          row.1.operand.isSome = row.2.operand.isSome := by
        intro row hrow
        obtain ⟨hcase, htarget, -⟩ := hcoherent.mem_instructionDeoptArms_iff.1 hrow
        exact ⟨hnames.cases set hset _ hcase, hnames.cases set hset _ htarget,
          hcoherent.operand_of_mem_instructionDeoptArms hrow⟩
      have hunique : ∀ row ∈ instructionDeoptArms set, row.1.name = c.name → row.1 = c :=
        fun row hrow => hcoherent.eq_of_name (hcoherent.mem_instructionDeoptArms_iff.1 hrow).1 hc
      obtain ⟨t, ht, hname, htarget⟩ := hcoherent.find?_instructionDeoptArms hc
      refine ⟨t, ht, hname, fun x => ?_⟩
      rw [deoptBody, hempty, if_neg Bool.false_ne_true,
        value?_instructionDeoptArms _ hrows hunique, htarget]

/-! ### Named types -/

theorem WellNamed.call?_namedConversion (hnames : m.WellNamed) {type : NamedType}
    (htype : type ∈ m.registry.named)
    (hids : ∀ variant ∈ type.variants, isIdentifier variant.name = true) (raw : UInt32) :
    call? m.lines (tryFrom "u32" type.name) "try_from" (.integer raw.toNat) =
      some (((type.variants.find? fun variant => variant.value = raw).map fun variant =>
        (.ok (.variant variant.name none) : Datum α)).getD .err) := by
  rw [Rust.call?_eq_of_function? (hnames.function?_namedConversion htype)]
  exact value?_rawConversion "try_from" m.config.errorType "::InvalidOperand)" hids raw

end GeneratedModel

/-- The conversion that some lines define for a named type answers what the registry answers. -/
structure NamedType.AnsweredBy (type : NamedType) (registry : Registry) (lines : Lines) (α : Type) :
    Prop where
  convert : ∀ (raw : UInt32) (index : Nat) (variant : Variant),
    type.variants[index]? = some variant →
    (call? lines (tryFrom "u32" type.name) "try_from" (.integer raw.toNat) =
        some (.ok (.variant variant.name none) : Datum α) ↔
      registry.decode type.name raw = .ok (.variant index raw))
  reject : ∀ raw : UInt32, (∀ index, registry.decode type.name raw ≠ .ok (.variant index raw)) →
    call? lines (tryFrom "u32" type.name) "try_from" (.integer raw.toNat) =
      some (.err : Datum α)

namespace NamedType

variable {type : NamedType} {raw : UInt32} {index : Nat} {variant : Variant}

theorem decode?_eq_some_iff (hvalues : (type.variants.map Variant.value).Nodup)
    (hvariant : type.variants[index]? = some variant) :
    type.decode? raw = some index ↔ variant.value = raw := by
  have hencode : type.encode? index = some variant.value := by
    rw [encode?, hvariant]
    rfl
  constructor
  · intro hdecode
    have hraw := encode?_of_decode? hdecode
    rw [hencode] at hraw
    exact Option.some.inj hraw
  · rintro rfl
    exact decode?_of_encode? hvalues hencode

end NamedType

namespace GeneratedModel

variable {table : Table} {source : PropertySource} {m : GeneratedModel} {type : NamedType}

theorem WellNamed.decode_eq_ok_iff (hnames : m.WellNamed) (htype : type ∈ m.registry.named)
    (raw : UInt32) (index : Nat) :
    m.registry.decode type.name raw = .ok (.variant index raw) ↔ type.decode? raw = some index := by
  have hfound : m.registry.get? type.name = some (.named type) :=
    (find?_key_eq_some_iff hnames.nodup_names).2 ⟨mem_named_iff.1 htype, rfl⟩
  rw [Registry.decode, hfound]
  cases hdecode : type.decode? raw <;> simp [OpargType.decode, OpargType.decode?, hdecode]

theorem WellNamed.answeredBy_named (hnames : m.WellNamed) (h : table.build source = .ok m)
    (htype : type ∈ m.registry.named) (α : Type) : type.AnsweredBy m.registry m.lines α := by
  have hregistry := (Table.build_eq_ok h).1
  have hvalues : (type.variants.map Variant.value).Nodup :=
    Registry.unambiguous_of_build hregistry _ (mem_named_iff.1 htype)
  have hvariants := Registry.nodup_variantNames_of_build hregistry (mem_named_iff.1 htype)
  have hcall := hnames.call?_namedConversion (α := α) htype (hnames.variants type htype)
  constructor
  · intro raw index variant hvariant
    have hmem := List.mem_of_getElem? hvariant
    rw [hnames.decode_eq_ok_iff htype, NamedType.decode?_eq_some_iff hvalues hvariant, hcall]
    exact converted_eq_ok_iff hvalues
      (fun _ ha _ hb hname => List.inj_on_of_nodup_map hvariants ha hb hname) hmem raw
  · intro raw hfails
    have hnone : type.decode? raw = none := by
      refine Option.eq_none_iff_forall_ne_some.2 fun index hdecode => ?_
      exact hfails index ((hnames.decode_eq_ok_iff htype raw index).2 hdecode)
    have hmissed : (type.variants.find? fun variant => variant.value = raw) = none := by
      simpa using NamedType.decode?_eq_none_iff.1 hnone
    rw [hcall, hmissed]
    rfl

/-- A case and the one that it deoptimizes to both carry an operand, or neither does. -/
theorem exists_target_case (h : table.build source = .ok m) (kind : SetKind) {c : Case}
    (hc : c ∈ (m.set kind).model.cases) :
    ∃ t ∈ (m.set kind).model.cases, t.name = (m.set kind).deopt.deopt c.name ∧
      c.operand.isSome = t.operand.isSome := by
  have hcases := InstructionModel.resolves_build (Table.model_of_build h kind)
  have hopcodes : ((m.set kind).model.cases.map Case.opcode).Nodup := by
    rw [← InstructionModel.opcodes_eq hcases]
    exact (m.set kind).definitions.nodup_opcodes
  -- The target is known of definitions, which cases share their opcodes with.
  obtain ⟨d, hd, hresolves⟩ := exists_of_forall₂ hcases hc
  obtain ⟨t, ht, htarget, found, other, hfound, hother, htype⟩ := exists_target h kind hd
  obtain ⟨hmem, hopcode⟩ := (find?_key_eq_some_iff hopcodes).1 hfound
  obtain rfl := List.inj_on_of_nodup_map hopcodes hmem hc (hopcode.trans hresolves.opcode.symm)
  have hrel := InstructionModel.rel_ofOpcode? hcases t.opcode
  rw [InstructionSet.ofOpcode?_of_mem ht] at hrel
  obtain ⟨_, hsame, hresolved⟩ := eq_some_of_rel hrel
  obtain rfl := Option.some.inj (hother.symm.trans hsame)
  refine ⟨other, List.mem_of_find?_eq_some hother, ?_, ?_⟩
  · rw [hresolved.name, htarget, hresolves.name]
  · have hsome := congrArg Option.isSome htype
    rwa [Case.operandType?, Case.operandType?, Option.isSome_map, Option.isSome_map] at hsome

theorem coherent_of_build (h : table.build source = .ok m) (kind : SetKind) :
    (m.set kind).Coherent := by
  obtain ⟨-, definitions, hload, hset⟩ := Table.build_eq_ok h
  obtain ⟨hdefinitions, hmodel, hresolve, -⟩ := SetModel.build_eq_ok (hset kind)
  have hnames := Table.nodup_names_of_load hload kind
  have hcases := InstructionModel.resolves_build hmodel
  have hresolved := DeoptMap.resolved_of_resolve hnames hcases hresolve
  constructor
  · rw [← InstructionModel.opcodes_eq hcases]
    exact (definitions.set kind).nodup_opcodes
  · exact fun name c => InstructionModel.get?_eq_some_iff hcases hnames
  · rwa [hdefinitions]
  · rintro ⟨specialized, target⟩ hentry
    obtain ⟨d, hd, -, rfl, -⟩ := hresolved.mem_entries_iff.1 hentry
    obtain ⟨c, hc, hresolves⟩ := exists_of_forall₂ hcases.flip hd
    exact ⟨c, hc, hresolves.name⟩
  · exact fun c => exists_target_case h kind

theorem WellNamed.answeredBy_set (hnames : m.WellNamed) {set : SetModel} (hset : set ∈ m.emitted)
    (hcoherent : set.Coherent) (α : Type) : set.AnsweredBy m.lines α where
  convert := by
    intro raw c hc
    rw [hnames.call?_conversion hset, InstructionModel.ofOpcode_eq_ok_iff hcoherent.opcodes,
      and_iff_right hc]
    exact converted_eq_ok_iff hcoherent.opcodes
      (fun _ ha _ hb hname => hcoherent.eq_of_name ha hb hname) hc raw
  reject := by
    intro raw hfails
    have hnone : set.model.ofOpcode? raw = none := by
      refine Option.eq_none_iff_forall_ne_some.2 fun c hfound => hfails c ?_
      rw [InstructionModel.ofOpcode, hfound]
    rw [hnames.call?_conversion hset, hnone]
    rfl
  predicate := fun p _ hc => hnames.call?_predicate hset hcoherent hc p
  deopt := fun _ hc => hnames.call?_deopt hset hcoherent hc
  isSpecialized := fun _ hc => hnames.call?_isSpecialized hset hcoherent hc
  instructionDeopt := fun _ hc => hnames.exists_call?_instructionDeopt hset hcoherent hc

/-- The emitted functions of a built model reproduce it, where the names are identifiers and those
of the types differ. They are found among the lines of the text, and of the arms of each the first
that matches is taken. -/
theorem emitted_tables_agree (h : table.build source = .ok m) (hnames : m.WellNamed) (α : Type) :
    m.render = m.lines.render ∧
    ('\n' ∉ m.config.errorType.toList → Rust.linesOf m.render = m.lines) ∧
    (∀ set ∈ m.emitted, set.AnsweredBy m.lines α) ∧
    ∀ type ∈ m.registry.named, type.AnsweredBy m.registry m.lines α := by
  refine ⟨m.render_eq, hnames.linesOf_render h, fun set hset => ?_,
    fun type htype => hnames.answeredBy_named h htype α⟩
  obtain ⟨kind, rfl⟩ := exists_kind_of_mem_emitted hset
  exact hnames.answeredBy_set hset (coherent_of_build h kind) α

/-- A specialized instruction that calls its operand by another name than its family. -/
def renamedOperands : Table where
  opargs := .ofList [
    ("Operator", .named { variants := [{ name := "Add" }, { name := "Sub" }] })]
  instructions := .ofList [
    ("Binary", {
      opcode := 10
      canonicalName := "BINARY"
      operand := some { field := some "operator", type := some "Operator" } }),
    ("BinaryInt", {
      opcode := 4
      canonicalName := "BINARY_INT"
      operand := some { field := some "kind", type := some "Operator" }
      family := some "Binary" })]

theorem emitted_tables_agree_renamedOperands :
    ∃ m, renamedOperands.build (fun _ => some { stack := some {} }) = .ok m ∧ m.WellNamed ∧
      call? (Rust.linesOf m.render) (tryFrom "u8" "RealOpcode") "try_from" (.integer 4) =
        some (.ok (.variant "BinaryInt" none) : Datum Bool) ∧
      call? (Rust.linesOf m.render) (inherent "RealInstruction") "deopt"
          (.variant "BinaryInt" (some ("kind", true))) =
        some (.variant "Binary" (some ("operator", true))) := by
  have hrun : (do
      let m ← renamedOperands.build fun _ => some { stack := some {} }
      return (m.config.errorType, m.typeNames, m.registry.named.map NamedType.variants,
        m.emitted.map fun set =>
          ((set.model.width, set.opcodeEnum, set.instructionEnum), set.deopt.deopt "BinaryInt",
            set.model.cases.map fun c => (c.name, c.opcode, c.operand))) :
          Except BuildError _) =
      .ok ("crate::MarshalError", ["Operator", "RealOpcode", "RealInstruction"],
        [[⟨"Add", 0, none⟩, ⟨"Sub", 1, none⟩]],
        [((.u8, "RealOpcode", "RealInstruction"), "Binary",
          [("BinaryInt", 4, some ⟨"kind", "Operator"⟩),
            ("Binary", 10, some ⟨"operator", "Operator"⟩)])]) := by
    cbv
  simp only [bind_eq_ok_iff, pure_eq_ok, Except.ok.injEq, Prod.mk.injEq, List.map_eq_cons_iff,
    List.map_eq_nil_iff] at hrun
  obtain ⟨m, hbuild, herror, htypes, ⟨type, _, hnamed, hvariants, rfl⟩, set, _, hset,
    ⟨⟨hwidth, hopcodeEnum, hinstructionEnum⟩, htarget, c, _, hcases,
      ⟨hname, hopcode, hoperand⟩, t, _, rfl, ⟨htargetName, -, htargetOperand⟩, rfl⟩, rfl⟩ := hrun
  have hnames : m.WellNamed := by
    refine ⟨by rw [htypes]; decide, by rw [htypes]; decide, ?_, ?_⟩
    · rw [hnamed, List.forall_mem_singleton, hvariants]
      decide
    · have hfields : ∀ field ∈ ["BinaryInt", "kind", "Binary", "operator"],
          isIdentifier field = true := by
        decide
      rw [hset, List.forall_mem_singleton, hcases]
      simp only [List.forall_mem_cons] at hfields ⊢
      obtain ⟨hcase, hkind, htargetCase, hoperator, -⟩ := hfields
      refine ⟨⟨by rwa [hname], ?_⟩, ⟨by rwa [htargetName], ?_⟩, List.forall_mem_nil _⟩
      · rw [hoperand]
        rintro _ ⟨⟩
        exact hkind
      · rw [htargetOperand]
        rintro _ ⟨⟩
        exact hoperator
  obtain ⟨-, hlines, hsets, -⟩ := emitted_tables_agree hbuild hnames Bool
  have hanswers := hsets set (by simp [hset])
  have hc : c ∈ set.model.cases := by simp [hcases]
  have hconverted := (hanswers.convert 4 c hc).2 (by
    simp [InstructionModel.ofOpcode, InstructionModel.ofOpcode?, hcases, hopcode])
  obtain ⟨other, hother, hotherName, hdeopt⟩ := hanswers.instructionDeopt c hc
  obtain rfl : other = t := by
    rw [hname, htarget] at hotherName
    rw [hcases] at hother
    rcases List.mem_cons.1 hother with rfl | hother
    · simp [hname] at hotherName
    · exact List.mem_singleton.1 hother
  have hdeopt := hdeopt true
  rw [Case.datum, Case.datum, hname, hoperand, htargetName, htargetOperand] at hdeopt
  rw [hwidth, hopcodeEnum, hname] at hconverted
  rw [hinstructionEnum] at hdeopt
  refine ⟨m, hbuild, hnames, ?_, ?_⟩
  · rw [hlines (by rw [herror]; decide)]
    exact hconverted
  · rw [hlines (by rw [herror]; decide)]
    exact hdeopt

end GeneratedModel

end Bytecode

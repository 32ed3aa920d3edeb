import Bytecode.Proofs.Instruction.Codec
import Bytecode.Proofs.Instruction.Families
import Mathlib.Data.List.Induction

/-!
# Deoptimizing

A resolved map sends every instruction to the root of its families, and its three views of the
specialized instructions agree. In a built model an instruction and its root have one operand type,
so that deoptimizing keeps the operand.
-/

namespace Bytecode

open Relation (ReflTransGen)

/-- The names belong to instructions of the set, in strictly increasing order of their opcodes. -/
def InstructionSet.InOpcodeOrder (set : InstructionSet) (names : List String) : Prop :=
  names.Nodup ∧ (∀ name ∈ names, ∃ d ∈ set.definitions, d.name = name) ∧
    names.Pairwise fun a b => ∃ d ∈ set.definitions, ∃ e ∈ set.definitions,
      d.name = a ∧ e.name = b ∧ d.opcode < e.opcode

namespace DeoptMap

variable {set : InstructionSet} {model : InstructionModel} {registry : Registry} {d e root : Definition}
  {entries : List (String × String)} {specialized target : String} {map : DeoptMap}

/-! ### Recorded entries -/

theorem ofEntries_append (entries : List (String × String)) (entry : String × String) :
    ofEntries (entries ++ [entry]) = (ofEntries entries).record entry := by
  simp [ofEntries]

theorem entries_ofEntries (entries : List (String × String)) :
    (ofEntries entries).entries = entries := by
  induction entries using List.reverseRecOn with
  | nil => rfl
  | append_singleton entries entry ih => rw [ofEntries_append, record, ih]

theorem familyMembers_ofEntries (entries : List (String × String)) (target : String) :
    (ofEntries entries).familyMembers target =
      (entries.filter fun entry => entry.2 = target).map Prod.fst := by
  induction entries using List.reverseRecOn with
  | nil => rfl
  | append_singleton entries entry ih =>
      rw [ofEntries_append, List.filter_append, List.map_append, ← ih, familyMembers, record,
        NameMap.get?_insert]
      by_cases h : entry.2 = target
      · subst h
        simp
      · simp [h, familyMembers]

/-- Where each instruction has one entry at most, the targets are those of the entries. -/
theorem get?_targets_ofEntries (hnodup : (entries.map Prod.fst).Nodup) :
    (ofEntries entries).targets.get? specialized = some target ↔
      (specialized, target) ∈ entries := by
  induction entries using List.reverseRecOn with
  | nil => simp [ofEntries, NameMap.get?_empty]
  | append_singleton entries entry ih =>
      rw [List.map_append, List.nodup_append] at hnodup
      obtain ⟨hentries, -, hdisjoint⟩ := hnodup
      have hnew : ∀ target, (entry.1, target) ∉ entries := fun target hmem =>
        hdisjoint _ (List.mem_map_of_mem (f := Prod.fst) hmem) entry.1 (by simp) rfl
      rw [ofEntries_append, record, NameMap.get?_insert]
      by_cases h : entry.1 = specialized
      · subst h
        have hpair : (entry.1, target) = entry ↔ entry.2 = target := by
          constructor
          · intro heq
            rw [← heq]
          · intro heq
            rw [← heq]
        simp [hnew, hpair]
      · have hpair : (specialized, target) ≠ entry := fun heq => h (by rw [← heq])
        simp [h, ih hentries, hpair]

/-! ### Resolved maps -/

structure Ends (set : InstructionSet) (d : Definition) (entry : String × String) : Prop where
  name : entry.1 = d.name
  root : ∃ root, set.IsRoot d root ∧ entry.2 = root.name

/-- A map with one entry for each definition that declares a family, in the order of the set. -/
structure Resolved (set : InstructionSet) (map : DeoptMap) : Prop where
  names : (set.definitions.map Definition.name).Nodup
  roots : ∀ d ∈ set.definitions, ∃ root, set.IsRoot d root
  entries : List.Forall₂ (Ends set) (set.definitions.filter fun d => d.family.isSome) map.entries
  recorded : map = ofEntries map.entries

theorem forall₂_ends {ds : List Definition} {found : List (Option (String × String))}
    (h : List.Forall₂ (fun d entry => ∃ root, set.IsRoot d root ∧
      entry = if d.family = none then none else some (d.name, root.name)) ds found) :
    List.Forall₂ (Ends set) (ds.filter fun d => d.family.isSome) (found.filterMap id) := by
  induction h with
  | nil => exact .nil
  | @cons d entry ds found hhead _ ih =>
      obtain ⟨root, hroot, rfl⟩ := hhead
      cases hfamily : d.family with
      | none => simpa [hfamily] using ih
      | some family => simpa [hfamily] using List.Forall₂.cons ⟨rfl, root, hroot, rfl⟩ ih

theorem exists_stepping (hnames : (set.definitions.map Definition.name).Nodup)
    (hcases : List.Forall₂ (Case.Resolves registry) set.definitions model.cases)
    (h : resolve set model = .ok map) : ∃ steps, Stepping set model steps := by
  unfold resolve at h
  simp only [bind_eq_ok_iff] at h
  obtain ⟨steps, hsteps, -⟩ := h
  exact ⟨_, stepping_of_mapM hnames hcases hsteps⟩

theorem resolved_of_resolve (hnames : (set.definitions.map Definition.name).Nodup)
    (hcases : List.Forall₂ (Case.Resolves registry) set.definitions model.cases)
    (h : resolve set model = .ok map) : Resolved set map := by
  unfold resolve at h
  simp only [bind_eq_ok_iff] at h
  obtain ⟨steps, hsteps, found, hfound, hend⟩ := h
  obtain rfl := Except.ok.inj hend
  have hstepping := stepping_of_mapM hnames hcases hsteps
  have hentries := (List.forall₂_and_left _ _).2 ⟨fun d hd => hd, mapM_eq_ok_iff.1 hfound⟩
  have hends := hentries.imp fun d entry hentry => entryOf_eq_ok hstepping hentry.1 hentry.2
  constructor
  · exact hnames
  · intro d hd
    obtain ⟨entry, -, root, hroot, -⟩ := exists_of_forall₂ hends.flip hd
    exact ⟨root, hroot⟩
  · rw [entries_ofEntries]
    exact forall₂_ends hends
  · rw [entries_ofEntries]

namespace Resolved

theorem map_fst_entries (h : Resolved set map) :
    map.entries.map Prod.fst =
      (set.definitions.filter fun d => d.family.isSome).map Definition.name :=
  (map_eq_map_of_forall₂ h.entries fun _ _ hends => hends.name.symm).symm

theorem nodup_fst_entries (h : Resolved set map) : (map.entries.map Prod.fst).Nodup := by
  rw [h.map_fst_entries]
  exact h.names.sublist (List.filter_sublist.map _)

/-- The entries are those of the specialized definitions and of their roots. -/
theorem mem_entries_iff (h : Resolved set map) :
    (specialized, target) ∈ map.entries ↔ ∃ d ∈ set.definitions, d.family.isSome ∧
      d.name = specialized ∧ ∃ root, set.IsRoot d root ∧ root.name = target := by
  constructor
  · intro hmem
    obtain ⟨d, hd, hends⟩ := exists_of_forall₂ h.entries hmem
    obtain ⟨hd, hfamily⟩ := List.mem_filter.1 hd
    obtain ⟨root, hroot, htarget⟩ := hends.root
    exact ⟨d, hd, hfamily, hends.name.symm, root, hroot, htarget.symm⟩
  · rintro ⟨d, hd, hfamily, rfl, root, hroot, rfl⟩
    obtain ⟨⟨name, last⟩, hmem, hends⟩ :=
      exists_of_forall₂ h.entries.flip (List.mem_filter.2 ⟨hd, hfamily⟩)
    obtain ⟨other, hother, hlast⟩ := hends.root
    obtain rfl : name = d.name := hends.name
    obtain rfl : last = other.name := hlast
    rw [hroot.unique h.names hother] at hmem
    exact hmem

theorem get?_targets_iff (h : Resolved set map) :
    map.targets.get? specialized = some target ↔ (specialized, target) ∈ map.entries := by
  rw [h.recorded, entries_ofEntries]
  exact get?_targets_ofEntries h.nodup_fst_entries

theorem familyMembers_eq (h : Resolved set map) (target : String) :
    map.familyMembers target =
      (map.entries.filter fun entry => entry.2 = target).map Prod.fst := by
  rw [h.recorded, entries_ofEntries]
  exact familyMembers_ofEntries map.entries target

theorem mem_familyMembers_iff (h : Resolved set map) :
    specialized ∈ map.familyMembers target ↔ (specialized, target) ∈ map.entries := by
  simp [h.familyMembers_eq]

theorem mem_familyMembers_iff_deopt (h : Resolved set map) :
    specialized ∈ map.familyMembers target ↔
      map.isSpecialized specialized = true ∧ map.deopt specialized = target := by
  rw [h.mem_familyMembers_iff, ← h.get?_targets_iff, isSpecialized, NameMap.contains, deopt]
  cases map.targets.get? specialized <;> simp

theorem isSpecialized_eq (h : Resolved set map) (hd : d ∈ set.definitions) :
    map.isSpecialized d.name = d.family.isSome := by
  rw [Bool.eq_iff_iff, isSpecialized, NameMap.contains, Option.isSome_iff_exists]
  constructor
  · rintro ⟨target, htarget⟩
    obtain ⟨e, he, hfamily, hname, -⟩ := h.mem_entries_iff.1 (h.get?_targets_iff.1 htarget)
    rwa [← InstructionSet.eq_of_name h.names he hd hname]
  · intro hfamily
    obtain ⟨root, hroot⟩ := h.roots d hd
    have hmem := h.mem_entries_iff.2 ⟨d, hd, hfamily, rfl, root, hroot, rfl⟩
    exact ⟨root.name, h.get?_targets_iff.2 hmem⟩

theorem deopt_eq (h : Resolved set map) (hd : d ∈ set.definitions) (hroot : set.IsRoot d root) :
    map.deopt d.name = root.name := by
  cases hfamily : d.family with
  | some family =>
      have hmem := h.mem_entries_iff.2
        ⟨d, hd, by rw [hfamily]; rfl, rfl, root, hroot, rfl⟩
      rw [deopt, h.get?_targets_iff.2 hmem, Option.getD_some]
  | none =>
      have hnone : map.targets.get? d.name = none := by
        have hplain := h.isSpecialized_eq hd
        simpa [isSpecialized, NameMap.contains, hfamily] using hplain
      rw [deopt, hnone, Option.getD_none, hroot.eq_self_iff.2 hfamily]

theorem inOpcodeOrder_of_sublist (h : Resolved set map) {names : List String}
    (hsub : names.Sublist (map.entries.map Prod.fst)) : set.InOpcodeOrder names := by
  have hall : set.InOpcodeOrder (map.entries.map Prod.fst) := by
    refine ⟨h.nodup_fst_entries, ?_, ?_⟩
    · intro name hname
      rw [h.map_fst_entries] at hname
      obtain ⟨d, hd, rfl⟩ := List.mem_map.1 hname
      exact ⟨d, (List.mem_filter.1 hd).1, rfl⟩
    · rw [h.map_fst_entries, List.pairwise_map]
      have hincreasing := set.increasing.sublist (List.filter_sublist (p := fun d => d.family.isSome))
      refine hincreasing.imp_of_mem fun {d e} hd he hlt => ?_
      exact ⟨d, (List.mem_filter.1 hd).1, e, (List.mem_filter.1 he).1, rfl, rfl, hlt⟩
  exact ⟨hall.1.sublist hsub, fun name hname => hall.2.1 name (hsub.subset hname),
    hall.2.2.sublist hsub⟩

end Resolved

variable {table : Table} {source : PropertySource} {definitions : Definitions} {kind : SetKind}
  {defaults : DefaultOpargs}

theorem resolved_of_load (hload : table.load source = .ok definitions)
    (hmodel : InstructionModel.build (definitions.set kind) registry defaults = .ok model)
    (hresolve : resolve (definitions.set kind) model = .ok map) :
    Resolved (definitions.set kind) map :=
  resolved_of_resolve (Table.nodup_names_of_load hload kind)
    (InstructionModel.resolves_build hmodel) hresolve

/-- Deoptimizing leads to the one root of the declared families and changes nothing further. The
specialized instructions are those that declare a family. The entries, the members of each target
and the targets agree, in the order of the opcodes, and only roots have members. -/
theorem resolve_roots (hload : table.load source = .ok definitions)
    (hmodel : InstructionModel.build (definitions.set kind) registry defaults = .ok model)
    (hresolve : resolve (definitions.set kind) model = .ok map) :
    (∀ d ∈ (definitions.set kind).definitions,
      (∃! root, (definitions.set kind).IsRoot d root) ∧
      (∀ root, (definitions.set kind).IsRoot d root → map.deopt d.name = root.name) ∧
      (d.family = none → map.deopt d.name = d.name) ∧
      map.deopt (map.deopt d.name) = map.deopt d.name ∧
      map.isSpecialized d.name = d.family.isSome) ∧
    (∀ specialized target,
      ((specialized, target) ∈ map.entries ↔ specialized ∈ map.familyMembers target) ∧
      (specialized ∈ map.familyMembers target ↔
        map.isSpecialized specialized = true ∧ map.deopt specialized = target)) ∧
    (definitions.set kind).InOpcodeOrder (map.entries.map Prod.fst) ∧
    (∀ target, (definitions.set kind).InOpcodeOrder (map.familyMembers target)) ∧
    ∀ target, map.familyMembers target ≠ [] →
      ∃ d ∈ (definitions.set kind).definitions, d.name = target ∧ d.family = none := by
  have h := resolved_of_load hload hmodel hresolve
  refine ⟨?_, ?_, ?_, ?_, ?_⟩
  · intro d hd
    obtain ⟨root, hroot⟩ := h.roots d hd
    have hself : (definitions.set kind).IsRoot root root :=
      InstructionSet.isRoot_self hroot.mem hroot.generic
    refine ⟨⟨root, hroot, fun other => hroot.unique h.names⟩, fun _ => h.deopt_eq hd, ?_, ?_,
      h.isSpecialized_eq hd⟩
    · intro hfamily
      exact h.deopt_eq hd (InstructionSet.isRoot_self hd hfamily)
    · rw [h.deopt_eq hd hroot]
      exact h.deopt_eq hroot.mem hself
  · intro specialized target
    exact ⟨h.mem_familyMembers_iff.symm, h.mem_familyMembers_iff_deopt⟩
  · exact h.inOpcodeOrder_of_sublist (List.Sublist.refl _)
  · intro target
    rw [h.familyMembers_eq]
    exact h.inOpcodeOrder_of_sublist (List.filter_sublist.map _)
  · intro target hmembers
    obtain ⟨specialized, hmem⟩ := List.exists_mem_of_ne_nil _ hmembers
    obtain ⟨d, -, -, -, root, hroot, rfl⟩ :=
      h.mem_entries_iff.1 (h.mem_familyMembers_iff.1 hmem)
    exact ⟨root, hroot.mem, rfl, hroot.generic⟩

/-- An instruction that is specialized twice, with the opcodes out of order. -/
def additions : Table where
  instructions := .ofList [
    ("Add", { opcode := 5, canonicalName := "ADD" }),
    ("AddInt", { opcode := 3, canonicalName := "ADD_INT", family := some "Add" }),
    ("AddIntLocal", { opcode := 9, canonicalName := "ADD_INT_LOCAL", family := some "AddInt" })]

theorem resolve_roots_additions :
    ∃ definitions model map, additions.load (fun _ => some {}) = .ok definitions ∧
      InstructionModel.build (definitions.set .real) {} {} = .ok model ∧
      resolve (definitions.set .real) model = .ok map ∧
      map.familyMembers "Add" = ["AddInt", "AddIntLocal"] ∧
      map.deopt "AddIntLocal" = "Add" ∧ ("AddIntLocal", "Add") ∈ map.entries := by
  have hrun : (do
      let definitions ← additions.load fun _ => some {}
      let model ← InstructionModel.build (definitions.set .real) {} {}
      let map ← resolve (definitions.set .real) model
      return map.familyMembers "Add" : Except BuildError (List String)) =
      .ok ["AddInt", "AddIntLocal"] := by cbv
  simp only [bind_eq_ok_iff, pure_eq_ok, Except.ok.injEq] at hrun
  obtain ⟨definitions, hload, model, hmodel, map, hresolve, hmembers⟩ := hrun
  have hagree := (resolve_roots hload hmodel hresolve).2.1 "AddIntLocal" "Add"
  have hmem : "AddIntLocal" ∈ map.familyMembers "Add" := by simp [hmembers]
  exact ⟨definitions, model, map, hload, hmodel, hresolve, hmembers, (hagree.2.1 hmem).2,
    hagree.1.2 hmem⟩

end DeoptMap

namespace InstructionModel

variable {set : InstructionSet} {model : InstructionModel} {registry : Registry} {d e : Definition}
  {c other : Case} {opcode raw : UInt32} {arg : Option OpargValue} {oparg : String}

/-! ### Operands of a root -/

theorem case_of_mem (hnames : (set.definitions.map Definition.name).Nodup)
    (hcases : List.Forall₂ (Case.Resolves registry) set.definitions model.cases)
    (hd : d ∈ set.definitions) :
    ∃ c, model.get? d.name = some c ∧ model.ofOpcode? d.opcode = some c := by
  have hname := rel_get? hcases d.name
  have hopcode := rel_ofOpcode? hcases d.opcode
  rw [(InstructionSet.get?_eq_some_iff hnames).2 ⟨hd, rfl⟩] at hname
  rw [InstructionSet.ofOpcode?_of_mem hd] at hopcode
  obtain ⟨c, hc, hcase⟩ := eq_some_of_rel hname
  obtain ⟨other, hother, hothercase⟩ := eq_some_of_rel hopcode
  have hnodup : (model.cases.map Case.opcode).Nodup := by
    rw [← opcodes_eq hcases]
    exact set.nodup_opcodes
  have hsame : c.opcode = other.opcode := by rw [hcase.opcode, hothercase.opcode]
  have hmem : c ∈ model.cases := List.mem_reverse.1 (List.mem_of_find?_eq_some hc)
  have heq := List.inj_on_of_nodup_map hnodup hmem (List.mem_of_find?_eq_some hother) hsame
  exact ⟨c, hc, by rw [heq, hother]⟩

/-- What is decoded under an opcode hangs on the operand type of its case alone. -/
theorem decode_arg_iff (hc : model.ofOpcode? opcode = some c) :
    model.decode registry opcode raw = .ok ⟨opcode, arg⟩ ↔
      (c.operandType? = none ∧ arg = none) ∨
        ∃ type value, c.operandType? = some type ∧ arg = some value ∧
          registry.decode type raw = .ok value := by
  rw [decode_eq_ok_iff hc]
  cases hoperand : c.operand <;> simp [Case.operandType?, hoperand]

theorem encode_arg_iff (hc : model.ofOpcode? opcode = some c) :
    model.encode registry ⟨opcode, arg⟩ = .ok (opcode, raw) ↔
      (c.operandType? = none ∧ arg = none ∧ raw = 0) ∨
        ∃ type value, c.operandType? = some type ∧ arg = some value ∧
          registry.encode type value = .ok raw := by
  rw [encode_eq_ok_iff hc rfl]
  cases hoperand : c.operand <;> simp [Case.operandType?, hoperand]

theorem Codable.decode_eq_invalidOperand_iff (h : model.Codable registry)
    (hc : model.ofOpcode? opcode = some c) :
    model.decode registry opcode raw = .error (.invalidOperand oparg raw) ↔
      c.operandType? = some oparg ∧
        ∃ type, registry.get? oparg = some type ∧ ¬ type.Holds raw := by
  rw [h.decode_eq_error_iff]
  cases hoperand : c.operand with
  | none => simp [Case.operandType?, hoperand, hc]
  | some operand =>
      simp only [reduceCtorEq, false_and, DecodeError.invalidOperand.injEq, and_true, hc,
        Option.some.injEq, Case.operandType?, hoperand, Option.map_some, false_or]
      constructor
      · rintro ⟨_, _, type, rfl, rfl, hsome, htype, hnot⟩
        obtain rfl := Option.some.inj (hoperand.symm.trans hsome)
        exact ⟨rfl, type, htype, hnot⟩
      · rintro ⟨rfl, type, htype, hnot⟩
        exact ⟨c, operand, type, rfl, rfl, hoperand, htype, hnot⟩

/-- Decoding under a known opcode fails with its operand type or not at all. -/
theorem Codable.decode_known (h : model.Codable registry)
    (hc : model.ofOpcode? opcode = some c) (raw : UInt32) :
    (∃ arg, model.decode registry opcode raw = .ok ⟨opcode, arg⟩) ∨
      ∃ oparg, model.decode registry opcode raw = .error (.invalidOperand oparg raw) := by
  cases hdecode : model.decode registry opcode raw with
  | error e =>
      obtain ⟨-, hnone⟩ | ⟨_, operand, _, rfl, -⟩ := h.decode_eq_error_iff.1 hdecode
      · rw [hc] at hnone
        contradiction
      · exact .inr ⟨operand.type, rfl⟩
  | ok instruction =>
      obtain ⟨-, rfl⟩ | ⟨_, value, -, rfl, -⟩ := (decode_eq_ok_iff hc).1 hdecode
      · exact .inl ⟨none, rfl⟩
      · exact .inl ⟨some value, rfl⟩

end InstructionModel

namespace GeneratedModel

variable {table : Table} {source : PropertySource} {m : GeneratedModel} {s : Definition}

/-- In a built model an instruction and the one that it deoptimizes to have one operand type. -/
theorem exists_target (h : table.build source = .ok m) (kind : SetKind)
    (hs : s ∈ (m.set kind).definitions.definitions) :
    ∃ t ∈ (m.set kind).definitions.definitions, t.name = (m.set kind).deopt.deopt s.name ∧
      ∃ c other, (m.set kind).model.ofOpcode? s.opcode = some c ∧
        (m.set kind).model.ofOpcode? t.opcode = some other ∧
        c.operandType? = other.operandType? := by
  obtain ⟨-, definitions, hload, hset⟩ := Table.build_eq_ok h
  obtain ⟨hdefinitions, hmodel, hresolve, -⟩ := SetModel.build_eq_ok (hset kind)
  rw [hdefinitions] at hs ⊢
  have hnames := Table.nodup_names_of_load hload kind
  have hcases := InstructionModel.resolves_build hmodel
  have hresolved := DeoptMap.resolved_of_resolve hnames hcases hresolve
  obtain ⟨steps, hstepping⟩ := DeoptMap.exists_stepping hnames hcases hresolve
  obtain ⟨root, hroot⟩ := hresolved.roots s hs
  obtain ⟨c, hname, hopcode⟩ := InstructionModel.case_of_mem hnames hcases hs
  obtain ⟨other, hothername, hotheropcode⟩ :=
    InstructionModel.case_of_mem hnames hcases hroot.mem
  have htype := hstepping.operandType?_eq hnames hs hroot.reached
  rw [hname, hothername] at htype
  exact ⟨root, hroot.mem, (hresolved.deopt_eq hs hroot).symm, c, other, hopcode, hotheropcode,
    htype⟩

/-- Replacing an instruction by the one that it deoptimizes to keeps its operand: both decode the
same raw values to the same operands, fail on the same ones, and encode an operand alike. -/
theorem decode_deopt (h : table.build source = .ok m) (kind : SetKind)
    (hs : s ∈ (m.set kind).definitions.definitions) :
    ∃ t ∈ (m.set kind).definitions.definitions, t.name = (m.set kind).deopt.deopt s.name ∧
      ∀ raw,
        (∀ arg, m.decode kind s.opcode raw = .ok ⟨s.opcode, arg⟩ ↔
          m.decode kind t.opcode raw = .ok ⟨t.opcode, arg⟩) ∧
        ((∀ arg, m.decode kind s.opcode raw ≠ .ok ⟨s.opcode, arg⟩) →
          ∃ oparg, m.decode kind s.opcode raw = .error (.invalidOperand oparg raw) ∧
            m.decode kind t.opcode raw = .error (.invalidOperand oparg raw)) ∧
        ∀ arg, m.encode kind ⟨s.opcode, arg⟩ = .ok (s.opcode, raw) ↔
          m.encode kind ⟨t.opcode, arg⟩ = .ok (t.opcode, raw) := by
  obtain ⟨t, ht, htarget, c, other, hc, hother, htype⟩ := exists_target h kind hs
  have hcodable := codable_of_build h kind
  refine ⟨t, ht, htarget, fun raw => ⟨fun arg => ?_, fun hfails => ?_, fun arg => ?_⟩⟩
  · rw [decode, decode, InstructionModel.decode_arg_iff hc,
      InstructionModel.decode_arg_iff hother, htype]
  · obtain ⟨arg, hok⟩ | ⟨oparg, herror⟩ := hcodable.decode_known hc raw
    · exact absurd hok (hfails arg)
    · refine ⟨oparg, herror, (hcodable.decode_eq_invalidOperand_iff hother).2 ?_⟩
      rw [← htype]
      exact (hcodable.decode_eq_invalidOperand_iff hc).1 herror
  · rw [encode, encode, InstructionModel.encode_arg_iff hc,
      InstructionModel.encode_arg_iff hother, htype]

/-- A specialized instruction that takes the operand of its family. -/
def binaries : Table where
  opargs := .ofList [
    ("Operator", .named { variants := [{ name := "Add" }, { name := "Sub" }] }),
    ("Raw", .aliased {})]
  instructions := .ofList [
    ("Binary", {
      opcode := 10
      canonicalName := "BINARY"
      operand := some { type := some "Operator" } }),
    ("BinaryInt", { opcode := 4, canonicalName := "BINARY_INT", family := some "Binary" })]

theorem decode_deopt_binaries :
    ∃ m, binaries.build (fun _ => some { flags := { hasOparg := true }, stack := some {} }) =
        .ok m ∧
      ∃ s ∈ (m.set .real).definitions.definitions, s.opcode = 4 ∧
        ∃ t ∈ (m.set .real).definitions.definitions,
          t.name = (m.set .real).deopt.deopt s.name ∧
          m.decode .real t.opcode 1 = .ok ⟨t.opcode, some (.variant 1 1)⟩ := by
  have hrun : (do
      let m ← binaries.build fun _ => some { flags := { hasOparg := true }, stack := some {} }
      return ((m.set .real).definitions.definitions.head?.map Definition.opcode,
        m.decode .real 4 1) : Except BuildError _) =
      .ok (some 4, .ok ⟨4, some (.variant 1 1)⟩) := by cbv
  simp only [bind_eq_ok_iff, pure_eq_ok, Except.ok.injEq, Prod.mk.injEq] at hrun
  obtain ⟨m, hbuild, hhead, hdecode⟩ := hrun
  obtain ⟨s, hs, hopcode⟩ := Option.map_eq_some_iff.1 hhead
  have hmem : s ∈ (m.set .real).definitions.definitions := List.mem_of_head? hs
  obtain ⟨t, ht, htarget, hsame⟩ := decode_deopt hbuild .real hmem
  rw [← hopcode] at hdecode
  exact ⟨m, hbuild, s, hmem, hopcode, t, ht, htarget, ((hsame 1).1 _).1 hdecode⟩

end GeneratedModel

end Bytecode

import Bytecode.Proofs.Instruction.FamilyErrors
import Bytecode.Proofs.Instruction.Operands

/-!
# One root for operands and for deoptimizing

An instruction inherits the operand of a root that is looked up along the names of the families, and
it deoptimizes to one that is found along their opcodes. Both are the same instruction, and where a
set is resolved it is the one whose operand is carried. The look-up ends for every set: its bound on
the steps is never what ends it.
-/

namespace Bytecode

namespace InstructionSet

variable {set : InstructionSet} {start d e next : Definition} {path : List Definition}
  {visited : List UInt32} {result other : Option Definition}

/-! ### The look-up without a bound -/

/-- The way up the families from a definition, with the opcodes that have been met before, and what
it ends with: the definition without a family, or nothing where a definition is met again or a
family is missing. -/
inductive Climbs (set : InstructionSet) :
    List UInt32 → Definition → Option Definition → Prop where
  | again {visited : List UInt32} {current : Definition} (hagain : current.opcode ∈ visited) :
      Climbs set visited current none
  | root {visited : List UInt32} {current : Definition} (hnew : current.opcode ∉ visited)
      (hgeneric : current.family = none) : Climbs set visited current (some current)
  | absent {visited : List UInt32} {current : Definition} {family : String}
      (hnew : current.opcode ∉ visited) (hfamily : current.family = some family)
      (habsent : set.get? family = none) : Climbs set visited current none
  | onward {visited : List UInt32} {current next : Definition} {family : String}
      {result : Option Definition} (hnew : current.opcode ∉ visited)
      (hfamily : current.family = some family) (hfound : set.get? family = some next)
      (hrest : Climbs set (current.opcode :: visited) next result) :
      Climbs set visited current result

/-- At most one rule applies to a definition that is met. -/
theorem Climbs.unique (h : set.Climbs visited d result) (hother : set.Climbs visited d other) :
    result = other := by
  induction h with
  | again hagain => cases hother <;> first | rfl | contradiction
  | root hnew hgeneric => cases hother <;> simp_all
  | absent hnew hfamily habsent => cases hother <;> simp_all
  | onward hnew hfamily hfound _ ih =>
      cases hother with
      | again hagain => contradiction
      | root _ hgeneric => simp_all
      | absent _ hsame habsent => simp_all
      | onward _ hsame hfoundOther hrest =>
          obtain rfl := Option.some.inj (hfamily.symm.trans hsame)
          obtain rfl := Option.some.inj (hfound.symm.trans hfoundOther)
          exact ih hrest

/-- As many steps as there are definitions are enough, since those that are met differ. -/
theorem climbs_climb (hnames : (set.definitions.map Definition.name).Nodup) {steps : Nat}
    (h : set.Ascent start (e :: path)) (hdeclares : set.Declares e next)
    (hsteps : path.length + steps = set.definitions.length) :
    set.Climbs ((e :: path).map Definition.opcode) next
      (familyRoot?.climb set steps ((e :: path).map Definition.opcode) next) := by
  induction steps generalizing e path next with
  | zero =>
      have hlength := h.length_le
      simp only [List.length_cons] at hlength
      omega
  | succ steps ih =>
      rw [familyRoot?.climb]
      by_cases hagain : next.opcode ∈ (e :: path).map Definition.opcode
      · rw [if_pos hagain]
        exact .again hagain
      · rw [if_neg hagain]
        cases hfamily : next.family with
        | none => exact .root hagain hfamily
        | some family =>
            dsimp only
            cases hfound : set.get? family with
            | none => exact .absent hagain hfamily hfound
            | some other =>
                obtain ⟨hother, rfl⟩ := (get?_eq_some_iff hnames).1 hfound
                have hnew : next ∉ e :: path := mt (h.mem_opcodes_iff hdeclares.1).2 hagain
                have hlength : (e :: path).length + steps = set.definitions.length := by
                  rw [List.length_cons, ← hsteps, Nat.add_right_comm, Nat.add_assoc]
                exact .onward hagain hfamily hfound
                  (ih (h.cons hdeclares hnew) ⟨hother, hfamily⟩ hlength)

theorem familyRoot?_of_declares (hnames : (set.definitions.map Definition.name).Nodup)
    (hdeclares : set.Declares d next) :
    set.familyRoot? d = familyRoot?.climb set set.definitions.length [d.opcode] next := by
  rw [familyRoot?, hdeclares.2, Option.bind_eq_bind, Option.bind_some,
    (get?_eq_some_iff hnames).2 ⟨hdeclares.1, rfl⟩, Option.bind_eq_bind, Option.bind_some]

/-- The look-up of a root ends with what the way up the families ends with. -/
theorem climbs_iff (hnames : (set.definitions.map Definition.name).Nodup)
    (hd : d ∈ set.definitions) (hdeclares : set.Declares d next) :
    set.Climbs [d.opcode] next result ↔ set.familyRoot? d = result := by
  have hclimbs : set.Climbs [d.opcode] next (set.familyRoot? d) := by
    rw [familyRoot?_of_declares hnames hdeclares]
    exact climbs_climb hnames (Ascent.singleton hd) hdeclares (Nat.zero_add _)
  constructor
  · exact hclimbs.unique
  · rintro rfl
    exact hclimbs

theorem familyRoot?_eq_none_iff (hnames : (set.definitions.map Definition.name).Nodup)
    (hd : d ∈ set.definitions) :
    set.familyRoot? d = none ↔ d.family = none ∨ set.Rootless d := by
  rw [Option.eq_none_iff_forall_ne_some]
  simp only [ne_eq, familyRoot?_eq_some_iff hnames hd, specializes_iff, not_and, Rootless]
  constructor
  · intro h
    by_cases hfamily : d.family = none
    · exact .inl hfamily
    · exact .inr fun root => h root hfamily
  · rintro (hgeneric | hrootless) root hspecialized
    · exact absurd hgeneric hspecialized
    · exact hrootless root

end InstructionSet

/-! ### The operand of the deopt target -/

section Resolved

variable {set : InstructionSet} {registry : Registry} {defaults : DefaultOpargs}
  {model : InstructionModel} {map : DeoptMap} {d root : Definition}

namespace DeoptMap

/-- What is looked up by name is what an instruction deoptimizes to. -/
theorem Resolved.exists_familyRoot? (h : Resolved set map) (hd : d ∈ set.definitions)
    (hspecialized : d.family ≠ none) :
    ∃ root, set.familyRoot? d = some root ∧ set.IsRoot d root ∧ root.name = map.deopt d.name := by
  obtain ⟨root, hroot⟩ := h.roots d hd
  exact ⟨root, (InstructionSet.familyRoot?_eq_some_iff h.names hd).2 ⟨hspecialized, hroot⟩, hroot,
    (h.deopt_eq hd hroot).symm⟩

end DeoptMap

namespace InstructionModel

theorem exists_carried (hnames : (set.definitions.map Definition.name).Nodup)
    (hmodel : build set registry defaults = .ok model) (hd : d ∈ set.definitions) :
    ∃ c, model.get? d.name = some c ∧ c.operand = set.operandOf? defaults d := by
  have hrel : Option.Rel (Case.Carries (set.operandOf? defaults))
      (set.get? d.name) (model.get? d.name) :=
    rel_find? (List.rel_reverse (carries_build hnames hmodel)) fun _ _ hc => by simp [hc.name]
  rw [(InstructionSet.get?_eq_some_iff hnames).2 ⟨hd, rfl⟩] at hrel
  obtain ⟨c, hc, hcarries⟩ := eq_some_of_rel hrel
  exact ⟨c, hc, hcarries.operand⟩

/-- Where a set is resolved, an instruction that takes the operand of its root finds one there: with
an operand of a default type it would not fit its family. -/
theorem exists_inherited (hnames : (set.definitions.map Definition.name).Nodup)
    (hmodel : build set registry defaults = .ok model)
    (hresolve : DeoptMap.resolve set model = .ok map) (hd : d ∈ set.definitions)
    (hspecialized : d.family ≠ none) (hoperand : d.operand = none)
    (hflag : d.flags.hasOparg = true) :
    ∃ c target operand, model.get? d.name = some c ∧
      model.get? (map.deopt d.name) = some target ∧
      c.operand = some operand ∧ target.operand = some operand := by
  have hcases := resolves_build hmodel
  have hresolved := DeoptMap.resolved_of_resolve hnames hcases hresolve
  obtain ⟨steps, hstepping⟩ := DeoptMap.exists_stepping hnames hcases hresolve
  obtain ⟨root, hfound, hroot, htarget⟩ := hresolved.exists_familyRoot? hd hspecialized
  obtain ⟨c, hc, hcarried⟩ := exists_carried hnames hmodel hd
  obtain ⟨target, hget, hown⟩ := exists_carried hnames hmodel hroot.mem
  rw [InstructionSet.operandOf?_of_hasOparg hoperand hflag, hfound, Option.bind_some] at hcarried
  rw [InstructionSet.operandOf?_of_generic hroot.generic] at hown
  have htype : c.operandType? = target.operandType? := by
    have htypes := hstepping.operandType?_eq hnames hd hroot.reached
    rwa [hc, hget, Option.bind_some, Option.bind_some] at htypes
  rw [htarget] at hget
  cases hcase : target.operand with
  | some operand =>
      rw [← hown, hcase, Option.some_or] at hcarried
      exact ⟨c, target, operand, hc, hget, hcarried, hcase⟩
  | none =>
      rw [← hown, hcase, Option.none_or] at hcarried
      simp [Case.operandType?, hcarried, hcase] at htype

end InstructionModel

end Resolved

/-! ### Loaded sets -/

namespace InstructionSet

variable {table : Table} {source : PropertySource} {definitions : Definitions} {kind : SetKind}

/-- The two walks up the families agree. In a resolved set the root that is looked up for a
specialized instruction is the one that it deoptimizes to, and an instruction without an operand in
the table carries the operand of that one. In any loaded set the look-up ends, and without a root
only for an instruction without a family or for one whose families do not end. -/
theorem familyRoot?_eq_deopt (hload : table.load source = .ok definitions) (kind : SetKind) :
    (∀ registry defaults model map,
      InstructionModel.build (definitions.set kind) registry defaults = .ok model →
      DeoptMap.resolve (definitions.set kind) model = .ok map →
      ∀ d ∈ (definitions.set kind).definitions,
        (d.family = none → (definitions.set kind).familyRoot? d = none) ∧
        (d.family ≠ none → ∃ root, (definitions.set kind).familyRoot? d = some root ∧
          root.name = map.deopt d.name) ∧
        (d.family ≠ none → d.operand = none → d.flags.hasOparg = true →
          ∃ c target operand, model.get? d.name = some c ∧
            model.get? (map.deopt d.name) = some target ∧
            c.operand = some operand ∧ target.operand = some operand)) ∧
    ∀ d ∈ (definitions.set kind).definitions,
      (∀ first result, (definitions.set kind).Declares d first →
        ((definitions.set kind).Climbs [d.opcode] first result ↔
          (definitions.set kind).familyRoot? d = result)) ∧
      ((definitions.set kind).familyRoot? d = none ↔
        d.family = none ∨ (definitions.set kind).Rootless d) := by
  have hnames := Table.nodup_names_of_load hload kind
  constructor
  · intro registry defaults model map hmodel hresolve d hd
    have hresolved := DeoptMap.resolved_of_load hload hmodel hresolve
    refine ⟨fun hgeneric => (familyRoot?_eq_none_iff hnames hd).2 (.inl hgeneric), ?_, ?_⟩
    · intro hspecialized
      obtain ⟨root, hfound, -, htarget⟩ := hresolved.exists_familyRoot? hd hspecialized
      exact ⟨root, hfound, htarget⟩
    · exact InstructionModel.exists_inherited hnames hmodel hresolve hd
  · intro d hd
    exact ⟨fun first result => climbs_iff hnames hd, familyRoot?_eq_none_iff hnames hd⟩

/-- Real instructions whose families end, the one in the middle with another name for its operand,
and pseudo instructions whose families run in a circle. -/
def unpackings : Table where
  opargs := .ofList [("Count", .aliased {}), ("Raw", .aliased {})]
  instructions := .ofList [
    ("Unpack", {
      opcode := 9
      canonicalName := "UNPACK"
      operand := some { field := some "count", type := some "Count" } }),
    ("UnpackPair", {
      opcode := 4
      canonicalName := "UNPACK_PAIR"
      operand := some { field := some "two", type := some "Count" }
      family := some "Unpack" }),
    ("UnpackPairLocal", {
      opcode := 6
      canonicalName := "UNPACK_PAIR_LOCAL"
      family := some "UnpackPair" }),
    ("Back", { opcode := 256, canonicalName := "BACK", family := some "Forth" }),
    ("Enter", { opcode := 300, canonicalName := "ENTER", family := some "Forth" }),
    ("Forth", { opcode := 257, canonicalName := "FORTH", family := some "Back" })]

theorem familyRoot?_eq_deopt_unpackings :
    ∃ definitions registry model map,
      unpackings.load (fun _ => some { flags := { hasOparg := true } }) = .ok definitions ∧
      InstructionModel.build (definitions.set .real) registry {} = .ok model ∧
      DeoptMap.resolve (definitions.set .real) model = .ok map ∧
      (∃ d ∈ (definitions.set .real).definitions, ∃ root c, d.name = "UnpackPairLocal" ∧
        (definitions.set .real).familyRoot? d = some root ∧ root.name = "Unpack" ∧
        model.get? "UnpackPairLocal" = some c ∧ c.operand = some ⟨"count", "Count"⟩) ∧
      ∃ d ∈ (definitions.set .pseudo).definitions, ∃ first, d.name = "Enter" ∧
        (definitions.set .pseudo).Declares d first ∧
        (definitions.set .pseudo).Climbs [d.opcode] first none ∧
        (definitions.set .pseudo).Rootless d := by
  have hrun : (do
      let definitions ← unpackings.load fun _ => some { flags := { hasOparg := true } }
      let registry ← Registry.build unpackings.opargs
      let model ← InstructionModel.build (definitions.set .real) registry {}
      let map ← DeoptMap.resolve (definitions.set .real) model
      return (map.deopt "UnpackPairLocal", (model.get? "Unpack").bind Case.operand,
        ((definitions.set .real).get? "UnpackPairLocal").map fun d =>
          (d.family, d.operand, d.flags.hasOparg),
        ((definitions.set .pseudo).get? "Forth").isSome,
        ((definitions.set .pseudo).get? "Enter").map fun d =>
          (d.family, (definitions.set .pseudo).familyRoot? d)) : Except BuildError _) =
      .ok ("Unpack", some ⟨"count", "Count"⟩, some (some "UnpackPair", none, true), true,
        some (some "Forth", none)) := by cbv
  simp only [bind_eq_ok_iff, pure_eq_ok, Except.ok.injEq, Prod.mk.injEq] at hrun
  obtain ⟨definitions, hload, registry, -, model, hmodel, map, hresolve, hdeopt, hunpack, hlocal,
    hforth, henter⟩ := hrun
  refine ⟨definitions, registry, model, map, hload, hmodel, hresolve, ?_, ?_⟩
  · have hnames := Table.nodup_names_of_load hload .real
    obtain ⟨d, hfound, hfields⟩ := Option.map_eq_some_iff.1 hlocal
    simp only [Prod.mk.injEq] at hfields
    obtain ⟨hfamily, hoperand, hflag⟩ := hfields
    obtain ⟨hd, hname⟩ := (get?_eq_some_iff hnames).1 hfound
    have hspecialized : d.family ≠ none := by simp [hfamily]
    obtain ⟨-, hroot, hinherited⟩ :=
      (familyRoot?_eq_deopt hload .real).1 registry {} model map hmodel hresolve d hd
    obtain ⟨root, hlooked, htarget⟩ := hroot hspecialized
    obtain ⟨c, target, operand, hc, hget, hcarried, hown⟩ := hinherited hspecialized hoperand hflag
    rw [hname, hdeopt] at htarget hget
    rw [hget, Option.bind_some, hown] at hunpack
    rw [hname] at hc
    exact ⟨d, hd, root, c, hname, hlooked, htarget, hc, hcarried.trans hunpack⟩
  · have hnames := Table.nodup_names_of_load hload .pseudo
    obtain ⟨d, hfound, hfields⟩ := Option.map_eq_some_iff.1 henter
    obtain ⟨hfamily, hlooked⟩ := Prod.mk.inj hfields
    obtain ⟨hd, hname⟩ := (get?_eq_some_iff hnames).1 hfound
    obtain ⟨first, hfirst⟩ := Option.isSome_iff_exists.1 hforth
    obtain ⟨hmem, hforthName⟩ := (get?_eq_some_iff hnames).1 hfirst
    have hdeclares : (definitions.set .pseudo).Declares d first := ⟨hmem, hforthName ▸ hfamily⟩
    obtain ⟨hclimbs, hnone⟩ := (familyRoot?_eq_deopt hload .pseudo).2 d hd
    refine ⟨d, hd, first, hname, hdeclares, (hclimbs first none hdeclares).2 hlooked, ?_⟩
    exact (hnone.1 hlooked).resolve_left (by simp [hfamily])

end InstructionSet

end Bytecode

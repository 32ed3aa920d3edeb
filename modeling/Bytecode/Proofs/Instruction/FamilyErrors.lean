import Bytecode.Proofs.Instruction.Deoptimization
import Bytecode.Proofs.Instruction.Walks

/-!
# Families that cannot be resolved

A family has to be in the set and to carry the operand type of the instruction that declares it, and
following the families has to come to an end. The families are checked first, each by itself; only
where all of them fit are they followed. Of the definitions with an error the one with the lowest
opcode is reported, and a circle with the way that leads into it.
-/

namespace Bytecode

open Relation (ReflTransGen)

namespace InstructionSet

variable {set : InstructionSet} {start e next : Definition} {path : List Definition}

/-- The families declared from a definition end in none. -/
def Rootless (set : InstructionSet) (d : Definition) : Prop := ∀ root, ¬ set.IsRoot d root

/-- The way from `d` along the declared families, up to the first definition that occurs again. -/
structure Circles (set : InstructionSet) (d : Definition) (path : List Definition) : Prop where
  head : path.head? = some d
  declared : path.IsChain set.Declares
  nodup : (path.dropLast.map Definition.name).Nodup
  again : ∃ e ∈ path.dropLast, path.getLast? = some e
  length_le : path.length ≤ set.size + 1

namespace Ascent

theorem circles (hnames : (set.definitions.map Definition.name).Nodup)
    (h : set.Ascent start (e :: path)) (hdeclares : set.Declares e next)
    (hagain : next ∈ e :: path) : set.Circles start (next :: e :: path).reverse := by
  have hdropLast : (next :: e :: path).reverse.dropLast = (e :: path).reverse := by
    rw [List.dropLast_reverse, List.tail_cons]
  constructor
  · rw [List.head?_reverse, List.getLast?_cons_cons, h.start]
  · rw [List.isChain_reverse]
    exact List.isChain_cons_cons.2 ⟨hdeclares, h.declared⟩
  · rw [hdropLast, List.map_reverse, List.nodup_reverse]
    exact h.nodup.map_on fun a ha b hb => eq_of_name hnames (h.mem a ha) (h.mem b hb)
  · rw [hdropLast]
    exact ⟨next, List.mem_reverse.2 hagain, by rw [List.getLast?_reverse, List.head?_cons]⟩
  · rw [List.length_reverse, List.length_cons]
    exact Nat.succ_le_succ h.length_le

theorem rootless (hnames : (set.definitions.map Definition.name).Nodup)
    (h : set.Ascent start (e :: path)) (hdeclares : set.Declares e next)
    (hagain : next ∈ e :: path) : set.Rootless start := by
  intro root hroot
  have hstart : start ∈ e :: path := List.mem_of_getLast? h.start
  have hreached : ReflTransGen set.Declares start next := (h.reaches hstart).tail hdeclares
  exact not_isRoot_of_cycle hnames (h.cycle hdeclares hagain) (hroot.of_reached hnames hreached)

end Ascent

end InstructionSet

namespace DeoptMap

variable {set : InstructionSet} {model : InstructionModel} {registry : Registry}
  {start d e : Definition} {path : List Definition} {steps : List Step} {error : BuildError}
  {family : String}

/-! ### Families that do not fit -/

inductive Misfit (set : InstructionSet) (model : InstructionModel) (d : Definition) :
    BuildError → Prop where
  | absent {family : String} (hdeclared : d.family = some family)
      (habsent : ∀ e ∈ set.definitions, e.name ≠ family) :
      Misfit set model d (.invalidDefinition d.name (.familyNotInSet family set.kind))
  | differs {e : Definition} (hdeclares : set.Declares d e)
      (hdiffers : (model.get? d.name).bind Case.operandType? ≠
        (model.get? e.name).bind Case.operandType?) :
      Misfit set model d (.opargShapeMismatch d.name e.name
        ((model.get? d.name).bind Case.operandType?) ((model.get? e.name).bind Case.operandType?))

theorem stepOf_of_absent
    (hcases : List.Forall₂ (Case.Resolves registry) set.definitions model.cases)
    (hdeclared : d.family = some family) (habsent : set.get? family = none) :
    stepOf set model d = .error (.invalidDefinition d.name (.familyNotInSet family set.kind)) := by
  have hrel := InstructionModel.rel_get? hcases family
  rw [habsent] at hrel
  rw [stepOf, hdeclared]
  dsimp only
  rw [eq_none_of_rel hrel]

theorem stepOf_of_declares (hnames : (set.definitions.map Definition.name).Nodup)
    (hcases : List.Forall₂ (Case.Resolves registry) set.definitions model.cases)
    (hd : d ∈ set.definitions) (h : set.Declares d e) :
    stepOf set model d =
      if (model.get? d.name).bind Case.operandType? = (model.get? e.name).bind Case.operandType?
      then .ok (some (d.opcode, e.opcode))
      else .error (.opargShapeMismatch d.name e.name ((model.get? d.name).bind Case.operandType?)
        ((model.get? e.name).bind Case.operandType?)) := by
  obtain ⟨c, hc, -⟩ := InstructionModel.case_of_mem hnames hcases hd
  have hrel := InstructionModel.rel_get? hcases e.name
  rw [(InstructionSet.get?_eq_some_iff hnames).2 ⟨h.1, rfl⟩] at hrel
  obtain ⟨target, htarget, hresolves⟩ := eq_some_of_rel hrel
  rw [stepOf, h.2]
  dsimp only
  rw [htarget, hc]
  dsimp only [Option.bind_some]
  by_cases hsame : c.operandType? = target.operandType?
  · rw [if_pos hsame, if_pos hsame, hresolves.opcode]
  · rw [if_neg hsame, if_neg hsame]

/-- A family is refused exactly where there is something wrong with it. -/
theorem stepOf_eq_error_iff (hnames : (set.definitions.map Definition.name).Nodup)
    (hcases : List.Forall₂ (Case.Resolves registry) set.definitions model.cases)
    (hd : d ∈ set.definitions) :
    stepOf set model d = .error error ↔ Misfit set model d error := by
  constructor
  · intro h
    cases hdeclared : d.family with
    | none =>
        rw [stepOf, hdeclared] at h
        cases h
    | some family =>
        cases hfound : set.get? family with
        | none =>
            rw [stepOf_of_absent hcases hdeclared hfound, Except.error.injEq] at h
            rw [← h]
            refine .absent hdeclared fun e he hname => ?_
            rw [(InstructionSet.get?_eq_some_iff hnames).2 ⟨he, hname⟩] at hfound
            cases hfound
        | some e =>
            obtain ⟨he, rfl⟩ := (InstructionSet.get?_eq_some_iff hnames).1 hfound
            have hdeclares : set.Declares d e := ⟨he, hdeclared⟩
            rw [stepOf_of_declares hnames hcases hd hdeclares] at h
            split at h
            · cases h
            · next hdiffers =>
                rw [← Except.error.inj h]
                exact .differs hdeclares hdiffers
  · intro h
    cases h with
    | absent hdeclared habsent =>
        refine stepOf_of_absent hcases hdeclared (Option.eq_none_iff_forall_not_mem.2 ?_)
        intro e hfound
        obtain ⟨he, hname⟩ := (InstructionSet.get?_eq_some_iff hnames).1 hfound
        exact habsent e he hname
    | differs hdeclares hdiffers =>
        rw [stepOf_of_declares hnames hcases hd hdeclares, if_neg hdiffers]

/-! ### Families without an end -/

/-- The way that is refused is the way up the families, up to the first opcode that occurs again. -/
theorem follow_eq_error (h : Stepping set model steps) {fuel : Nat} {chain : List UInt32}
    (hascent : set.Ascent start (d :: path))
    (herror : follow steps fuel ((d :: path).map Definition.opcode) d.opcode = .error chain) :
    ∃ e passed next, set.Ascent start (e :: passed) ∧ set.Declares e next ∧ next ∈ e :: passed ∧
      chain = (next :: e :: passed).map Definition.opcode := by
  induction fuel generalizing d path with
  | zero => cases herror
  | succ fuel ih =>
      have hd : d ∈ set.definitions := hascent.mem d List.mem_cons_self
      rw [follow] at herror
      by_cases hfamily : d.family = none
      · rw [h.generic d hd hfamily] at herror
        cases herror
      · obtain ⟨next, hfits, hnext⟩ := h.declared d hd hfamily
        rw [hnext] at herror
        simp only [hascent.mem_opcodes_iff hfits.declares.1] at herror
        by_cases hagain : next ∈ d :: path
        · rw [if_pos hagain, Except.error.injEq] at herror
          exact ⟨d, path, next, hascent, hfits.declares, hagain, herror.symm⟩
        · rw [if_neg hagain] at herror
          exact ih (hascent.cons hfits.declares hagain) herror

theorem map_nameOf (hpath : ∀ e ∈ path, e ∈ set.definitions) :
    (path.map Definition.opcode).map (entryOf.nameOf set) = path.map Definition.name := by
  rw [List.map_map]
  refine List.map_congr_left fun e he => ?_
  rw [Function.comp_apply, entryOf.nameOf, InstructionSet.ofOpcode?_of_mem (hpath e he)]
  rfl

theorem entryOf_eq_error (hnames : (set.definitions.map Definition.name).Nodup)
    (h : Stepping set model steps) (hd : d ∈ set.definitions)
    (herror : entryOf set steps d = .error error) :
    set.Rootless d ∧ ∃ path, set.Circles d path ∧
      error = .cyclicDeoptChain d.name (path.map Definition.name) := by
  rw [entryOf] at herror
  cases hfollow : follow steps steps.length [d.opcode] d.opcode with
  | ok last =>
      rw [hfollow] at herror
      cases herror
  | error chain =>
      obtain ⟨e, passed, next, hascent, hdeclares, hagain, rfl⟩ :=
        follow_eq_error h (InstructionSet.Ascent.singleton hd) hfollow
      refine ⟨hascent.rootless hnames hdeclares hagain, _,
        hascent.circles hnames hdeclares hagain, ?_⟩
      have hmem : ∀ x ∈ (next :: e :: passed).reverse, x ∈ set.definitions := fun x hx =>
        List.forall_mem_cons.2 ⟨hdeclares.1, hascent.mem⟩ x (List.mem_reverse.1 hx)
      rw [hfollow] at herror
      rw [← Except.error.inj herror, ← List.map_reverse, map_nameOf hmem]

theorem entryOf_eq_error_iff (hnames : (set.definitions.map Definition.name).Nodup)
    (h : Stepping set model steps) (hd : d ∈ set.definitions) :
    (∃ error, entryOf set steps d = .error error) ↔ set.Rootless d := by
  constructor
  · rintro ⟨error, herror⟩
    exact (entryOf_eq_error hnames h hd herror).1
  · intro hrootless
    cases hentry : entryOf set steps d with
    | error error => exact ⟨error, rfl⟩
    | ok entry =>
        obtain ⟨root, hroot, -⟩ := entryOf_eq_ok h hd hentry
        exact absurd hroot (hrootless root)

/-! ### The order of the errors -/

theorem resolve_of_misfit (hnames : (set.definitions.map Definition.name).Nodup)
    (hcases : List.Forall₂ (Case.Resolves registry) set.definitions model.cases)
    (hmisfit : ∃ d ∈ set.definitions, ∃ error, Misfit set model d error) :
    ∃ d error, set.IsFirst (fun d => ∃ error, Misfit set model d error) d ∧
      Misfit set model d error ∧ resolve set model = .error error := by
  cases hsteps : set.definitions.mapM (stepOf set model) with
  | error error =>
      have hiff : ∀ d ∈ set.definitions, ∀ error,
          stepOf set model d = .error error ↔ Misfit set model d error :=
        fun d hd error => stepOf_eq_error_iff hnames hcases hd
      obtain ⟨d, hfirst, herror⟩ := (InstructionSet.mapM_eq_error_iff hiff).1 hsteps
      refine ⟨d, error, hfirst, herror, ?_⟩
      rw [resolve, hsteps, error_bind]
  | ok steps =>
      obtain ⟨d, hd, error, herror⟩ := hmisfit
      obtain ⟨step, -, hok⟩ := exists_of_forall₂ (mapM_eq_ok_iff.1 hsteps).flip hd
      rw [(stepOf_eq_error_iff hnames hcases hd).2 herror] at hok
      cases hok

/-- Where all families fit, they are followed. -/
theorem resolve_of_fitting (hnames : (set.definitions.map Definition.name).Nodup)
    (hcases : List.Forall₂ (Case.Resolves registry) set.definitions model.cases)
    (hfitting : ∀ d ∈ set.definitions, ∀ error, ¬ Misfit set model d error) :
    ∃ steps, Stepping set model steps ∧ resolve set model = (do
      let entries ← set.definitions.mapM (entryOf set steps)
      return ofEntries (entries.filterMap id)) := by
  cases hsteps : set.definitions.mapM (stepOf set model) with
  | error error =>
      obtain ⟨d, hd, herror⟩ := exists_of_mapM_eq_error hsteps
      exact absurd ((stepOf_eq_error_iff hnames hcases hd).1 herror) (hfitting d hd error)
  | ok steps =>
      refine ⟨_, stepping_of_mapM hnames hcases hsteps, ?_⟩
      rw [resolve, hsteps, ok_bind]

variable {table : Table} {source : PropertySource} {definitions : Definitions} {kind : SetKind}
  {defaults : DefaultOpargs}

/-- Resolving reports the lowest opcode whose family is not in the set or carries another operand
type; where all families fit, the lowest one without a root, with the way into the circle; and it
succeeds where there is neither. -/
theorem resolve_reports (hload : table.load source = .ok definitions)
    (hmodel : InstructionModel.build (definitions.set kind) registry defaults = .ok model) :
    ((∃ d ∈ (definitions.set kind).definitions, ∃ error,
        Misfit (definitions.set kind) model d error) →
      ∃ d error, (definitions.set kind).IsFirst
          (fun d => ∃ error, Misfit (definitions.set kind) model d error) d ∧
        Misfit (definitions.set kind) model d error ∧
        resolve (definitions.set kind) model = .error error) ∧
    ((∀ d ∈ (definitions.set kind).definitions, ∀ error,
        ¬ Misfit (definitions.set kind) model d error) →
      ((∃ d ∈ (definitions.set kind).definitions, (definitions.set kind).Rootless d) →
        ∃ d path, (definitions.set kind).IsFirst (definitions.set kind).Rootless d ∧
          (definitions.set kind).Circles d path ∧
          resolve (definitions.set kind) model =
            .error (.cyclicDeoptChain d.name (path.map Definition.name))) ∧
      ((∀ d ∈ (definitions.set kind).definitions, ¬ (definitions.set kind).Rootless d) →
        ∃ map, resolve (definitions.set kind) model = .ok map)) := by
  have hnames := Table.nodup_names_of_load hload kind
  have hcases := InstructionModel.resolves_build hmodel
  refine ⟨resolve_of_misfit hnames hcases, fun hfitting => ?_⟩
  obtain ⟨steps, hstepping, hresolve⟩ := resolve_of_fitting hnames hcases hfitting
  have hrootless : ∀ d ∈ (definitions.set kind).definitions,
      (∃ error, entryOf (definitions.set kind) steps d = .error error) ↔
        (definitions.set kind).Rootless d := fun d => entryOf_eq_error_iff hnames hstepping
  rw [hresolve]
  cases hentries : (definitions.set kind).definitions.mapM
      (entryOf (definitions.set kind) steps) with
  | error error =>
      obtain ⟨d, hfirst, herror⟩ := InstructionSet.isFirst_of_mapM_eq_error hentries
      obtain ⟨-, path, hcircles, rfl⟩ := entryOf_eq_error hnames hstepping hfirst.mem herror
      refine ⟨fun _ => ⟨d, path, hfirst.congr hrootless, hcircles, rfl⟩, fun hroots => ?_⟩
      exact absurd ((hrootless d hfirst.mem).1 hfirst.holds) (hroots d hfirst.mem)
  | ok entries =>
      refine ⟨fun ⟨d, hd, hnone⟩ => ?_, fun _ => ⟨_, rfl⟩⟩
      obtain ⟨entry, -, hok⟩ := exists_of_forall₂ (mapM_eq_ok_iff.1 hentries).flip hd
      obtain ⟨error, herror⟩ := (hrootless d hd).2 hnone
      rw [herror] at hok
      cases hok

def circles : Table where
  instructions := .ofList [
    ("Back", { opcode := 9, canonicalName := "BACK", family := some "Forth" }),
    ("Enter", { opcode := 2, canonicalName := "ENTER", family := some "Forth" }),
    ("Forth", { opcode := 5, canonicalName := "FORTH", family := some "Back" })]

theorem resolve_reports_circles :
    ∃ definitions model d path, circles.load (fun _ => some {}) = .ok definitions ∧
      InstructionModel.build (definitions.set .real) {} {} = .ok model ∧
      (definitions.set .real).IsFirst (definitions.set .real).Rootless d ∧ d.name = "Enter" ∧
      (definitions.set .real).Circles d path ∧
      path.map Definition.name = ["Enter", "Forth", "Back", "Forth"] := by
  have hrun : (do
      let definitions ← circles.load fun _ => some {}
      let model ← InstructionModel.build (definitions.set .real) {} {}
      return resolve (definitions.set .real) model : Except BuildError _) =
      .ok (.error (.cyclicDeoptChain "Enter" ["Enter", "Forth", "Back", "Forth"])) := by cbv
  simp only [bind_eq_ok_iff, pure_eq_ok, Except.ok.injEq] at hrun
  obtain ⟨definitions, hload, model, hmodel, hresolve⟩ := hrun
  obtain ⟨hmisfit, hfitting⟩ := resolve_reports hload hmodel
  rw [hresolve] at hmisfit hfitting
  -- A circle is neither the error of a misfit nor a success, so that only the circle is left.
  have hfits : ∀ d ∈ (definitions.set .real).definitions, ∀ error,
      ¬ Misfit (definitions.set .real) model d error := by
    intro d hd error herror
    obtain ⟨_, _, -, h, heq⟩ := hmisfit ⟨d, hd, error, herror⟩
    rw [← Except.error.inj heq] at h
    cases h
  have hrootless : ∃ d ∈ (definitions.set .real).definitions,
      (definitions.set .real).Rootless d := by
    refine Classical.byContradiction fun hnone => ?_
    push Not at hnone
    obtain ⟨map, hmap⟩ := (hfitting hfits).2 hnone
    cases hmap
  obtain ⟨d, path, hfirst, hcircles, heq⟩ := (hfitting hfits).1 hrootless
  obtain ⟨hname, hpath⟩ := BuildError.cyclicDeoptChain.inj (Except.error.inj heq)
  exact ⟨definitions, model, d, path, hload, hmodel, hfirst, hname.symm, hcircles, hpath.symm⟩

end DeoptMap

end Bytecode

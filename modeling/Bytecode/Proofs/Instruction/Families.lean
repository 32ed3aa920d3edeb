import Bytecode.Proofs.Instruction.Cases
import Mathlib.Data.List.Perm.Subperm
import Mathlib.Logic.Relation

/-!
# Families and their roots

Following the families that the definitions of a set declare ends, if it ends, in exactly one
definition without a family. The deopt targets are resolved over opcodes; they are these ends.
-/

namespace Bytecode

open Relation (ReflTransGen)

namespace InstructionSet

variable {set : InstructionSet} {d e root other : Definition} {name : String}

/-- A definition names another one of the set as its family. -/
def Declares (set : InstructionSet) (d e : Definition) : Prop :=
  e ∈ set.definitions ∧ d.family = some e.name

/-- The families declared from `d` on end in `root`, which declares none. -/
structure IsRoot (set : InstructionSet) (d root : Definition) : Prop where
  mem : root ∈ set.definitions
  reached : ReflTransGen set.Declares d root
  generic : root.family = none

theorem eq_of_name (hnames : (set.definitions.map Definition.name).Nodup)
    (hd : d ∈ set.definitions) (he : e ∈ set.definitions) (h : d.name = e.name) : d = e :=
  List.inj_on_of_nodup_map hnames hd he h

theorem nodup_opcodes (set : InstructionSet) : (set.definitions.map Definition.opcode).Nodup :=
  List.pairwise_map.2 (set.increasing.imp fun hlt heq => by simp [heq] at hlt)

theorem eq_of_opcode (hd : d ∈ set.definitions) (he : e ∈ set.definitions)
    (h : d.opcode = e.opcode) : d = e :=
  List.inj_on_of_nodup_map set.nodup_opcodes hd he h

theorem get?_eq_some_iff (hnames : (set.definitions.map Definition.name).Nodup) :
    set.get? name = some d ↔ d ∈ set.definitions ∧ d.name = name :=
  find?_reverse_key_eq_some_iff hnames

theorem ofOpcode?_eq_some_iff {opcode : UInt32} :
    set.ofOpcode? opcode = some d ↔ d ∈ set.definitions ∧ d.opcode = opcode :=
  find?_key_eq_some_iff set.nodup_opcodes

theorem ofOpcode?_of_mem (hd : d ∈ set.definitions) : set.ofOpcode? d.opcode = some d :=
  ofOpcode?_eq_some_iff.2 ⟨hd, rfl⟩

/-! ### Roots -/

theorem Declares.right_unique (hnames : (set.definitions.map Definition.name).Nodup) :
    Relator.RightUnique set.Declares := by
  rintro d e f ⟨he, hde⟩ ⟨hf, hdf⟩
  have hname : e.name = f.name := Option.some.inj (hde.symm.trans hdf)
  exact eq_of_name hnames he hf hname

theorem eq_of_reached_of_generic (h : ReflTransGen set.Declares d e) (hd : d.family = none) :
    e = d := by
  rcases h.cases_head with heq | ⟨f, ⟨-, hf⟩, -⟩
  · exact heq.symm
  · rw [hd] at hf
    contradiction

theorem IsRoot.unique (hnames : (set.definitions.map Definition.name).Nodup)
    (h : set.IsRoot d root) (hother : set.IsRoot d other) : other = root := by
  rcases ReflTransGen.total_of_right_unique (Declares.right_unique hnames) h.reached
    hother.reached with hfrom | hto
  · exact eq_of_reached_of_generic hfrom h.generic
  · exact (eq_of_reached_of_generic hto hother.generic).symm

theorem mem_of_reached (hd : d ∈ set.definitions) (h : ReflTransGen set.Declares d e) :
    e ∈ set.definitions := by
  cases h with
  | refl => exact hd
  | tail _ hdeclares => exact hdeclares.1

theorem isRoot_self (hd : d ∈ set.definitions) (h : d.family = none) : set.IsRoot d d :=
  ⟨hd, .refl, h⟩

theorem IsRoot.head (hde : set.Declares d e) (h : set.IsRoot e root) : set.IsRoot d root :=
  ⟨h.mem, .head hde h.reached, h.generic⟩

theorem IsRoot.eq_self_iff (h : set.IsRoot d root) : root = d ↔ d.family = none := by
  constructor
  · intro heq
    exact heq ▸ h.generic
  · exact eq_of_reached_of_generic h.reached

end InstructionSet

namespace DeoptMap

variable {set : InstructionSet} {model : InstructionModel} {registry : Registry} {d e : Definition}
  {step : Option Step} {steps : List Step}

/-! ### Steps between opcodes -/

structure Fits (set : InstructionSet) (model : InstructionModel) (d e : Definition) : Prop where
  declares : set.Declares d e
  operandType : (model.get? d.name).bind Case.operandType? =
    (model.get? e.name).bind Case.operandType?

theorem stepOf_eq_ok (hnames : (set.definitions.map Definition.name).Nodup)
    (hcases : List.Forall₂ (Case.Resolves registry) set.definitions model.cases)
    (hd : d ∈ set.definitions) (h : stepOf set model d = .ok step) :
    (d.family = none ∧ step = none) ∨
      ∃ e, Fits set model d e ∧ step = some (d.opcode, e.opcode) := by
  unfold stepOf at h
  cases hfamily : d.family with
  | none =>
      simp only [hfamily, Except.ok.injEq] at h
      exact .inl ⟨rfl, h.symm⟩
  | some family =>
      have hown := InstructionModel.rel_get? hcases d.name
      rw [(InstructionSet.get?_eq_some_iff hnames).2 ⟨hd, rfl⟩] at hown
      obtain ⟨c, hc, -⟩ := eq_some_of_rel hown
      have htarget := InstructionModel.rel_get? hcases family
      cases hfound : set.get? family with
      | none =>
          rw [hfound] at htarget
          simp [hfamily, eq_none_of_rel htarget] at h
      | some e =>
          rw [hfound] at htarget
          obtain ⟨target, htarget, hresolves⟩ := eq_some_of_rel htarget
          obtain ⟨he, rfl⟩ := (InstructionSet.get?_eq_some_iff hnames).1 hfound
          by_cases hsame : c.operandType? = target.operandType?
          · have hstep : step = some (d.opcode, e.opcode) := by
              simpa [hfamily, htarget, hc, hsame, hresolves.opcode, eq_comm] using h
            refine .inr ⟨e, ⟨⟨he, hfamily⟩, ?_⟩, hstep⟩
            rw [hc, htarget]
            exact hsame
          · simp [hfamily, htarget, hc, hsame] at h

structure Stepping (set : InstructionSet) (model : InstructionModel) (steps : List Step) :
    Prop where
  generic : ∀ d ∈ set.definitions, d.family = none → next? steps d.opcode = none
  declared : ∀ d ∈ set.definitions, d.family ≠ none →
    ∃ e, Fits set model d e ∧ next? steps d.opcode = some e.opcode

theorem next?_of_mem {f : Definition → Except BuildError (Option Step)}
    (hstep : ∀ d step, f d = .ok (some step) → step.1 = d.opcode) {ds : List Definition}
    {found : List (Option Step)} (h : List.Forall₂ (fun d step => f d = .ok step) ds found)
    (hincreasing : ds.Pairwise fun a b => a.opcode < b.opcode) (hd : d ∈ ds) :
    ∃ step, f d = .ok step ∧ next? (found.filterMap id) d.opcode = step.map Prod.snd := by
  induction h with
  | nil => cases hd
  | @cons first step ds found hfirst hrest ih =>
      obtain ⟨hlt, hincreasing⟩ := List.pairwise_cons.1 hincreasing
      have hlater : ∀ s ∈ found.filterMap id, first.opcode < s.1 := by
        intro s hs
        obtain ⟨step, hmem, rfl⟩ := List.mem_filterMap.1 hs
        obtain ⟨e, he, hfe⟩ := exists_of_forall₂ hrest hmem
        rw [hstep e s hfe]
        exact hlt e he
      rcases List.mem_cons.1 hd with rfl | hd
      · refine ⟨step, hfirst, ?_⟩
        cases step with
        | none =>
            have hnone : (found.filterMap id).find? (fun s => s.1 = d.opcode) = none := by
              refine List.find?_eq_none.2 fun s hs heq => ?_
              have hlt := hlater s hs
              simp [of_decide_eq_true heq] at hlt
            exact congrArg (Option.map Prod.snd) hnone
        | some s => simp [next?, hstep d s hfirst]
      · obtain ⟨found', hok, hnext⟩ := ih hincreasing hd
        refine ⟨found', hok, ?_⟩
        rw [← hnext]
        cases step with
        | none => rfl
        | some s =>
            have hne : s.1 ≠ d.opcode := by
              intro heq
              have hlt := hlt d hd
              rw [← heq, hstep first s hfirst] at hlt
              simp at hlt
            simp [next?, hne]

theorem stepping_of_mapM (hnames : (set.definitions.map Definition.name).Nodup)
    (hcases : List.Forall₂ (Case.Resolves registry) set.definitions model.cases)
    {found : List (Option Step)} (h : set.definitions.mapM (stepOf set model) = .ok found) :
    Stepping set model (found.filterMap id) := by
  have hopcode : ∀ d step, stepOf set model d = .ok (some step) → step.1 = d.opcode := by
    intro d step hok
    unfold stepOf at hok
    split at hok
    · cases hok
    · split at hok
      · cases hok
      · split at hok
        · cases hok
        · cases hok
          rfl
  have hnext := fun d hd => next?_of_mem (d := d) hopcode (mapM_eq_ok_iff.1 h) set.increasing hd
  constructor
  · intro d hd hfamily
    obtain ⟨step, hok, hstep⟩ := hnext d hd
    obtain ⟨-, rfl⟩ | ⟨e, hfits, -⟩ := stepOf_eq_ok hnames hcases hd hok
    · exact hstep
    · have hsome := hfits.declares.2
      simp [hfamily] at hsome
  · intro d hd hfamily
    obtain ⟨step, hok, hstep⟩ := hnext d hd
    obtain ⟨hnone, -⟩ | ⟨e, hfits, rfl⟩ := stepOf_eq_ok hnames hcases hd hok
    · exact absurd hnone hfamily
    · exact ⟨e, hfits, hstep⟩

/-- An instruction carries the operand type of all those that its families lead to. -/
theorem Stepping.operandType?_eq (h : Stepping set model steps)
    (hnames : (set.definitions.map Definition.name).Nodup) (hd : d ∈ set.definitions)
    (hreach : ReflTransGen set.Declares d e) :
    (model.get? d.name).bind Case.operandType? = (model.get? e.name).bind Case.operandType? := by
  induction hreach with
  | refl => rfl
  | @tail e f hreach hdeclares ih =>
      have he : e ∈ set.definitions := InstructionSet.mem_of_reached hd hreach
      have hfamily : e.family ≠ none := by simp [hdeclares.2]
      obtain ⟨other, hfits, -⟩ := h.declared e he hfamily
      obtain rfl : f = other :=
        InstructionSet.Declares.right_unique hnames hdeclares hfits.declares
      rw [ih, hfits.operandType]

/-! ### The end of the steps -/

theorem mem_of_next?_eq_some {opcode next : UInt32} (h : next? steps opcode = some next) :
    opcode ∈ steps.map Prod.fst := by
  obtain ⟨step, hfound, -⟩ := Option.map_eq_some_iff.1 h
  have hopcode : step.1 = opcode := by simpa using List.find?_some hfound
  exact List.mem_map.2 ⟨step, List.mem_of_find?_eq_some hfound, hopcode⟩

/-- The opcodes visited before the current one all have a step, so there are no more of them than
steps. Where the fuel is used up there are as many, and the current opcode has none. -/
theorem follow_eq_ok (h : Stepping set model steps) {fuel : Nat} {visited : List UInt32}
    {last : UInt32} (hd : d ∈ set.definitions) (hnodup : (d.opcode :: visited).Nodup)
    (hvisited : ∀ opcode ∈ visited, opcode ∈ steps.map Prod.fst)
    (hfuel : visited.length + fuel = steps.length)
    (hok : follow steps fuel (d.opcode :: visited) d.opcode = .ok last) :
    ∃ root, set.IsRoot d root ∧ root.opcode = last := by
  induction fuel generalizing d visited with
  | zero =>
      obtain rfl : d.opcode = last := Except.ok.inj hok
      suffices hfamily : d.family = none from
        ⟨d, InstructionSet.isRoot_self hd hfamily, rfl⟩
      refine Classical.byContradiction fun hfamily => ?_
      obtain ⟨e, -, hnext⟩ := h.declared d hd hfamily
      have hsubset : ∀ opcode ∈ d.opcode :: visited, opcode ∈ steps.map Prod.fst := by
        intro opcode hmem
        rcases List.mem_cons.1 hmem with rfl | hmem
        · exact mem_of_next?_eq_some hnext
        · exact hvisited opcode hmem
      have hlength := (List.subperm_of_subset hnodup hsubset).length_le
      simp only [List.length_cons, List.length_map] at hlength
      omega
  | succ fuel ih =>
      unfold follow at hok
      by_cases hfamily : d.family = none
      · rw [h.generic d hd hfamily] at hok
        exact ⟨d, InstructionSet.isRoot_self hd hfamily, Except.ok.inj hok⟩
      · obtain ⟨e, hfits, hnext⟩ := h.declared d hd hfamily
        have he : e ∈ set.definitions := hfits.declares.1
        simp only [hnext] at hok
        by_cases hmem : e.opcode ∈ d.opcode :: visited
        · simp [hmem] at hok
        · rw [if_neg hmem] at hok
          have hsubset : ∀ opcode ∈ d.opcode :: visited, opcode ∈ steps.map Prod.fst := by
            intro opcode hopcode
            rcases List.mem_cons.1 hopcode with rfl | hopcode
            · exact mem_of_next?_eq_some hnext
            · exact hvisited opcode hopcode
          have hfuel' : (d.opcode :: visited).length + fuel = steps.length := by
            simp only [List.length_cons]
            omega
          obtain ⟨root, hroot, hlast⟩ :=
            ih he (List.nodup_cons.2 ⟨hmem, hnodup⟩) hsubset hfuel' hok
          exact ⟨root, hroot.head hfits.declares, hlast⟩

theorem entryOf_eq_ok (h : Stepping set model steps) (hd : d ∈ set.definitions)
    {entry : Option (String × String)} (hok : entryOf set steps d = .ok entry) :
    ∃ root, set.IsRoot d root ∧
      entry = if d.family = none then none else some (d.name, root.name) := by
  unfold entryOf at hok
  cases hfollow : follow steps steps.length [d.opcode] d.opcode with
  | error chain => simp [hfollow] at hok
  | ok last =>
      obtain ⟨root, hroot, rfl⟩ :=
        follow_eq_ok h hd (List.nodup_singleton _) (by simp) (by simp) hfollow
      have hsame : root.opcode = d.opcode ↔ d.family = none := by
        rw [← hroot.eq_self_iff]
        exact ⟨InstructionSet.eq_of_opcode hroot.mem hd, congrArg Definition.opcode⟩
      simp only [hfollow, hsame, entryOf.nameOf, InstructionSet.ofOpcode?_of_mem hroot.mem,
        Option.map_some, Option.getD_some, Except.ok.injEq] at hok
      exact ⟨root, hroot, hok.symm⟩

end DeoptMap

end Bytecode

import Bytecode.Proofs.Instruction.Families
import Mathlib.Data.List.Chain

/-!
# Walks over a set

A set is walked along its definitions, where the lowest opcode with an error decides, and up the
families that are declared from a definition. No definition is passed twice on the way up, so there
are no more steps than definitions, and one that is met again has no root.
-/

namespace Bytecode.InstructionSet

open Relation (ReflTransGen TransGen)

variable {set : InstructionSet} {start d e next root : Definition} {path : List Definition}

/-! ### Along the opcodes -/

/-- The definition with the lowest opcode of those with a property. -/
structure IsFirst (set : InstructionSet) (p : Definition → Prop) (d : Definition) : Prop where
  mem : d ∈ set.definitions
  holds : p d
  lowest : ∀ e ∈ set.definitions, p e → d.opcode ≤ e.opcode

theorem IsFirst.unique {p : Definition → Prop} (h : set.IsFirst p d) (hother : set.IsFirst p e) :
    d = e :=
  eq_of_opcode h.mem hother.mem
    (UInt32.le_antisymm (h.lowest e hother.mem hother.holds) (hother.lowest d h.mem h.holds))

theorem isFirst_of_mapM_eq_error {β : Type} {f : Definition → Except BuildError β}
    {error : BuildError} (h : set.definitions.mapM f = .error error) :
    ∃ d, set.IsFirst (fun d => ∃ error, f d = .error error) d ∧ f d = .error error := by
  obtain ⟨front, d, back, hsplit, hfront, herror⟩ := split_of_mapM_eq_error h
  refine ⟨d, ⟨by simp [hsplit], ⟨error, herror⟩, fun e he ⟨other, hother⟩ => ?_⟩, herror⟩
  have hincreasing := set.increasing
  rw [hsplit] at he hincreasing
  obtain ⟨-, hback, -⟩ := List.pairwise_append.1 hincreasing
  rcases List.mem_append.1 he with he | he
  · obtain ⟨b, hb⟩ := hfront e he
    rw [hother] at hb
    cases hb
  · rcases List.mem_cons.1 he with rfl | he
    · exact UInt32.le_refl _
    · exact UInt32.le_of_lt ((List.pairwise_cons.1 hback).1 e he)

theorem IsFirst.congr {p q : Definition → Prop} (h : set.IsFirst p d)
    (hpq : ∀ e ∈ set.definitions, p e ↔ q e) : set.IsFirst q d :=
  ⟨h.mem, (hpq d h.mem).1 h.holds, fun e he hq => h.lowest e he ((hpq e he).2 hq)⟩

/-- A map over a set ends in the error of the lowest opcode that has one. -/
theorem mapM_eq_error_iff {β : Type} {f : Definition → Except BuildError β}
    {Fails : Definition → BuildError → Prop} {error : BuildError}
    (hfails : ∀ d ∈ set.definitions, ∀ error, f d = .error error ↔ Fails d error) :
    set.definitions.mapM f = .error error ↔
      ∃ d, set.IsFirst (fun d => ∃ error, Fails d error) d ∧ Fails d error := by
  have hiff : ∀ d ∈ set.definitions, (∃ error, f d = .error error) ↔ ∃ error, Fails d error :=
    fun d hd => exists_congr (hfails d hd)
  constructor
  · intro h
    obtain ⟨d, hd, herror⟩ := isFirst_of_mapM_eq_error h
    exact ⟨d, hd.congr hiff, (hfails d hd.mem error).1 herror⟩
  · rintro ⟨d, hd, herror⟩
    have herror := (hfails d hd.mem error).2 herror
    cases hmap : set.definitions.mapM f with
    | ok results =>
        obtain ⟨_, -, hok⟩ := exists_of_forall₂ (mapM_eq_ok_iff.1 hmap).flip hd.mem
        rw [herror] at hok
        cases hok
    | error other =>
        obtain ⟨e, he, hother⟩ := isFirst_of_mapM_eq_error hmap
        rw [hd.unique (he.congr hiff), hother, Except.error.injEq] at herror
        rw [herror]

/-! ### Up the families -/

theorem IsRoot.of_reached (hnames : (set.definitions.map Definition.name).Nodup)
    (h : set.IsRoot d root) (hreached : ReflTransGen set.Declares d e) : set.IsRoot e root := by
  rcases ReflTransGen.total_of_right_unique (Declares.right_unique hnames) h.reached hreached with
    hfrom | hto
  · obtain rfl := eq_of_reached_of_generic hfrom h.generic
    exact ⟨h.mem, .refl, h.generic⟩
  · exact ⟨h.mem, hto, h.generic⟩

/-- The root of a definition that declares a family is the root of the family. -/
theorem isRoot_iff_of_family (hnames : (set.definitions.map Definition.name).Nodup)
    {family : String} (hfamily : d.family = some family) :
    set.IsRoot d root ↔ ∃ e, set.get? family = some e ∧ set.IsRoot e root := by
  constructor
  · intro h
    rcases h.reached.cases_head with rfl | ⟨e, ⟨he, hname⟩, hrest⟩
    · rw [h.generic] at hfamily
      cases hfamily
    · have hsame : e.name = family := Option.some.inj (hname.symm.trans hfamily)
      exact ⟨e, (get?_eq_some_iff hnames).2 ⟨he, hsame⟩, h.mem, hrest, h.generic⟩
  · rintro ⟨e, hfound, h⟩
    obtain ⟨he, rfl⟩ := (get?_eq_some_iff hnames).1 hfound
    exact h.head ⟨he, hfamily⟩

/-- A definition whose families come back to it has no root. -/
theorem not_isRoot_of_cycle (hnames : (set.definitions.map Definition.name).Nodup)
    (hcycle : TransGen set.Declares d d) : ¬ set.IsRoot d root := by
  intro h
  have hback : ∀ e, ReflTransGen set.Declares d e → TransGen set.Declares e e := by
    intro e hreached
    induction hreached with
    | refl => exact hcycle
    | @tail b c _ hbc ih =>
        obtain ⟨other, hother, hreturn⟩ := TransGen.head'_iff.1 ih
        obtain rfl := Declares.right_unique hnames hother hbc
        exact TransGen.tail' hreturn hbc
  obtain ⟨e, hdeclares, -⟩ := TransGen.head'_iff.1 (hback root h.reached)
  have hgeneric := h.generic
  rw [hdeclares.2] at hgeneric
  cases hgeneric

/-- The definitions on the way up the families from `start`, the last first, none of them twice. -/
structure Ascent (set : InstructionSet) (start : Definition) (path : List Definition) : Prop where
  start : path.getLast? = some start
  declared : path.IsChain fun e d => set.Declares d e
  mem : ∀ e ∈ path, e ∈ set.definitions
  nodup : path.Nodup

namespace Ascent

theorem singleton (hd : d ∈ set.definitions) : set.Ascent d [d] :=
  ⟨rfl, List.isChain_singleton d, by simpa using hd, List.nodup_singleton d⟩

theorem cons (h : set.Ascent start (e :: path)) (hdeclares : set.Declares e next)
    (hnew : next ∉ e :: path) : set.Ascent start (next :: e :: path) where
  start := by rw [List.getLast?_cons_cons, h.start]
  declared := List.isChain_cons_cons.2 ⟨hdeclares, h.declared⟩
  mem := List.forall_mem_cons.2 ⟨hdeclares.1, h.mem⟩
  nodup := List.nodup_cons.2 ⟨hnew, h.nodup⟩

theorem length_le (h : set.Ascent start path) : path.length ≤ set.definitions.length :=
  (List.subperm_of_subset h.nodup h.mem).length_le

theorem mem_opcodes_iff (h : set.Ascent start path) (hd : d ∈ set.definitions) :
    d.opcode ∈ path.map Definition.opcode ↔ d ∈ path := by
  rw [List.mem_map]
  constructor
  · rintro ⟨e, he, hopcode⟩
    rwa [← eq_of_opcode (h.mem e he) hd hopcode]
  · intro hmem
    exact ⟨d, hmem, rfl⟩

/-- All that have been passed lead to the last one. -/
theorem reaches (h : set.Ascent start (e :: path)) (hd : d ∈ e :: path) :
    ReflTransGen set.Declares d e := by
  have hchain := h.declared
  clear h
  induction path generalizing e with
  | nil =>
      obtain rfl := List.mem_singleton.1 hd
      exact .refl
  | cons other path ih =>
      obtain ⟨hdeclares, hrest⟩ := List.isChain_cons_cons.1 hchain
      rcases List.mem_cons.1 hd with rfl | hd
      · exact .refl
      · exact (ih hd hrest).tail hdeclares

/-- One that is met again is on a circle of families. -/
theorem cycle (h : set.Ascent start (e :: path)) (hdeclares : set.Declares e next)
    (hagain : next ∈ e :: path) : TransGen set.Declares next next :=
  TransGen.tail' (h.reaches hagain) hdeclares

end Ascent

/-- The steps do not run out, since the definitions passed differ. -/
theorem climb_eq_some_iff (hnames : (set.definitions.map Definition.name).Nodup) {steps : Nat}
    (h : set.Ascent start (e :: path)) (hdeclares : set.Declares e next)
    (hsteps : path.length + steps = set.definitions.length) :
    familyRoot?.climb set steps ((e :: path).map Definition.opcode) next = some root ↔
      set.IsRoot next root := by
  induction steps generalizing e path next with
  | zero =>
      have hlength := h.length_le
      simp only [List.length_cons] at hlength
      omega
  | succ steps ih =>
      rw [familyRoot?.climb]
      simp only [h.mem_opcodes_iff hdeclares.1]
      by_cases hagain : next ∈ e :: path
      · have hnot : ¬ set.IsRoot next root := not_isRoot_of_cycle hnames (h.cycle hdeclares hagain)
        simp [hagain, hnot]
      · rw [if_neg hagain]
        cases hfamily : next.family with
        | none =>
            rw [Option.some.injEq]
            constructor
            · rintro rfl
              exact isRoot_self hdeclares.1 hfamily
            · intro hroot
              exact (hroot.eq_self_iff.2 hfamily).symm
        | some family =>
            have hlength : (e :: path).length + steps = set.definitions.length := by
              rw [List.length_cons, ← hsteps, Nat.add_right_comm, Nat.add_assoc]
            rw [isRoot_iff_of_family hnames hfamily]
            refine Option.bind_eq_some_iff.trans ?_
            refine exists_congr fun other => and_congr_right fun hfound => ?_
            obtain ⟨hother, rfl⟩ := (get?_eq_some_iff hnames).1 hfound
            exact ih (h.cons hdeclares hagain) ⟨hother, hfamily⟩ hlength

/-- The families of a specialized definition end in `root`. -/
@[mk_iff]
structure Specializes (set : InstructionSet) (d root : Definition) : Prop where
  specialized : d.family ≠ none
  root : set.IsRoot d root

/-- The root that is looked up is the one that the declared families end in. Without one, be it that
a family is missing or that the families run in a circle, there is no root. -/
theorem familyRoot?_eq_some_iff (hnames : (set.definitions.map Definition.name).Nodup)
    (hd : d ∈ set.definitions) : set.familyRoot? d = some root ↔ set.Specializes d root := by
  rw [specializes_iff, familyRoot?]
  cases hfamily : d.family with
  | none => simp
  | some family =>
      rw [and_iff_right (Option.some_ne_none family), isRoot_iff_of_family hnames hfamily,
        Option.bind_eq_bind, Option.bind_some, Option.bind_eq_bind, Option.bind_eq_some_iff]
      refine exists_congr fun e => and_congr_right fun hfound => ?_
      obtain ⟨he, rfl⟩ := (get?_eq_some_iff hnames).1 hfound
      exact climb_eq_some_iff hnames (Ascent.singleton hd) ⟨he, hfamily⟩ (Nat.zero_add _)

end Bytecode.InstructionSet

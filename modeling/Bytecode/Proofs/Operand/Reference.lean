import Bytecode.Proofs.Operand.Dependencies
import Mathlib.Data.Fintype.EquivFin
import Mathlib.Data.List.MinMax
import Mathlib.Order.WellFounded

/-!
# What operand types mean

The variants of a named type, said position by position and without a registry: by recursion over
the earlier positions of the type and over the types that it refers to. A specification is sound
where everything that its variants mention is there and no name or encoding occurs twice.
-/

namespace Bytecode

open Relation

namespace NamedSpec

def automaticBefore (spec : NamedSpec) (i : Nat) : Nat :=
  (spec.variants.take i).countP VariantSpec.isAutomatic

/-- The position, before `i`, of the first variant of a name. -/
def earlier? (spec : NamedSpec) (i : Nat) (name : String) : Option Nat :=
  (spec.variants.take i).findIdx? fun variant => variant.name = name

theorem lt_of_earlier? {spec : NamedSpec} {i j : Nat} {name : String}
    (h : spec.earlier? i name = some j) : j < i := by
  have hlt := (List.findIdx?_eq_some_iff_getElem.1 h).1
  rw [List.length_take] at hlt
  omega

/-- The encoding of the variant at position `i`, with the variants of other types given. What a
combination mentions and nothing declares adds no bits. -/
def encodingAt (others : String → List Variant) (spec : NamedSpec) (i : Nat) : UInt32 :=
  match spec.variants[i]? with
  | none => 0
  | some variant =>
      match variant.value, variant.combine, spec.numbering with
      | some value, _, _ => value
      | none, [], .index => .ofNat i
      | none, [], .flags => 1 <<< UInt32.ofNat (spec.automaticBefore i)
      | none, parts, _ =>
          (parts.map fun part =>
            match qualified? part with
            | some (type, name) =>
                (((others type).find? fun variant => variant.name = name).map Variant.value).getD 0
            | none =>
                match _h : spec.earlier? i part with
                | some j => encodingAt others spec j
                | none => 0).foldr (· ||| ·) 0
termination_by i
decreasing_by exact lt_of_earlier? _h

def partEncoding (others : String → List Variant) (spec : NamedSpec) (i : Nat) (part : String) :
    UInt32 :=
  match qualified? part with
  | some (type, name) =>
      (((others type).find? fun variant => variant.name = name).map Variant.value).getD 0
  | none =>
      match spec.earlier? i part with
      | some j => spec.encodingAt others j
      | none => 0

/-- A part of a combination refers to a variant of another type, or to an earlier one of its own. -/
def Resolves (others : String → List Variant) (spec : NamedSpec) (i : Nat) (part : String) : Prop :=
  (∃ type name, Qualifies part type name ∧ ∃ variant ∈ others type, variant.name = name) ∨
    '.' ∉ part.toList ∧ ∃ variant ∈ spec.variants.take i, variant.name = part

def listed (others : String → List Variant) (spec : NamedSpec) : List Variant :=
  spec.variants.mapIdx fun i variant => ⟨variant.name, spec.encodingAt others i, variant.doc⟩

def shifted (shift : Shift) (base : List Variant) : List Variant :=
  base.map fun variant => { variant with value := (shift.apply variant.value).getD 0 }

def variantsOver (others : String → List Variant) (spec : NamedSpec) : List Variant :=
  match spec.derivation with
  | some derivation => shifted ⟨derivation.shiftLeft⟩ (others derivation.base)
  | none => spec.listed others

def typeOver (others : String → List Variant) (name : String) (spec : NamedSpec) : NamedType where
  name := name
  doc := spec.doc
  variants := spec.variantsOver others
  derivation := spec.derivation.map fun derivation => ⟨derivation.base, ⟨derivation.shiftLeft⟩⟩

structure Sound (others : String → List Variant) (spec : NamedSpec) : Prop where
  derived : ∀ derivation, spec.derivation = some derivation → spec.variants = [] ∧
    ∀ variant ∈ others derivation.base, ∃ value,
      (⟨derivation.shiftLeft⟩ : Shift).apply variant.value = some value
  nonempty : spec.derivation = none → spec.variants ≠ []
  unambiguous : spec.derivation = none → ∀ variant ∈ spec.variants,
    variant.value = none ∨ variant.combine = []
  flags : spec.derivation = none → spec.numbering = .flags →
    spec.variants.countP VariantSpec.isAutomatic ≤ 32
  resolved : spec.derivation = none → ∀ i variant, spec.variants[i]? = some variant →
    ∀ part ∈ variant.combine, spec.Resolves others i part
  names_nodup : ((spec.variantsOver others).map Variant.name).Nodup
  encodings_nodup : ((spec.variantsOver others).map Variant.value).Nodup

variable {others others' : String → List Variant} {spec : NamedSpec} {i : Nat}
  {variant : VariantSpec}

/-! ### Encodings by position -/

theorem encodingAt_of_value {value : UInt32} (h : spec.variants[i]? = some variant)
    (hvalue : variant.value = some value) : spec.encodingAt others i = value := by
  rw [encodingAt, h]
  simp only [hvalue]

theorem encodingAt_of_index (h : spec.variants[i]? = some variant)
    (hauto : variant.isAutomatic = true) (hindex : spec.numbering = .index) :
    spec.encodingAt others i = .ofNat i := by
  simp only [VariantSpec.isAutomatic, Bool.and_eq_true, Option.isNone_iff_eq_none,
    List.isEmpty_iff] at hauto
  rw [encodingAt, h]
  simp only [hauto.1, hauto.2, hindex]

theorem encodingAt_of_flags (h : spec.variants[i]? = some variant)
    (hauto : variant.isAutomatic = true) (hflags : spec.numbering = .flags) :
    spec.encodingAt others i = 1 <<< UInt32.ofNat (spec.automaticBefore i) := by
  simp only [VariantSpec.isAutomatic, Bool.and_eq_true, Option.isNone_iff_eq_none,
    List.isEmpty_iff] at hauto
  rw [encodingAt, h]
  simp only [hauto.1, hauto.2, hflags]

theorem encodingAt_of_combine (h : spec.variants[i]? = some variant) (hvalue : variant.value = none)
    (hcombine : variant.combine ≠ []) :
    spec.encodingAt others i =
      (variant.combine.map (spec.partEncoding others i)).foldr (· ||| ·) 0 := by
  obtain ⟨part, parts, hparts⟩ := List.exists_cons_of_ne_nil hcombine
  rw [encodingAt, h]
  simp only [hvalue, hparts]
  refine congrArg (List.foldr _ _) (List.map_congr_left fun part _ => ?_)
  rw [partEncoding]
  split
  · rfl
  · split
    · next hj => simp only [hj]
    · next hj => simp only [hj]

theorem encodingAt_of_none (h : spec.variants[i]? = none) : spec.encodingAt others i = 0 := by
  rw [encodingAt, h]

/-! ### Only the types referred to count -/

theorem encodingAt_congr (h : ∀ other, spec.RefersTo other → others other = others' other)
    (i : Nat) : spec.encodingAt others i = spec.encodingAt others' i := by
  -- A part without a dot refers to an earlier position, a part with one to another type.
  induction i using Nat.strongRecOn with
  | _ i ih =>
    cases hvariant : spec.variants[i]? with
    | none => rw [encodingAt_of_none hvariant, encodingAt_of_none hvariant]
    | some variant =>
        cases hvalue : variant.value with
        | some value =>
            rw [encodingAt_of_value hvariant hvalue, encodingAt_of_value hvariant hvalue]
        | none =>
            by_cases hcombine : variant.combine = []
            · have hauto : variant.isAutomatic = true := by
                simp [VariantSpec.isAutomatic, hvalue, hcombine]
              cases hnumbering : spec.numbering with
              | index =>
                  rw [encodingAt_of_index hvariant hauto hnumbering,
                    encodingAt_of_index hvariant hauto hnumbering]
              | flags =>
                  rw [encodingAt_of_flags hvariant hauto hnumbering,
                    encodingAt_of_flags hvariant hauto hnumbering]
            · rw [encodingAt_of_combine hvariant hvalue hcombine,
                encodingAt_of_combine hvariant hvalue hcombine]
              refine congrArg (List.foldr _ _) (List.map_congr_left fun part hpart => ?_)
              unfold partEncoding
              split
              · next type name hsplit =>
                  have hqualifies := qualified?_eq_some_iff.1 hsplit
                  rw [h type (.combination (List.mem_of_getElem? hvariant) hpart hqualifies)]
              · split
                · next j hj => exact ih j (lt_of_earlier? hj)
                · rfl

theorem variantsOver_congr (h : ∀ other, spec.RefersTo other → others other = others' other) :
    spec.variantsOver others = spec.variantsOver others' := by
  unfold variantsOver
  split
  · next derivation hderivation => rw [h _ (.base hderivation)]
  · simp only [listed, encodingAt_congr h]

end NamedSpec

namespace Registry

variable {specs : NameMap OpargSpec} {name : String} {spec : NamedSpec}

def Below (specs : NameMap OpargSpec) (a b : { name // name ∈ specs.names }) : Prop :=
  TransGen (DependsOn specs) a.1 b.1

/-- Without cycles this is a strict order of a finite type. -/
theorem Acyclic.wellFounded_below (h : Acyclic specs) : WellFounded (Below specs) := by
  have : IsTrans _ (Below specs) := ⟨fun _ _ _ hab hbc => TransGen.trans hab hbc⟩
  have : Std.Irrefl (Below specs) := ⟨fun a haa => h a.1 haa⟩
  exact Finite.wellFounded_of_trans_of_irrefl _

/-- A type without references, such as one that is not declared, is reached by no cycle. -/
theorem Acyclic.wellFounded (h : Acyclic specs) : WellFounded (DependsOn specs) := by
  have hundeclared : ∀ b, b ∉ specs.names → Acc (DependsOn specs) b := by
    refine fun b hb => ⟨_, fun a ha => ?_⟩
    obtain ⟨spec, hspec, -⟩ := ha
    exact absurd (NameMap.mem_names_iff.2 ⟨_, hspec⟩) hb
  have hdeclared : ∀ b : { name // name ∈ specs.names }, Acc (DependsOn specs) b.1 := by
    intro b
    induction b using h.wellFounded_below.induction with
    | _ b ih =>
      refine ⟨_, fun a ha => ?_⟩
      by_cases hmem : a ∈ specs.names
      · exact ih ⟨a, hmem⟩ (.single ha)
      · exact hundeclared a hmem
  refine ⟨fun b => ?_⟩
  by_cases hmem : b ∈ specs.names
  · exact hdeclared ⟨b, hmem⟩
  · exact hundeclared b hmem

/-- The variants of a named type, by recursion over the types that it refers to. -/
def meaning (acyclic : Acyclic specs) (name : String) : List Variant :=
  match _hspec : specs.get? name with
  | some (.named spec) =>
      spec.variantsOver fun other =>
        if _hother : spec.RefersTo other then meaning acyclic other else []
  | _ => []
termination_by acyclic.wellFounded.wrap name
decreasing_by exact ⟨spec, _hspec, _hother⟩

theorem meaning_eq (acyclic : Acyclic specs) (h : specs.get? name = some (.named spec)) :
    meaning acyclic name = spec.variantsOver (meaning acyclic) := by
  rw [meaning]
  split
  · next spec' hspec =>
      obtain rfl : spec' = spec := OpargSpec.named.inj (Option.some.inj (hspec.symm.trans h))
      exact NamedSpec.variantsOver_congr fun other hother => dif_pos hother
  · next hnot => exact absurd h (hnot spec)

end Registry

def OpargSpec.typeOver (others : String → List Variant) (name : String) : OpargSpec → OpargType
  | aliased spec => .aliased ⟨name, spec.width, spec.doc⟩
  | named spec => .named (spec.typeOver others name)

theorem OpargSpec.name_typeOver (others : String → List Variant) (name : String)
    (spec : OpargSpec) : (spec.typeOver others name).name = name := by
  cases spec <;> rfl

end Bytecode

import Bytecode.Proofs.Operand.Reference

/-!
# Numbering the variants of a type

The pass over the variants of a specification gives, at each position, the encoding that the
position means. It comes to the end exactly where every variant is defined.
-/

namespace Bytecode

namespace NamedSpec

open Registry

variable {others : String → List Variant} {spec : NamedSpec} {registry : Registry}
  {owner part : String} {variant : VariantSpec} {i : Nat} {value : UInt32}

/-- The registry holds the types that a specification refers to, with the variants given. -/
def Provided (registry : Registry) (others : String → List Variant) (spec : NamedSpec) : Prop :=
  ∀ other, spec.RefersTo other →
    ∃ type, registry.get? other = some (.named type) ∧ type.variants = others other

theorem Provided.namedType (h : spec.Provided registry others) (owner : String) {other : String}
    (hrefers : spec.RefersTo other) :
    ∃ type, registry.namedType owner other = .ok type ∧ type.variants = others other := by
  obtain ⟨type, hget, hvariants⟩ := h other hrefers
  exact ⟨type, by simp [Registry.namedType, hget, OpargType.asNamed?], hvariants⟩

/-! ### Combinations -/

theorem getElem?_listed (others : String → List Variant) (spec : NamedSpec) (i : Nat) :
    (spec.listed others)[i]? = spec.variants[i]?.map fun variant =>
      ⟨variant.name, spec.encodingAt others i, variant.doc⟩ := by
  simp [listed]

theorem map_name_listed (others : String → List Variant) (spec : NamedSpec) :
    (spec.listed others).map Variant.name = spec.variants.map VariantSpec.name := by
  apply List.ext_getElem?
  intro i
  simp [getElem?_listed, Function.comp_def]

theorem findIdx?_take_listed (others : String → List Variant) (spec : NamedSpec) (i : Nat)
    (name : String) :
    ((spec.listed others).take i).findIdx? (fun variant => variant.name = name) =
      spec.earlier? i name := by
  have hnames : ((spec.listed others).take i).map Variant.name =
      (spec.variants.take i).map VariantSpec.name := by
    rw [List.map_take, List.map_take, map_name_listed]
  have hleft := List.findIdx?_map (p := fun other => decide (other = name)) (f := Variant.name)
    (l := (spec.listed others).take i)
  have hright := List.findIdx?_map (p := fun other => decide (other = name)) (f := VariantSpec.name)
    (l := spec.variants.take i)
  rw [hnames, hright] at hleft
  exact hleft.symm

/-- The pass finds the variant that a part without a dot means. -/
theorem find?_take_listed (others : String → List Variant) (spec : NamedSpec) (i : Nat)
    (name : String) :
    (((spec.listed others).take i).find? fun variant => variant.name = name).map Variant.value =
      (spec.earlier? i name).map (spec.encodingAt others) := by
  rw [List.find?_eq_bind_findIdx?_getElem?, findIdx?_take_listed]
  cases hj : spec.earlier? i name with
  | none => rfl
  | some j =>
      have hlt : j < i := lt_of_earlier? hj
      have hj' : j < (spec.variants.take i).length := (List.findIdx?_eq_some_iff_getElem.1 hj).1
      have hvariant : j < spec.variants.length := by
        rw [List.length_take] at hj'
        omega
      simp [List.getElem?_take, hlt, getElem?_listed, List.getElem?_eq_getElem hvariant]

theorem resolves_own_iff (hpart : qualified? part = none) :
    spec.Resolves others i part ↔ (spec.earlier? i part).isSome := by
  simp only [Resolves, ← qualified?_eq_some_iff, ← qualified?_eq_none_iff, hpart, reduceCtorEq,
    false_and, exists_false, false_or, true_and, earlier?, List.findIdx?_isSome, List.any_eq_true,
    decide_eq_true_eq]

theorem resolves_other_iff {type name : String} (hpart : qualified? part = some (type, name)) :
    spec.Resolves others i part ↔
      ((others type).find? fun variant => variant.name = name).isSome := by
  simp only [List.find?_isSome, decide_eq_true_eq]
  constructor
  · rintro (⟨_, _, hqualifies, hvariant⟩ | ⟨hdot, -⟩)
    · rw [← qualified?_eq_some_iff, hpart, Option.some.injEq, Prod.mk.injEq] at hqualifies
      obtain ⟨rfl, rfl⟩ := hqualifies
      exact hvariant
    · rw [← qualified?_eq_none_iff, hpart] at hdot
      cases hdot
  · intro hvariant
    exact .inl ⟨type, name, qualified?_eq_some_iff.1 hpart, hvariant⟩

theorem partValue_own (hpart : qualified? part = none) (earlier : List Variant) :
    registry.partValue owner earlier part = .ok value ↔
      (earlier.find? fun variant => variant.name = part).map Variant.value = some value := by
  rw [partValue, splitReference?_eq, hpart]
  cases hfound : earlier.find? fun variant => variant.name = part with
  | none => simp [bind, Except.bind]
  | some found => simp [bind, Except.bind]

theorem partValue_other {type name : String} {found : NamedType} (earlier : List Variant)
    (hpart : qualified? part = some (type, name))
    (hfound : registry.namedType owner type = .ok found) :
    registry.partValue owner earlier part = .ok value ↔
      (found.variants.find? fun variant => variant.name = name).map Variant.value = some value := by
  rw [partValue, splitReference?_eq, hpart]
  cases hvariant : found.variants.find? fun variant => variant.name = name with
  | none => simp [hfound, hvariant]
  | some variant => simp [hfound, hvariant]

theorem partValue_eq_ok_iff (h : spec.Provided registry others) (hvariant : variant ∈ spec.variants)
    (hpart : part ∈ variant.combine) :
    registry.partValue owner ((spec.listed others).take i) part = .ok value ↔
      spec.Resolves others i part ∧ value = spec.partEncoding others i part := by
  cases hsplit : qualified? part with
  | none =>
      rw [partValue_own hsplit, find?_take_listed, resolves_own_iff hsplit, partEncoding, hsplit]
      cases hj : spec.earlier? i part with
      | none => simp
      | some j => simp [@eq_comm _ value]
  | some reference =>
      obtain ⟨type, name⟩ := reference
      obtain ⟨found, hfound, hvariants⟩ :=
        h.namedType owner (.combination hvariant hpart (qualified?_eq_some_iff.1 hsplit))
      rw [partValue_other _ hsplit hfound, hvariants, resolves_other_iff hsplit, partEncoding,
        hsplit]
      cases hfind : (others type).find? fun variant => variant.name = name with
      | none => simp
      | some variant => simp [hfind, @eq_comm _ value]

theorem combinedValue_eq_ok_iff (h : spec.Provided registry others)
    (hvariant : variant ∈ spec.variants) {parts : List String} (hparts : parts ⊆ variant.combine) :
    registry.combinedValue owner ((spec.listed others).take i) parts = .ok value ↔
      (∀ part ∈ parts, spec.Resolves others i part) ∧
        value = (parts.map (spec.partEncoding others i)).foldr (· ||| ·) 0 := by
  induction parts generalizing value with
  | nil => simp [combinedValue, eq_comm]
  | cons part parts ih =>
      have hpart : part ∈ variant.combine := hparts List.mem_cons_self
      have hrest : parts ⊆ variant.combine := fun _ hp => hparts (List.mem_cons_of_mem _ hp)
      rw [combinedValue, bind_eq_ok_iff]
      simp only [bind_eq_ok_iff, partValue_eq_ok_iff h hvariant hpart, ih hrest,
        List.forall_mem_cons, List.map_cons, List.foldr_cons]
      constructor
      · rintro ⟨_, ⟨hfirst, rfl⟩, _, ⟨hothers, rfl⟩, hvalue⟩
        exact ⟨⟨hfirst, hothers⟩, (Except.ok.inj hvalue).symm⟩
      · rintro ⟨⟨hfirst, hothers⟩, rfl⟩
        exact ⟨_, ⟨hfirst, rfl⟩, _, ⟨hothers, rfl⟩, rfl⟩

/-! ### Encodings -/

structure DefinedAt (others : String → List Variant) (spec : NamedSpec) (i : Nat)
    (variant : VariantSpec) : Prop where
  unambiguous : variant.value = none ∨ variant.combine = []
  flags : variant.isAutomatic = true → spec.numbering = .flags → spec.automaticBefore i < 32
  resolved : ∀ part ∈ variant.combine, spec.Resolves others i part

theorem length_take_listed (hi : i ≤ spec.variants.length) :
    ((spec.listed others).take i).length = i := by
  simp [listed, hi]

theorem definedAt_of_isAutomatic (hauto : variant.isAutomatic = true) :
    spec.DefinedAt others i variant ↔ (spec.numbering = .flags → spec.automaticBefore i < 32) := by
  refine ⟨fun h => h.flags hauto, fun h => ?_⟩
  simp only [VariantSpec.isAutomatic, Bool.and_eq_true, Option.isNone_iff_eq_none,
    List.isEmpty_iff] at hauto
  exact ⟨.inl hauto.1, fun _ => h, by simp [hauto.2]⟩

theorem variantValue_eq_ok_iff (h : spec.Provided registry others)
    (hsmall : spec.variants.length < UInt32.size) (hvariant : spec.variants[i]? = some variant) :
    registry.variantValue owner spec.numbering ((spec.listed others).take i)
        (spec.automaticBefore i) variant = .ok value ↔
      spec.DefinedAt others i variant ∧ value = spec.encodingAt others i := by
  have hmem : variant ∈ spec.variants := List.mem_of_getElem? hvariant
  obtain ⟨hi, -⟩ := List.getElem?_eq_some_iff.1 hvariant
  cases hvalue : variant.value with
  | some given =>
      rw [encodingAt_of_value hvariant hvalue]
      cases hcombine : variant.combine with
      | nil =>
          have hdefined : spec.DefinedAt others i variant :=
            ⟨.inr hcombine, by simp [VariantSpec.isAutomatic, hvalue], by simp [hcombine]⟩
          simp [variantValue, hvalue, hcombine, hdefined, @eq_comm _ value]
      | cons part parts =>
          have hnot : ¬ spec.DefinedAt others i variant := fun hd => by
            simpa [hvalue, hcombine] using hd.unambiguous
          simp [variantValue, hvalue, hcombine, hnot]
  | none =>
      cases hcombine : variant.combine with
      | nil =>
          have hauto : variant.isAutomatic = true := by
            simp [VariantSpec.isAutomatic, hvalue, hcombine]
          rw [definedAt_of_isAutomatic hauto]
          cases hnumbering : spec.numbering with
          | index =>
              rw [encodingAt_of_index hvariant hauto hnumbering]
              have hlt : i < UInt32.size := Nat.lt_trans hi hsmall
              simp [variantValue, hvalue, hcombine, length_take_listed hi.le, hlt,
                @eq_comm _ value]
          | flags =>
              rw [encodingAt_of_flags hvariant hauto hnumbering]
              by_cases hlt : spec.automaticBefore i < 32
              · simp [variantValue, hvalue, hcombine, hlt, @eq_comm _ value]
              · simp [variantValue, hvalue, hcombine, hlt]
      | cons part parts =>
          have hne : variant.combine ≠ [] := by simp [hcombine]
          have hdefined : spec.DefinedAt others i variant ↔
              ∀ part ∈ variant.combine, spec.Resolves others i part :=
            ⟨fun hd => hd.resolved, fun hd =>
              ⟨.inl hvalue, by simp [VariantSpec.isAutomatic, hcombine], hd⟩⟩
          have hcombined : registry.combinedValue owner ((spec.listed others).take i)
              variant.combine = .ok value ↔ _ :=
            combinedValue_eq_ok_iff h hmem (List.Subset.refl _)
          rw [encodingAt_of_combine hvariant hvalue hne, hdefined, ← hcombined]
          simp [variantValue, hvalue, hcombine]

/-! ### The pass -/

theorem automaticBefore_succ (hvariant : spec.variants[i]? = some variant) :
    spec.automaticBefore (i + 1) =
      if variant.isAutomatic then spec.automaticBefore i + 1 else spec.automaticBefore i := by
  rw [automaticBefore, List.take_add_one, hvariant, List.countP_append]
  cases hauto : variant.isAutomatic <;> simp [automaticBefore, hauto]

theorem take_listed_succ (hvariant : spec.variants[i]? = some variant) :
    (spec.listed others).take (i + 1) = (spec.listed others).take i ++
      [⟨variant.name, spec.encodingAt others i, variant.doc⟩] := by
  rw [List.take_add_one, getElem?_listed, hvariant]
  rfl

theorem numberVariants_from (h : spec.Provided registry others)
    (hsmall : spec.variants.length < UInt32.size) {rest : List VariantSpec}
    {variants : List Variant} (hrest : spec.variants.drop i = rest) (hi : i ≤ spec.variants.length) :
    registry.numberVariants owner spec.numbering ((spec.listed others).take i)
        (spec.automaticBefore i) rest = .ok variants ↔
      (∀ j variant, i ≤ j → spec.variants[j]? = some variant → spec.DefinedAt others j variant) ∧
        variants = spec.listed others := by
  -- At position `i` the pass has collected the first `i` variants that are meant.
  induction rest generalizing i with
  | nil =>
      have hlen : spec.variants.length ≤ i := List.drop_eq_nil_iff.1 hrest
      have hall : (spec.listed others).take i = spec.listed others :=
        List.take_of_length_le (by simpa [listed] using hlen)
      rw [numberVariants, hall]
      constructor
      · intro hok
        refine ⟨fun j variant hj hv => ?_, (Except.ok.inj hok).symm⟩
        have hlt := (List.getElem?_eq_some_iff.1 hv).1
        omega
      · rintro ⟨-, rfl⟩
        rfl
  | cons variant rest ih =>
      have hvariant : spec.variants[i]? = some variant := by
        have hhead := congrArg (fun l => l[0]?) hrest
        simpa using hhead
      have hlt : i < spec.variants.length := (List.getElem?_eq_some_iff.1 hvariant).1
      have hnext : spec.variants.drop (i + 1) = rest := by
        rw [← List.drop_drop, hrest, List.drop_succ_cons, List.drop_zero]
      rw [numberVariants, bind_eq_ok_iff]
      constructor
      · rintro ⟨value, hvalue, hok⟩
        obtain ⟨hdefined, rfl⟩ := (variantValue_eq_ok_iff h hsmall hvariant).1 hvalue
        rw [← take_listed_succ hvariant, ← automaticBefore_succ hvariant, ih hnext hlt] at hok
        refine ⟨fun j other hj hother => ?_, hok.2⟩
        rcases Nat.eq_or_lt_of_le hj with rfl | hj
        · rwa [Option.some.inj (hother.symm.trans hvariant)]
        · exact hok.1 j other hj hother
      · rintro ⟨hdefined, rfl⟩
        refine ⟨spec.encodingAt others i, (variantValue_eq_ok_iff h hsmall hvariant).2
          ⟨hdefined i variant (Nat.le_refl i) hvariant, rfl⟩, ?_⟩
        rw [← take_listed_succ hvariant, ← automaticBefore_succ hvariant, ih hnext hlt]
        exact ⟨fun j other hj => hdefined j other (by omega), rfl⟩

theorem numberVariants_eq_ok_iff (h : spec.Provided registry others)
    (hsmall : spec.variants.length < UInt32.size) {variants : List Variant} :
    registry.numberVariants owner spec.numbering [] 0 spec.variants = .ok variants ↔
      (∀ i variant, spec.variants[i]? = some variant → spec.DefinedAt others i variant) ∧
        variants = spec.listed others := by
  have hpass : registry.numberVariants owner spec.numbering ((spec.listed others).take 0)
      (spec.automaticBefore 0) spec.variants = .ok variants ↔ _ :=
    numberVariants_from h hsmall List.drop_zero (Nat.zero_le _)
  simpa [automaticBefore] using hpass

end NamedSpec

end Bytecode

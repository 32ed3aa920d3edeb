import Bytecode.Proofs.Operand.Numbering

/-!
# Building one type

Over a registry that holds the types it refers to, a specification becomes a type exactly where it
is sound, and the type has the variants that the specification means. Otherwise the definition
itself is invalid: no type is ever found to be missing.
-/

namespace Bytecode

namespace NamedSpec

variable {others : String → List Variant} {spec : NamedSpec}

/-! ### Definedness, said of the whole specification -/

theorem automaticBefore_length (spec : NamedSpec) :
    spec.automaticBefore spec.variants.length = spec.variants.countP VariantSpec.isAutomatic := by
  rw [automaticBefore, List.take_length]

theorem automaticBefore_mono {i j : Nat} (h : i ≤ j) :
    spec.automaticBefore i ≤ spec.automaticBefore j := by
  have hsub : (spec.variants.take i).Sublist (spec.variants.take j) := by
    rw [← Nat.min_eq_left h, ← List.take_take]
    exact List.take_sublist _ _
  exact hsub.countP_le

/-- Every numbered variant has fewer than `bound` before it where there are no more than `bound`. -/
theorem automaticBefore_lt_iff (bound : Nat) :
    (∀ i variant, spec.variants[i]? = some variant → variant.isAutomatic = true →
        spec.automaticBefore i < bound) ↔
      spec.variants.countP VariantSpec.isAutomatic ≤ bound := by
  constructor
  · intro h
    have hle : ∀ i ≤ spec.variants.length, spec.automaticBefore i ≤ bound := by
      intro i hi
      induction i with
      | zero => simp [automaticBefore]
      | succ i ih =>
          have hvariant := List.getElem?_eq_getElem hi
          rw [automaticBefore_succ hvariant]
          split
          · next hauto => exact h i _ hvariant hauto
          · exact ih (Nat.le_of_succ_le hi)
    rw [← automaticBefore_length]
    exact hle _ (Nat.le_refl _)
  · intro h i variant hvariant hauto
    have hi := (List.getElem?_eq_some_iff.1 hvariant).1
    have hsucc : spec.automaticBefore i + 1 = spec.automaticBefore (i + 1) := by
      rw [automaticBefore_succ hvariant, if_pos hauto]
    have hle : spec.automaticBefore (i + 1) ≤ spec.automaticBefore spec.variants.length :=
      automaticBefore_mono hi
    rw [automaticBefore_length] at hle
    omega

theorem forall_definedAt_iff :
    (∀ i variant, spec.variants[i]? = some variant → spec.DefinedAt others i variant) ↔
      (∀ variant ∈ spec.variants, variant.value = none ∨ variant.combine = []) ∧
        (spec.numbering = .flags → spec.variants.countP VariantSpec.isAutomatic ≤ 32) ∧
        ∀ i variant, spec.variants[i]? = some variant →
          ∀ part ∈ variant.combine, spec.Resolves others i part := by
  constructor
  · intro h
    refine ⟨fun variant hmem => ?_, fun hflags => ?_, fun i variant hv => (h i variant hv).resolved⟩
    · obtain ⟨i, hi⟩ := List.getElem?_of_mem hmem
      exact (h i variant hi).unambiguous
    · exact (automaticBefore_lt_iff 32).1 fun i variant hv hauto =>
        (h i variant hv).flags hauto hflags
  · rintro ⟨hunambiguous, hflags, hresolved⟩ i variant hv
    exact {
      unambiguous := hunambiguous variant (List.mem_of_getElem? hv)
      flags := fun hauto hnumbering =>
        (automaticBefore_lt_iff 32).2 (hflags hnumbering) i variant hv hauto
      resolved := hresolved i variant hv }

/-- Everything that the variants of a specification mention is there. -/
structure Defined (others : String → List Variant) (spec : NamedSpec) : Prop where
  derived : ∀ derivation, spec.derivation = some derivation → spec.variants = [] ∧
    ∀ variant ∈ others derivation.base, ∃ value,
      (⟨derivation.shiftLeft⟩ : Shift).apply variant.value = some value
  listed : spec.derivation = none →
    ∀ i variant, spec.variants[i]? = some variant → spec.DefinedAt others i variant

theorem defined_iff_of_listed (hspec : spec.derivation = none) :
    spec.Defined others ↔
      ∀ i variant, spec.variants[i]? = some variant → spec.DefinedAt others i variant :=
  ⟨fun h => h.listed hspec, fun h => ⟨by simp [hspec], fun _ => h⟩⟩

theorem defined_iff_of_derived {source : DerivationSpec} (hspec : spec.derivation = some source) :
    spec.Defined others ↔ spec.variants = [] ∧ ∀ variant ∈ others source.base, ∃ value,
      (⟨source.shiftLeft⟩ : Shift).apply variant.value = some value := by
  refine ⟨fun h => h.derived source hspec, fun h => ⟨?_, by simp [hspec]⟩⟩
  intro derivation hderivation
  obtain rfl := Option.some.inj (hspec.symm.trans hderivation)
  exact h

theorem sound_iff (hbase : ∀ derivation, spec.derivation = some derivation →
    others derivation.base ≠ []) :
    spec.Sound others ↔ spec.Defined others ∧ spec.variantsOver others ≠ [] ∧
      ((spec.variantsOver others).map Variant.name).Nodup ∧
      ((spec.variantsOver others).map Variant.value).Nodup := by
  have hempty : spec.derivation = none →
      (spec.variantsOver others ≠ [] ↔ spec.variants ≠ []) := by
    intro hspec
    simp [variantsOver, hspec, NamedSpec.listed]
  constructor
  · intro h
    refine ⟨⟨h.derived, fun hspec => ?_⟩, ?_, h.names_nodup, h.encodings_nodup⟩
    · exact forall_definedAt_iff.2
        ⟨h.unambiguous hspec, h.flags hspec, h.resolved hspec⟩
    · cases hspec : spec.derivation with
      | none => exact (hempty hspec).2 (h.nonempty hspec)
      | some derivation =>
          simpa [variantsOver, hspec, shifted] using hbase derivation hspec
  · rintro ⟨hdefined, hne, hnames, hvalues⟩
    exact {
      derived := hdefined.derived
      nonempty := fun hspec => (hempty hspec).1 hne
      unambiguous := fun hspec => (forall_definedAt_iff.1 (hdefined.listed hspec)).1
      flags := fun hspec => (forall_definedAt_iff.1 (hdefined.listed hspec)).2.1
      resolved := fun hspec => (forall_definedAt_iff.1 (hdefined.listed hspec)).2.2
      names_nodup := hnames
      encodings_nodup := hvalues }

end NamedSpec

namespace Registry

/-! ### Repetitions -/

theorem repetition?_eq_none_iff {earlier rest : List Variant} :
    repetition? earlier rest = none ↔
      (rest.Pairwise fun a b => a.name ≠ b.name ∧ a.value ≠ b.value) ∧
        ∀ a ∈ earlier, ∀ b ∈ rest, a.name ≠ b.name ∧ a.value ≠ b.value := by
  induction rest generalizing earlier with
  | nil => simp [repetition?]
  | cons variant rest ih =>
      rw [repetition?]
      split
      · next hname =>
          obtain ⟨a, ha, heq⟩ := List.any_eq_true.1 hname
          have hnot : ¬ ∀ a ∈ earlier, ∀ b ∈ variant :: rest,
              a.name ≠ b.name ∧ a.value ≠ b.value := fun h =>
            (h a ha variant List.mem_cons_self).1 (of_decide_eq_true heq)
          simp only [reduceCtorEq, false_iff, not_and]
          exact fun _ => hnot
      · next hname =>
          split
          · next a hfound =>
              have heq : a.value = variant.value := by simpa using List.find?_some hfound
              simp only [reduceCtorEq, false_iff, not_and]
              exact fun _ h =>
                (h a (List.mem_of_find?_eq_some hfound) variant List.mem_cons_self).2 heq
          · next hvalue =>
              have hnames : ∀ a ∈ earlier, a.name ≠ variant.name := by simpa using hname
              have hvalues : ∀ a ∈ earlier, a.value ≠ variant.value := by simpa using hvalue
              rw [ih, List.pairwise_cons]
              simp only [List.mem_append, List.mem_cons, List.not_mem_nil, or_false]
              constructor
              · rintro ⟨hpair, hearlier⟩
                refine ⟨⟨fun b hb => hearlier variant (.inr rfl) b hb, hpair⟩, ?_⟩
                rintro a ha b (rfl | hb)
                · exact ⟨hnames a ha, hvalues a ha⟩
                · exact hearlier a (.inl ha) b hb
              · rintro ⟨⟨hvariant, hpair⟩, hearlier⟩
                refine ⟨hpair, ?_⟩
                rintro a (ha | rfl) b hb
                · exact hearlier a ha b (.inr hb)
                · exact hvariant b hb

theorem repetition?_nil_eq_none_iff {variants : List Variant} :
    repetition? [] variants = none ↔
      (variants.map Variant.name).Nodup ∧ (variants.map Variant.value).Nodup := by
  rw [repetition?_eq_none_iff, List.pairwise_and_iff, List.Nodup, List.Nodup, List.pairwise_map,
    List.pairwise_map]
  simp

/-! ### Derived types -/

theorem mapM_shiftVariant_eq_ok_iff {owner : String} {base : NamedType} {shift : Shift}
    {variants shifted : List Variant} :
    variants.mapM (shiftVariant owner base shift) = .ok shifted ↔
      (∀ variant ∈ variants, ∃ value, shift.apply variant.value = some value) ∧
        shifted = NamedSpec.shifted shift variants := by
  induction variants generalizing shifted with
  | nil => simp [NamedSpec.shifted, eq_comm]
  | cons variant rest ih =>
      rw [List.mapM_cons, bind_eq_ok_iff]
      simp only [bind_eq_ok_iff, ih, List.forall_mem_cons]
      cases happly : shift.apply variant.value with
      | none => simp [shiftVariant, happly]
      | some value =>
          simp [shiftVariant, happly, NamedSpec.shifted, @eq_comm _ shifted]

/-! ### Named types -/

variable {others : String → List Variant} {registry : Registry} {name : String} {spec : NamedSpec}

theorem variantsOf_of_listed (h : spec.Provided registry others)
    (hsmall : spec.variants.length < UInt32.size) (hspec : spec.derivation = none)
    {variants : List Variant} {derivation : Option Derivation} :
    registry.variantsOf name spec = .ok (variants, derivation) ↔
      (∀ i variant, spec.variants[i]? = some variant → spec.DefinedAt others i variant) ∧
        variants = spec.listed others ∧ derivation = none := by
  rw [variantsOf, hspec]
  simp only [bind_eq_ok_iff, NamedSpec.numberVariants_eq_ok_iff h hsmall, pure_eq_ok,
    Except.ok.injEq, Prod.mk.injEq]
  constructor
  · rintro ⟨_, ⟨hall, rfl⟩, rfl, rfl⟩
    exact ⟨hall, rfl, rfl⟩
  · rintro ⟨hall, rfl, rfl⟩
    exact ⟨_, ⟨hall, rfl⟩, rfl, rfl⟩

theorem variantsOf_of_derived {source : DerivationSpec} {base : NamedType}
    (hspec : spec.derivation = some source)
    (hbase : registry.namedType name source.base = .ok base) {variants : List Variant}
    {derivation : Option Derivation} :
    registry.variantsOf name spec = .ok (variants, derivation) ↔
      (spec.variants = [] ∧ ∀ variant ∈ base.variants, ∃ value,
        (⟨source.shiftLeft⟩ : Shift).apply variant.value = some value) ∧
        variants = NamedSpec.shifted ⟨source.shiftLeft⟩ base.variants ∧
        derivation = some ⟨source.base, ⟨source.shiftLeft⟩⟩ := by
  by_cases hempty : spec.variants = []
  · have hmap : registry.variantsOf name spec =
        (base.variants.mapM (shiftVariant name base ⟨source.shiftLeft⟩) >>= fun variants =>
          .ok (variants, some ⟨source.base, ⟨source.shiftLeft⟩⟩)) := by
      simp [variantsOf, hspec, hempty, hbase]
    rw [hmap, bind_eq_ok_iff]
    simp only [mapM_shiftVariant_eq_ok_iff, Except.ok.injEq, Prod.mk.injEq]
    constructor
    · rintro ⟨_, ⟨hall, rfl⟩, rfl, rfl⟩
      exact ⟨⟨hempty, hall⟩, rfl, rfl⟩
    · rintro ⟨⟨-, hall⟩, rfl, rfl⟩
      exact ⟨_, ⟨hall, rfl⟩, rfl, rfl⟩
  · simp [variantsOf, hspec, hempty]

theorem variantsOf_eq_ok_iff (h : spec.Provided registry others)
    (hsmall : spec.variants.length < UInt32.size) {variants : List Variant}
    {derivation : Option Derivation} :
    registry.variantsOf name spec = .ok (variants, derivation) ↔
      spec.Defined others ∧ variants = spec.variantsOver others ∧
        derivation = (spec.typeOver others name).derivation := by
  cases hspec : spec.derivation with
  | none =>
      rw [variantsOf_of_listed h hsmall hspec, NamedSpec.defined_iff_of_listed hspec]
      simp [NamedSpec.variantsOver, NamedSpec.typeOver, hspec]
  | some source =>
      obtain ⟨base, hbase, hvariants⟩ := h.namedType name (.base hspec)
      rw [variantsOf_of_derived hspec hbase, NamedSpec.defined_iff_of_derived hspec, hvariants]
      simp [NamedSpec.variantsOver, NamedSpec.typeOver, hspec]

theorem buildNamed_eq_ok_iff_variantsOf {type : NamedType} :
    registry.buildNamed name spec = .ok type ↔
      ∃ variants derivation, registry.variantsOf name spec = .ok (variants, derivation) ∧
        variants ≠ [] ∧ repetition? [] variants = none ∧
        type = ⟨name, spec.doc, variants, derivation⟩ := by
  rw [buildNamed, bind_eq_ok_iff, Prod.exists]
  refine exists_congr fun variants => exists_congr fun derivation => and_congr_right fun _ => ?_
  by_cases hempty : variants = []
  · simp [hempty]
  · cases hrepetition : repetition? [] variants with
    | none => simp [hempty, hrepetition, @eq_comm _ type]
    | some defect => simp [hempty, hrepetition]

/-- A named type is built exactly where its specification is sound. -/
theorem buildNamed_eq_ok_iff (h : spec.Provided registry others)
    (hsmall : spec.variants.length < UInt32.size)
    (hbase : ∀ derivation, spec.derivation = some derivation → others derivation.base ≠ [])
    {type : NamedType} :
    registry.buildNamed name spec = .ok type ↔
      spec.Sound others ∧ type = spec.typeOver others name := by
  rw [NamedSpec.sound_iff hbase, buildNamed_eq_ok_iff_variantsOf]
  constructor
  · rintro ⟨variants, derivation, hvariants, hne, hrepetition, rfl⟩
    obtain ⟨hdefined, rfl, rfl⟩ := (variantsOf_eq_ok_iff h hsmall).1 hvariants
    exact ⟨⟨hdefined, hne, repetition?_nil_eq_none_iff.1 hrepetition⟩, rfl⟩
  · rintro ⟨⟨hdefined, hne, hnodup⟩, rfl⟩
    exact ⟨_, _, (variantsOf_eq_ok_iff h hsmall).2 ⟨hdefined, rfl, rfl⟩, hne,
      repetition?_nil_eq_none_iff.2 hnodup, rfl⟩

/-! ### Failures -/

/-- A computation that fails only over the definition of one type. -/
def FailsOver (owner : String) {α : Type} (x : Except BuildError α) : Prop :=
  ∀ e, x = .error e → ∃ defect, e = .invalidDefinition owner defect

section Failures

variable {owner : String} {α β : Type}

theorem failsOver_ok (a : α) : FailsOver owner (.ok a : Except BuildError α) :=
  fun _ h => nomatch h

theorem failsOver_invalid (defect : Defect) :
    FailsOver owner (.error (.invalidDefinition owner defect) : Except BuildError α) :=
  fun _ h => ⟨defect, (Except.error.inj h).symm⟩

theorem FailsOver.bind {x : Except BuildError α} {f : α → Except BuildError β}
    (hx : FailsOver owner x) (hf : ∀ a, FailsOver owner (f a)) : FailsOver owner (x >>= f) := by
  cases x with
  | ok a => exact hf a
  | error e' =>
      intro e h
      obtain rfl : e' = e := Except.error.inj h
      exact hx e' rfl

theorem FailsOver.mapM {f : α → Except BuildError β} {xs : List α}
    (hf : ∀ x ∈ xs, FailsOver owner (f x)) : FailsOver owner (xs.mapM f) := by
  induction xs with
  | nil => exact failsOver_ok []
  | cons x xs ih =>
      rw [List.mapM_cons]
      have hrest := ih fun y hy => hf y (List.mem_cons_of_mem x hy)
      exact (hf x List.mem_cons_self).bind fun _ => hrest.bind fun _ => failsOver_ok _

end Failures

def Held (registry : Registry) (spec : NamedSpec) : Prop :=
  ∀ other, spec.RefersTo other → ∃ type, registry.get? other = some (.named type)

theorem Held.failsOver_namedType {other : String} (h : registry.Held spec)
    (hrefers : spec.RefersTo other) : FailsOver name (registry.namedType name other) := by
  obtain ⟨type, hget⟩ := h other hrefers
  rw [Registry.namedType, hget]
  exact failsOver_ok type

theorem failsOver_partValue (h : registry.Held spec) {variant : VariantSpec}
    (hvariant : variant ∈ spec.variants) {part : String} (hpart : part ∈ variant.combine)
    (earlier : List Variant) : FailsOver name (registry.partValue name earlier part) := by
  rw [partValue, splitReference?_eq]
  cases hsplit : qualified? part with
  | none =>
      simp only [pure_eq_ok, ok_bind]
      split
      · exact failsOver_ok _
      · exact failsOver_invalid _
  | some reference =>
      have hrefers : spec.RefersTo reference.1 :=
        .combination hvariant hpart (qualified?_eq_some_iff.1 hsplit)
      refine (h.failsOver_namedType hrefers).bind fun type => ?_
      simp only [pure_eq_ok, ok_bind]
      split
      · exact failsOver_ok _
      · exact failsOver_invalid _

theorem failsOver_combinedValue (h : registry.Held spec) {variant : VariantSpec}
    (hvariant : variant ∈ spec.variants) (earlier : List Variant) {parts : List String}
    (hparts : parts ⊆ variant.combine) :
    FailsOver name (registry.combinedValue name earlier parts) := by
  induction parts with
  | nil => exact failsOver_ok 0
  | cons part parts ih =>
      have hfirst : FailsOver name (registry.partValue name earlier part) :=
        failsOver_partValue h hvariant (hparts List.mem_cons_self) earlier
      have hrest := ih fun _ hp => hparts (List.mem_cons_of_mem part hp)
      exact hfirst.bind fun _ => hrest.bind fun _ => failsOver_ok _

theorem failsOver_variantValue (h : registry.Held spec) {variant : VariantSpec}
    (hvariant : variant ∈ spec.variants) (earlier : List Variant) (automatic : Nat) :
    FailsOver name (registry.variantValue name spec.numbering earlier automatic variant) := by
  unfold variantValue
  split
  · exact failsOver_invalid _
  · exact failsOver_ok _
  · next part parts _ _ hcombine =>
      exact failsOver_combinedValue h hvariant earlier (hcombine ▸ List.Subset.refl _)
  · split
    · exact failsOver_ok _
    · exact failsOver_invalid _
  · split
    · exact failsOver_ok _
    · exact failsOver_invalid _

theorem failsOver_numberVariants (h : registry.Held spec) {rest : List VariantSpec}
    (hrest : rest ⊆ spec.variants) (earlier : List Variant) (automatic : Nat) :
    FailsOver name (registry.numberVariants name spec.numbering earlier automatic rest) := by
  induction rest generalizing earlier automatic with
  | nil => exact failsOver_ok earlier
  | cons variant rest ih =>
      have hfirst : FailsOver name
          (registry.variantValue name spec.numbering earlier automatic variant) :=
        failsOver_variantValue h (hrest List.mem_cons_self) earlier automatic
      exact hfirst.bind fun _ => ih (fun _ hv => hrest (List.mem_cons_of_mem variant hv)) _ _

theorem failsOver_variantsOf (h : registry.Held spec) :
    FailsOver name (registry.variantsOf name spec) := by
  unfold variantsOf
  cases hderivation : spec.derivation with
  | none =>
      exact (failsOver_numberVariants h (List.Subset.refl _) [] 0).bind fun _ => failsOver_ok _
  | some derivation =>
      by_cases hempty : spec.variants = []
      · simp only [hempty, List.isEmpty_nil, not_true_eq_false, if_false]
        refine (h.failsOver_namedType (.base hderivation)).bind fun base => ?_
        refine FailsOver.bind (FailsOver.mapM fun variant _ => ?_) fun _ => failsOver_ok _
        unfold shiftVariant
        split
        · exact failsOver_ok _
        · exact failsOver_invalid _
      · simpa [hempty] using failsOver_invalid _

/-- Where everything it refers to is there, a type fails only over its own definition. -/
theorem failsOver_buildNamed (h : registry.Held spec) :
    FailsOver name (registry.buildNamed name spec) := by
  unfold buildNamed
  refine (failsOver_variantsOf h).bind fun built => ?_
  obtain ⟨variants, derivation⟩ := built
  by_cases hempty : variants = []
  · simpa [hempty] using failsOver_invalid _
  · cases hrepetition : repetition? [] variants with
    | none => simpa [hempty, hrepetition] using failsOver_ok _
    | some defect => simpa [hempty, hrepetition] using failsOver_invalid _

end Registry

end Bytecode

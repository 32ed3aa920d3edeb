import Bytecode.Proofs.Operand.Building

/-!
# Derived operand types

A derived type has the variants of its base under the same names. Their encodings are shifted in 64
bits, so that a product is seen to be too large only by the bits that are left of it: an encoding is
the exact product where the product fits 32 bits, and a product is let through in spite of its size
where all that is left of it fits. Encodings are shifted back in 32 bits.
-/

namespace Bytecode

namespace Shift

variable {shift : Shift} {value result : UInt32}

def product (shift : Shift) (value : UInt32) : Nat := value.toNat * 2 ^ shift.bits.toNat

theorem toNat_shiftLeft_toUInt64 (value : UInt32) (hbits : shift.bits.toNat < 64) :
    (value.toUInt64 <<< shift.bits.toUInt64).toNat = shift.product value % 2 ^ 64 := by
  rw [UInt64.toNat_shiftLeft, UInt32.toNat_toUInt64, UInt32.toNat_toUInt64,
    Nat.mod_eq_of_lt hbits, Nat.shiftLeft_eq, product]

/-- A shift gives what 64 bits hold of the product. -/
theorem apply_eq_some_iff :
    shift.apply value = some result ↔
      shift.bits.toNat < 64 ∧ result.toNat = shift.product value % 2 ^ 64 := by
  unfold apply
  by_cases hbits : shift.bits < 64
  · have hlt : shift.bits.toNat < 64 := UInt32.lt_iff_toNat_lt.1 hbits
    have hshifted := toNat_shiftLeft_toUInt64 value hlt
    have hresult : result.toNat < 2 ^ 32 := result.toNat_lt
    simp only [hbits, if_true, hlt, true_and]
    split
    · next hle =>
        have hsmall : shift.product value % 2 ^ 64 ≤ 0xffffffff := by
          rw [← hshifted]
          exact UInt64.le_iff_toNat_le.1 hle
        rw [Option.some.injEq, ← UInt32.toNat_inj, UInt64.toNat_toUInt32, hshifted]
        omega
    · next hle =>
        have hlarge : ¬ shift.product value % 2 ^ 64 ≤ 0xffffffff := by
          rw [← hshifted]
          exact fun hle' => hle (UInt64.le_iff_toNat_le.2 hle')
        simp only [reduceCtorEq, false_iff]
        omega
  · have hge : ¬ shift.bits.toNat < 64 := fun hlt => hbits (UInt32.lt_iff_toNat_lt.2 hlt)
    simp [hbits, hge]

/-- The product does not fit, and 64 bits show it. -/
def Overflows (shift : Shift) (value : UInt32) : Prop :=
  64 ≤ shift.bits.toNat ∨ 2 ^ 32 ≤ shift.product value % 2 ^ 64

theorem not_overflows_of_apply (h : shift.apply value = some result) : ¬ shift.Overflows value := by
  obtain ⟨hbits, hresult⟩ := apply_eq_some_iff.1 h
  have hlt : result.toNat < 2 ^ 32 := result.toNat_lt
  unfold Overflows
  omega

theorem toNat_eq_product_iff (h : shift.apply value = some result) :
    result.toNat = shift.product value ↔ shift.product value < 2 ^ 32 := by
  obtain ⟨-, hresult⟩ := apply_eq_some_iff.1 h
  have hlt : result.toNat < 2 ^ 32 := result.toNat_lt
  constructor
  · intro hexact
    omega
  · intro hfits
    rw [hresult]
    exact Nat.mod_eq_of_lt (by omega)

/-! ### Shifting back -/

theorem product_lt (value : UInt32) (hbits : shift.bits.toNat < 32) :
    shift.product value < 2 ^ 64 := by
  have hpower : 2 ^ shift.bits.toNat ≤ 2 ^ 31 := Nat.pow_le_pow_right (by decide) (by omega)
  have hvalue : value.toNat < 2 ^ 32 := value.toNat_lt
  calc shift.product value ≤ value.toNat * 2 ^ 31 := Nat.mul_le_mul_left _ hpower
    _ < 2 ^ 64 := by omega

theorem shiftRight_eq_of_apply (hbits : shift.bits.toNat < 32)
    (h : shift.apply value = some result) : result >>> shift.bits = value := by
  have hresult : result.toNat = shift.product value := by
    rw [(apply_eq_some_iff.1 h).2, Nat.mod_eq_of_lt (product_lt value hbits)]
  apply UInt32.toNat_inj.1
  rw [UInt32.toNat_shiftRight, Nat.mod_eq_of_lt hbits, Nat.shiftRight_eq_div_pow, hresult, product,
    Nat.mul_div_cancel _ (Nat.two_pow_pos _)]

/-- Shifting back undoes a shift of less than 32 bits, and no other. -/
theorem invert_eq_some_iff :
    shift.invert result = some value ↔
      shift.bits.toNat < 32 ∧ shift.apply value = some result := by
  unfold invert
  by_cases hbits : shift.bits < 32
  · have hlt : shift.bits.toNat < 32 := UInt32.lt_iff_toNat_lt.1 hbits
    simp only [hbits, if_true, hlt, true_and, Option.ite_none_right_eq_some, Option.some.injEq]
    constructor
    · intro ⟨happly, hrestored⟩
      rwa [hrestored] at happly
    · intro happly
      have hrestored := shiftRight_eq_of_apply hlt happly
      exact ⟨by rwa [hrestored], hrestored⟩
  · have hge : ¬ shift.bits.toNat < 32 := fun hlt => hbits (UInt32.lt_iff_toNat_lt.2 hlt)
    simp [hbits, hge]

/-- From 32 bits on, a shift gives zero alone, where all bits leave the word of 64. -/
theorem apply_eq_some_iff_of_le (hbits : 32 ≤ shift.bits.toNat) :
    shift.apply value = some result ↔
      shift.bits.toNat < 64 ∧ result = 0 ∧ 2 ^ 64 ∣ shift.product value := by
  have hresult : result.toNat < 2 ^ 32 := result.toNat_lt
  have hproduct : 2 ^ 32 ∣ shift.product value :=
    Nat.dvd_mul_left_of_dvd (Nat.pow_dvd_pow 2 hbits) value.toNat
  rw [apply_eq_some_iff, ← UInt32.toNat_inj]
  show _ ∧ _ ↔ _ ∧ result.toNat = 0 ∧ _
  omega

/-- Shifting back is the inverse of shifting by less than 32 bits. The two differ where a shift by
more gives zero, which nothing is shifted back from. -/
theorem invert_inverse_iff (shift : Shift) (value result : UInt32) :
    (shift.invert result = some value ↔
      shift.bits.toNat < 32 ∧ shift.apply value = some result) ∧
    (¬ (shift.apply value = some result ↔ shift.invert result = some value) ↔
      32 ≤ shift.bits.toNat ∧ shift.bits.toNat < 64 ∧ result = 0 ∧
        2 ^ 64 ∣ value.toNat * 2 ^ shift.bits.toNat) := by
  refine ⟨invert_eq_some_iff, ?_⟩
  rw [invert_eq_some_iff]
  by_cases hbits : shift.bits.toNat < 32
  · simp only [hbits, true_and, iff_self, not_true_eq_false, false_iff, not_and]
    omega
  · have hle : 32 ≤ shift.bits.toNat := Nat.le_of_not_lt hbits
    simp only [hbits, false_and, iff_false, not_not, hle, true_and]
    exact apply_eq_some_iff_of_le hle

theorem invert_shifted_zero : (⟨32⟩ : Shift).apply 0 = some 0 ∧ (⟨32⟩ : Shift).invert 0 = none := by
  decide

end Shift

def NamedType.IsShiftOf (shift : Shift) (base derived : NamedType) : Prop :=
  List.Forall₂ (fun original shifted => shifted.name = original.name ∧
    shifted.doc = original.doc ∧ shift.apply original.value = some shifted.value)
    base.variants derived.variants

theorem NamedType.IsShiftOf.names_eq {shift : Shift} {base derived : NamedType}
    (h : IsShiftOf shift base derived) :
    derived.variants.map Variant.name = base.variants.map Variant.name :=
  (map_eq_map_of_forall₂ h fun _ _ hvariant => hvariant.1.symm).symm

namespace Registry

variable {specs : NameMap OpargSpec} {registry registry' before : Registry}
  {names front back : List String} {name : String} {spec : NamedSpec} {source : DerivationSpec}
  {base type : NamedType} {variant shifted : Variant}

/-! ### One derived type -/

theorem shiftVariant_eq_ok_iff {shift : Shift} :
    shiftVariant name base shift variant = .ok shifted ↔
      shifted.name = variant.name ∧ shifted.doc = variant.doc ∧
        shift.apply variant.value = some shifted.value := by
  unfold shiftVariant
  cases shift.apply variant.value with
  | none => simp
  | some value =>
      obtain ⟨name, value', doc⟩ := shifted
      simp [Variant.mk.injEq, eq_comm, and_comm]

theorem get?_of_namedType {owner other : String} (h : registry.namedType owner other = .ok type) :
    registry.get? other = some (.named type) := by
  unfold Registry.namedType at h
  split at h
  · next found hfound =>
      obtain rfl := Except.ok.inj h
      obtain ⟨held, hheld, hnamed⟩ := Option.bind_eq_some_iff.1 hfound
      cases held with
      | aliased type => cases hnamed
      | named type =>
          obtain rfl := Option.some.inj hnamed
          exact hheld
  · cases h

theorem exists_base_of_buildNamed (hsource : spec.derivation = some source)
    (h : registry.buildNamed name spec = .ok type) :
    ∃ base, registry.get? source.base = some (.named base) ∧
      type.derivation = some ⟨source.base, ⟨source.shiftLeft⟩⟩ ∧
      NamedType.IsShiftOf ⟨source.shiftLeft⟩ base type := by
  obtain ⟨variants, derivation, hvariants, -, -, rfl⟩ := buildNamed_eq_ok_iff_variantsOf.1 h
  by_cases hlisted : spec.variants = []
  · simp only [variantsOf, hsource, hlisted, List.isEmpty_nil, not_true_eq_false, if_false,
      pure_eq_ok, bind_eq_ok_iff, Except.ok.injEq, Prod.mk.injEq] at hvariants
    obtain ⟨base, hbase, shifted, hshifted, rfl, rfl⟩ := hvariants
    refine ⟨base, get?_of_namedType hbase, rfl, ?_⟩
    exact (mapM_eq_ok_iff.1 hshifted).imp fun _ _ => shiftVariant_eq_ok_iff.1
  · simp [variantsOf, hsource, hlisted] at hvariants

/-- Over a finished base, a shift that does not fit stops the type. -/
theorem buildNamed_of_overflows (hheld : registry.Held spec) (hsource : spec.derivation = some source)
    (hbase : registry.get? source.base = some (.named base)) (hvariant : variant ∈ base.variants)
    (hoverflows : (⟨source.shiftLeft⟩ : Shift).Overflows variant.value) :
    ∃ defect, registry.buildNamed name spec = .error (.invalidDefinition name defect) := by
  cases hbuild : registry.buildNamed name spec with
  | error e =>
      obtain ⟨defect, rfl⟩ := failsOver_buildNamed hheld e hbuild
      exact ⟨defect, rfl⟩
  | ok type =>
      obtain ⟨other, hother, -, hshift⟩ := exists_base_of_buildNamed hsource hbuild
      obtain rfl : base = other := by simpa [hbase] using hother
      obtain ⟨shifted, -, -, -, happly⟩ := exists_of_forall₂ hshift.flip hvariant
      exact absurd hoverflows (Shift.not_overflows_of_apply happly)

/-! ### All derived types -/

/-- Every derived type called in `front` is finished beside its base, whose encodings it shifts. -/
structure Derived (specs : NameMap OpargSpec) (front : List String) (registry : Registry) :
    Prop extends Finished specs front registry where
  derived : ∀ name ∈ front, ∀ spec source, specs.get? name = some (.named spec) →
    spec.derivation = some source → ∃ base type,
      registry.get? source.base = some (.named base) ∧ registry.get? name = some (.named type) ∧
        type.derivation = some ⟨source.base, ⟨source.shiftLeft⟩⟩ ∧
        NamedType.IsShiftOf ⟨source.shiftLeft⟩ base type

theorem derived_nil : Derived specs [] {} where
  toFinished := finished_nil
  derived := fun _ h => absurd h List.not_mem_nil

theorem get?_push_of_eq_some {type added : OpargType} (h : registry.get? name = some type) :
    (⟨registry.types ++ [added]⟩ : Registry).get? name = some type := by
  rw [get?_push, h, Option.some_or]

theorem Derived.step (h : Derived specs front registry) (hfinishing : Finishing specs names)
    (hsplit : names = front ++ name :: back)
    (hstep : build.addType specs registry name = .ok registry') :
    Derived specs (front ++ [name]) registry' := by
  refine ⟨h.toFinished.step hfinishing hsplit hstep, ?_⟩
  obtain ⟨added, hadded⟩ := hfinishing.exists_spec hsplit
  obtain ⟨type, htype, rfl⟩ := (addType_eq_ok_iff hadded).1 hstep
  intro other hother spec source hspec hsource
  rcases List.mem_append.1 hother with hother | hother
  · obtain ⟨base, derived, hbase, hderived, hshift⟩ := h.derived other hother spec source hspec hsource
    exact ⟨base, derived, get?_push_of_eq_some hbase, get?_push_of_eq_some hderived, hshift⟩
  · obtain rfl : other = name := List.mem_singleton.1 hother
    obtain rfl := Option.some.inj (hadded.symm.trans hspec)
    have hcalled : type.name = other := name_of_buildType htype
    rw [buildType, bind_eq_ok_iff] at htype
    obtain ⟨built, hbuilt, hend⟩ := htype
    obtain rfl : OpargType.named built = type := Except.ok.inj hend
    obtain ⟨base, hbase, hshift⟩ := exists_base_of_buildNamed hsource hbuilt
    have hnew := h.get?_eq_none (hfinishing.notMem_front hsplit)
    refine ⟨base, built, get?_push_of_eq_some hbase, ?_, hshift⟩
    rw [get?_push, hnew, Option.none_or, if_pos hcalled]

theorem derived_of_foldlM (hfinishing : Finishing specs names)
    (h : names.foldlM (build.addType specs) {} = .ok registry) : Derived specs names registry :=
  foldlM_induction h derived_nil fun _ _ _ _ _ hsplit ht hstep => ht.step hfinishing hsplit hstep

theorem finished_of_foldlM_front (hfinishing : Finishing specs (front ++ back))
    (h : front.foldlM (build.addType specs) {} = .ok before) : Finished specs front before :=
  foldlM_induction h finished_nil fun _ _ _ _ _ hsplit ht hstep =>
    ht.step hfinishing (by rw [hsplit, List.append_assoc, List.cons_append]) hstep

def FinishedBefore (specs : NameMap OpargSpec) (name : String) (before : Registry) : Prop :=
  ∃ front back, finishingOrder specs = .ok (front ++ name :: back) ∧
    front.foldlM (build.addType specs) {} = .ok before

theorem FinishedBefore.held (h : FinishedBefore specs name before)
    (hspec : specs.get? name = some (.named spec)) : before.Held spec := by
  obtain ⟨front, back, horder, hfront⟩ := h
  have hfinishing := finishing_of_finishingOrder horder
  exact (finished_of_foldlM_front hfinishing hfront).held hfinishing rfl hspec

/-- A type that fails over the types before it stops the building. -/
theorem FinishedBefore.build_eq_error (h : FinishedBefore specs name before)
    (hspec : specs.get? name = some (.named spec)) {e : BuildError}
    (hfails : before.buildNamed name spec = .error e) : build specs = .error e := by
  obtain ⟨front, back, horder, hfront⟩ := h
  have hstep : build.addType specs before name = .error e := by
    simp [build.addType, hspec, buildType, hfails]
  rw [build, horder, ok_bind, List.foldlM_append, hfront, ok_bind, List.foldlM_cons, hstep,
    error_bind]

/-- A derived type has the variants of its base, and an encoding is the product that its shift
stands for exactly where that product fits 32 bits. A product that 64 bits show not to fit stops the
building; one whose low 64 bits fit 32 does not. -/
theorem derived_encoding_exact_iff (hspec : specs.get? name = some (.named spec))
    (hsource : spec.derivation = some source) :
    (∀ registry, build specs = .ok registry → ∃ base derived,
      registry.get? source.base = some (.named base) ∧
      registry.get? name = some (.named derived) ∧
      derived.derivation = some ⟨source.base, ⟨source.shiftLeft⟩⟩ ∧
      derived.variants.map Variant.name = base.variants.map Variant.name ∧
      ∀ (i : Nat) original shifted, base.variants[i]? = some original →
        derived.variants[i]? = some shifted →
        (shifted.value.toNat = original.value.toNat * 2 ^ source.shiftLeft.toNat ↔
          original.value.toNat * 2 ^ source.shiftLeft.toNat < 2 ^ 32) ∧
        shifted.value.toNat = original.value.toNat * 2 ^ source.shiftLeft.toNat % 2 ^ 64) ∧
    ∀ before base, FinishedBefore specs name before →
      before.get? source.base = some (.named base) →
      (∃ variant ∈ base.variants, 64 ≤ source.shiftLeft.toNat ∨
        2 ^ 32 ≤ variant.value.toNat * 2 ^ source.shiftLeft.toNat % 2 ^ 64) →
      ∃ defect, build specs = .error (.invalidDefinition name defect) := by
  constructor
  · intro registry hbuild
    rw [build, bind_eq_ok_iff] at hbuild
    obtain ⟨names, horder, hfold⟩ := hbuild
    have hfinishing := finishing_of_finishingOrder horder
    have hmem : name ∈ names := hfinishing.perm.mem_iff.2 (NameMap.mem_names_iff.2 ⟨_, hspec⟩)
    obtain ⟨base, derived, hbase, hderived, hderivation, hshift⟩ :=
      (derived_of_foldlM hfinishing hfold).derived name hmem spec source hspec hsource
    refine ⟨base, derived, hbase, hderived, hderivation, hshift.names_eq, ?_⟩
    intro i original shifted horiginal hshifted
    obtain ⟨_, hsame, -, -, happly⟩ := exists_getElem?_of_forall₂ hshift horiginal
    obtain rfl := Option.some.inj (hshifted.symm.trans hsame)
    exact ⟨Shift.toNat_eq_product_iff happly, (Shift.apply_eq_some_iff.1 happly).2⟩
  · rintro before base hbefore hbase ⟨variant, hvariant, hoverflows⟩
    have hfails : ∃ defect, before.buildNamed name spec = .error (.invalidDefinition name defect) :=
      buildNamed_of_overflows (hbefore.held hspec) hsource hbase hvariant hoverflows
    obtain ⟨defect, herror⟩ := hfails
    exact ⟨defect, hbefore.build_eq_error hspec herror⟩

/-- A bit in the lowest place, moved up twice. -/
def placeSpecs : NameMap OpargSpec := .ofList [
  ("High", .named { derivation := some ⟨"Middle", 23⟩ }),
  ("Low", .named {
    variants := [{ name := "Unset", value := some 0 }, { name := "Set", value := some 1 }] }),
  ("Middle", .named { derivation := some ⟨"Low", 8⟩ })]

theorem derived_encoding_exact_iff_placeSpecs :
    ∃ registry derived, build placeSpecs = .ok registry ∧
      registry.get? "High" = some (.named derived) ∧
      derived.variants.map Variant.name = ["Unset", "Set"] ∧
      ∀ shifted, derived.variants[1]? = some shifted → shifted.value.toNat = 256 * 2 ^ 23 := by
  have hspec : placeSpecs.get? "High" = some (.named { derivation := some ⟨"Middle", 23⟩ }) := by
    decide
  have hbuild : build placeSpecs = .ok ⟨[
      .named ⟨"Low", none, [⟨"Unset", 0, none⟩, ⟨"Set", 1, none⟩], none⟩,
      .named ⟨"Middle", none, [⟨"Unset", 0, none⟩, ⟨"Set", 256, none⟩], some ⟨"Low", ⟨8⟩⟩⟩,
      .named ⟨"High", none, [⟨"Unset", 0, none⟩, ⟨"Set", 0x80000000, none⟩],
        some ⟨"Middle", ⟨23⟩⟩⟩]⟩ := by cbv
  obtain ⟨base, derived, hbase, hderived, -, hnames, hvalues⟩ :=
    (derived_encoding_exact_iff hspec rfl).1 _ hbuild
  obtain rfl : _ = base := OpargType.named.inj (Option.some.inj hbase)
  exact ⟨_, derived, hbuild, hderived, hnames, fun shifted hshifted =>
    (hvalues 1 _ shifted rfl hshifted).1.2 (by decide)⟩

/-- The highest bit, moved out of 64 bits. -/
def lostSpecs : NameMap OpargSpec := .ofList [
  ("Flag", .named { variants := [{ name := "High", value := some 0x80000000 }] }),
  ("Moved", .named { derivation := some ⟨"Flag", 33⟩ })]

/-- A product beyond 64 bits is not noticed, and its encoding is not the product. -/
theorem derived_encoding_lost :
    ∃ registry base derived original shifted, build lostSpecs = .ok registry ∧
      registry.get? "Flag" = some (.named base) ∧ registry.get? "Moved" = some (.named derived) ∧
      derived.derivation = some ⟨"Flag", ⟨33⟩⟩ ∧
      base.variants[0]? = some original ∧ derived.variants[0]? = some shifted ∧
      2 ^ 32 ≤ original.value.toNat * 2 ^ 33 ∧
      shifted.value.toNat ≠ original.value.toNat * 2 ^ 33 := by
  have hbuild : build lostSpecs = .ok ⟨[
      .named ⟨"Flag", none, [⟨"High", 0x80000000, none⟩], none⟩,
      .named ⟨"Moved", none, [⟨"High", 0, none⟩], some ⟨"Flag", ⟨33⟩⟩⟩]⟩ := by cbv
  exact ⟨_, _, _, _, _, hbuild, rfl, rfl, rfl, rfl, rfl, by decide, by decide⟩

end Registry

end Bytecode

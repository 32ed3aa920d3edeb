import Bytecode.Proofs.Operand.Building

/-!
# Encodings of operands

An operand and its raw value determine each other, because no two variants of a finished type share
an encoding. The raw values that stand for no operand are those outside the domain of the type.
-/

namespace Bytecode

theorem Width.fits_iff {width : Width} {value : UInt32} :
    width.fits value = true ↔ value.toNat < 2 ^ (8 * width.bytes) := by
  rw [fits, decide_eq_true_iff, UInt32.le_iff_toNat_le]
  cases width
  · exact Nat.lt_succ_iff.symm
  · exact Nat.lt_succ_iff.symm
  · exact Nat.lt_succ_iff.symm

namespace NamedType

variable {type : NamedType} {raw : UInt32} {index : Nat}

theorem decode?_eq_none_iff :
    type.decode? raw = none ↔ ¬ ∃ variant ∈ type.variants, variant.value = raw := by
  simp [decode?]

theorem encode?_of_decode? (h : type.decode? raw = some index) :
    type.encode? index = some raw := by
  obtain ⟨hlt, hvalue, -⟩ := List.findIdx?_eq_some_iff_getElem.1 h
  rw [encode?, List.getElem?_eq_getElem hlt, Option.map_some, of_decide_eq_true hvalue]

theorem decode?_of_encode? (hnodup : (type.variants.map Variant.value).Nodup)
    (h : type.encode? index = some raw) : type.decode? raw = some index := by
  cases hfound : type.decode? raw with
  | none =>
      obtain ⟨variant, hvariant, rfl⟩ := Option.map_eq_some_iff.1 h
      exact absurd ⟨variant, List.mem_of_getElem? hvariant, rfl⟩ (decode?_eq_none_iff.1 hfound)
  | some other =>
      have hother : type.encode? other = some raw := encode?_of_decode? hfound
      rw [encode?, ← List.getElem?_map] at h hother
      have hlt : other < (type.variants.map Variant.value).length :=
        (List.getElem?_eq_some_iff.1 hother).1
      exact congrArg some ((List.getElem?_inj hlt hnodup).1 (hother.trans h.symm))

end NamedType

namespace OpargType

/-- The raw values that stand for an operand of a type. -/
def Holds : OpargType → UInt32 → Prop
  | aliased type, raw => raw.toNat < 2 ^ (8 * type.width.bytes)
  | named type, raw => ∃ variant ∈ type.variants, variant.value = raw

def Unambiguous : OpargType → Prop
  | aliased _ => True
  | named type => (type.variants.map Variant.value).Nodup

variable {type : OpargType} {raw : UInt32} {value : OpargValue} {e : DecodeError}

theorem decode?_eq_none_iff : type.decode? raw = none ↔ ¬ type.Holds raw := by
  cases type with
  | aliased type => simp [decode?, Holds, Width.fits_iff]
  | named type => simp only [decode?, Option.map_eq_none_iff, NamedType.decode?_eq_none_iff, Holds]

theorem encode?_of_decode? (h : type.decode? raw = some value) : type.encode? value = some raw := by
  cases type with
  | aliased type =>
      by_cases hfits : type.width.fits raw = true
      · obtain rfl : OpargValue.raw raw = value := by simpa [decode?, hfits] using h
        simp [encode?, hfits]
      · simp [decode?, hfits] at h
  | named type =>
      obtain ⟨index, hindex, rfl⟩ := Option.map_eq_some_iff.1 h
      simp [encode?, NamedType.encode?_of_decode? hindex]

theorem decode?_of_encode? (hunambiguous : type.Unambiguous) (h : type.encode? value = some raw) :
    type.decode? raw = some value := by
  cases type with
  | aliased type =>
      cases value with
      | raw encoding =>
          by_cases hfits : type.width.fits encoding = true
          · obtain rfl : encoding = raw := by simpa [encode?, hfits] using h
            simp [decode?, hfits]
          · simp [encode?, hfits] at h
      | variant index encoding => cases h
  | named type =>
      cases value with
      | raw encoding => cases h
      | variant index encoding =>
          by_cases hencoding : type.encode? index = some encoding
          · obtain rfl : encoding = raw := by simpa [encode?, hencoding] using h
            simp [decode?, NamedType.decode?_of_encode? hunambiguous hencoding]
          · simp [encode?, hencoding] at h

theorem decode_eq_ok_iff_encode (h : type.Unambiguous) :
    type.decode raw = .ok value ↔ type.encode value = .ok raw := by
  have hdecode : type.decode raw = .ok value ↔ type.decode? raw = some value := by
    unfold decode
    split <;> simp [*]
  have hencode : type.encode value = .ok raw ↔ type.encode? value = some raw := by
    unfold encode
    split <;> simp [*]
  rw [hdecode, hencode]
  exact ⟨encode?_of_decode?, decode?_of_encode? h⟩

theorem decode_eq_error_iff :
    type.decode raw = .error e ↔ e = .invalidOperand type.name raw ∧ ¬ type.Holds raw := by
  rw [← decode?_eq_none_iff, decode]
  cases type.decode? raw with
  | none => simp [eq_comm]
  | some value => simp

theorem eq_of_encode_eq_error (h : type.encode value = .error e) :
    e = .invalidOperand type.name value.encoding := by
  unfold encode at h
  split at h
  · cases h
  · exact (Except.error.inj h).symm

end OpargType

namespace Registry

variable {specs : NameMap OpargSpec} {registry registry' : Registry} {name oparg : String}
  {type : OpargType} {raw : UInt32} {value : OpargValue} {e : DecodeError}

theorem unambiguous_of_buildType {spec : OpargSpec} (h : registry.buildType name spec = .ok type) :
    type.Unambiguous := by
  cases spec with
  | aliased spec =>
      cases h
      trivial
  | named spec =>
      rw [buildType, bind_eq_ok_iff] at h
      obtain ⟨built, hbuilt, hend⟩ := h
      obtain ⟨variants, derivation, -, -, hrepetition, rfl⟩ :=
        buildNamed_eq_ok_iff_variantsOf.1 hbuilt
      cases hend
      exact (repetition?_nil_eq_none_iff.1 hrepetition).2

theorem nodup_variantNames_of_buildType {spec : OpargSpec} {named : NamedType}
    (h : registry.buildType name spec = .ok (.named named)) :
    (named.variants.map Variant.name).Nodup := by
  cases spec with
  | aliased spec => cases h
  | named spec =>
      rw [buildType, bind_eq_ok_iff] at h
      obtain ⟨built, hbuilt, hend⟩ := h
      obtain ⟨variants, derivation, -, -, hrepetition, rfl⟩ :=
        buildNamed_eq_ok_iff_variantsOf.1 hbuilt
      cases hend
      exact (repetition?_nil_eq_none_iff.1 hrepetition).1

/-- What holds of every finished type holds of all types of a built registry. -/
theorem forall_of_build {P : OpargType → Prop} (h : build specs = .ok registry)
    (hfinished : ∀ registry name spec type, buildType registry name spec = .ok type → P type) :
    ∀ type ∈ registry.types, P type := by
  rw [build, bind_eq_ok_iff] at h
  obtain ⟨names, -, hfold⟩ := h
  refine foldlM_induction (P := fun _ t => ∀ type ∈ t.types, P type) hfold
    (fun _ h => absurd h List.not_mem_nil) ?_
  intro front name back t t' _ ht hstep
  cases hspec : specs.get? name with
  | none =>
      rw [build.addType, hspec] at hstep
      cases hstep
      exact ht
  | some spec =>
      obtain ⟨type, htype, rfl⟩ := (addType_eq_ok_iff hspec).1 hstep
      intro other hother
      rcases List.mem_append.1 hother with hother | hother
      · exact ht other hother
      · rw [List.mem_singleton.1 hother]
        exact hfinished _ _ _ _ htype

theorem unambiguous_of_build (h : build specs = .ok registry) :
    ∀ type ∈ registry.types, type.Unambiguous :=
  forall_of_build h fun _ _ _ _ => unambiguous_of_buildType

theorem nodup_variantNames_of_build (h : build specs = .ok registry) {named : NamedType}
    (hnamed : .named named ∈ registry.types) : (named.variants.map Variant.name).Nodup :=
  forall_of_build (P := fun type => ∀ named, type = .named named →
      (named.variants.map Variant.name).Nodup) h
    (fun _ _ _ _ htype _ heq => nodup_variantNames_of_buildType (heq ▸ htype)) _ hnamed named rfl

theorem name_of_get? (h : registry.get? oparg = some type) : type.name = oparg := by
  simpa using List.find?_some h

theorem decode_eq_ok_iff_encode (h : ∀ type ∈ registry.types, type.Unambiguous)
    (htype : registry.get? oparg = some type) :
    registry.decode oparg raw = .ok value ↔ registry.encode oparg value = .ok raw := by
  rw [Registry.decode, Registry.encode, htype]
  exact OpargType.decode_eq_ok_iff_encode (h type (List.mem_of_find?_eq_some htype))

theorem decode_eq_error_iff (htype : registry.get? oparg = some type) :
    registry.decode oparg raw = .error e ↔ e = .invalidOperand oparg raw ∧ ¬ type.Holds raw := by
  rw [Registry.decode, htype, ← name_of_get? htype]
  exact OpargType.decode_eq_error_iff

/-- The raw values that are decoded are those of the type. -/
theorem exists_decode_eq_ok_iff :
    (∃ value, registry.decode oparg raw = .ok value) ↔
      ∃ type, registry.get? oparg = some type ∧ type.Holds raw := by
  cases htype : registry.get? oparg with
  | none => simp [Registry.decode, htype]
  | some type =>
      cases hdecode : registry.decode oparg raw with
      | ok value =>
          have hholds : type.Holds raw := by
            by_contra hnot
            have herror := (decode_eq_error_iff htype).2 ⟨rfl, hnot⟩
            rw [hdecode] at herror
            cases herror
          simp [hholds]
      | error e =>
          have hnot := ((decode_eq_error_iff htype).1 hdecode).2
          simp [hnot]

theorem eq_of_decode_eq_error (h : registry.decode oparg raw = .error e) :
    e = .invalidOperand oparg raw := by
  cases htype : registry.get? oparg with
  | none =>
      rw [Registry.decode, htype] at h
      exact (Except.error.inj h).symm
  | some type => exact ((decode_eq_error_iff htype).1 h).1

theorem eq_of_encode_eq_error (h : registry.encode oparg value = .error e) :
    e = .invalidOperand oparg value.encoding := by
  cases htype : registry.get? oparg with
  | none =>
      rw [Registry.encode, htype] at h
      exact (Except.error.inj h).symm
  | some type =>
      rw [Registry.encode, htype] at h
      rw [OpargType.eq_of_encode_eq_error h, name_of_get? htype]

/-- In a built registry the operands of a type and its raw values determine each other. The raw
values are those that fit the width of an alias and the encodings of a named type; whatever else is
asked for, the answer is that the operand is invalid. -/
theorem encode_eq_ok_iff_decode (h : build specs = .ok registry) (name : String) (raw : UInt32)
    (value : OpargValue) :
    (registry.encode name value = .ok raw ↔ registry.decode name raw = .ok value) ∧
    ((∃ operand, registry.decode name raw = .ok operand) ↔
      (∃ type, registry.get? name = some (.aliased type) ∧
        raw.toNat < 2 ^ (8 * type.width.bytes)) ∨
      ∃ type, registry.get? name = some (.named type) ∧
        ∃ variant ∈ type.variants, variant.value = raw) ∧
    (∀ e, registry.decode name raw = .error e → e = .invalidOperand name raw) ∧
    ∀ e, registry.encode name value = .error e → e = .invalidOperand name value.encoding := by
  refine ⟨?_, ?_, fun e => eq_of_decode_eq_error, fun e => eq_of_encode_eq_error⟩
  · cases htype : registry.get? name with
    | none => simp [Registry.decode, Registry.encode, htype]
    | some type => exact (decode_eq_ok_iff_encode (unambiguous_of_build h) htype).symm
  · rw [exists_decode_eq_ok_iff]
    cases htype : registry.get? name with
    | none => simp
    | some type => cases type <;> simp [OpargType.Holds]

/-- Two flags joined and shifted have an encoding, and a value between the shifted ones has none. -/
theorem encode_eq_ok_iff_decode_permissionSpecs :
    ∃ registry, build permissionSpecs = .ok registry ∧
      registry.encode "Shifted" (.variant 2 48) = .ok 48 ∧
      ∀ value, registry.encode "Shifted" value ≠ .ok 17 := by
  have hrun : (build permissionSpecs).toOption.map (fun registry =>
      (registry.decode "Shifted" 48, registry.decode "Shifted" 17)) =
      some (.ok (.variant 2 48), .error (.invalidOperand "Shifted" 17)) := by cbv
  cases hbuild : build permissionSpecs with
  | error e => simp [hbuild, Except.toOption] at hrun
  | ok registry =>
      obtain ⟨hdecode, hfails⟩ : registry.decode "Shifted" 48 = .ok (.variant 2 48) ∧
          registry.decode "Shifted" 17 = .error (.invalidOperand "Shifted" 17) := by
        simpa [hbuild, Except.toOption] using hrun
      refine ⟨registry, rfl, ?_, fun value hencode => ?_⟩
      · exact (encode_eq_ok_iff_decode hbuild "Shifted" 48 _).1.2 hdecode
      · have hother := (encode_eq_ok_iff_decode hbuild "Shifted" 17 value).1.1 hencode
        rw [hfails] at hother
        cases hother

end Registry

end Bytecode

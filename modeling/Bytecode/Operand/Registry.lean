import Bytecode.Operand.Dependency
import Bytecode.Operand.Type
import Bytecode.Table

/-!
# The registry of operand types

The operand types of a table, finished in dependency order: a type is complete before any type that
is derived from it or combines its encodings.
-/

namespace Bytecode

/-- Finished types in dependency order; their names differ. -/
structure Registry where
  types : List OpargType := []
  deriving DecidableEq, Repr

namespace Registry

def get? (registry : Registry) (name : String) : Option OpargType :=
  registry.types.find? fun type => type.name = name

def contains (registry : Registry) (name : String) : Bool := (registry.get? name).isSome

def size (registry : Registry) : Nat := registry.types.length

def isEmpty (registry : Registry) : Bool := registry.types.isEmpty

def aliases (registry : Registry) : List AliasType := registry.types.filterMap OpargType.asAlias?

def named (registry : Registry) : List NamedType := registry.types.filterMap OpargType.asNamed?

def namedType (registry : Registry) (owner name : String) : Except BuildError NamedType :=
  match (registry.get? name).bind OpargType.asNamed? with
  | some type => .ok type
  | none => .error (.missingOpargType name owner)

def decode (registry : Registry) (name : String) (raw : UInt32) :
    Except DecodeError OpargValue :=
  match registry.get? name with
  | some type => type.decode raw
  | none => .error (.invalidOperand name raw)

def encode (registry : Registry) (name : String) (value : OpargValue) :
    Except DecodeError UInt32 :=
  match registry.get? name with
  | some type => type.encode value
  | none => .error (.invalidOperand name value.encoding)

/-! ### References -/

/-- The type and the variant of a reference with a dot; the first dot divides it. -/
def splitReference? (part : String) : Option (String × String) :=
  let cs := part.toList
  match cs.dropWhile fun c => c ≠ '.' with
  | [] => none
  | _ :: variant => some (String.ofList (cs.takeWhile fun c => c ≠ '.'), String.ofList variant)

def references (spec : NamedSpec) : List String :=
  (spec.derivation.map DerivationSpec.base).toList ++
    spec.variants.flatMap fun variant =>
      variant.combine.filterMap fun part => (splitReference? part).map Prod.fst

/-! ### Encodings -/

/-- The encoding that one part of a combination refers to. A variant of the same type has to be
declared earlier. -/
def partValue (registry : Registry) (owner : String) (earlier : List Variant) (part : String) :
    Except BuildError UInt32 := do
  let (name, found) ← match splitReference? part with
    | some (type, name) => do
        let type ← registry.namedType owner type
        pure (name, type.variants.find? fun variant => variant.name = name)
    | none => pure (part, earlier.find? fun variant => variant.name = part)
  match found with
  | some variant => .ok variant.value
  | none => .error (.invalidDefinition owner (.unknownCombination name))

def combinedValue (registry : Registry) (owner : String) (earlier : List Variant) :
    List String → Except BuildError UInt32
  | [] => .ok 0
  | part :: parts => do
      let value ← registry.partValue owner earlier part
      let others ← registry.combinedValue owner earlier parts
      return value ||| others

/-- The encoding of a variant after those in `earlier`, of which `automatic` were numbered. -/
def variantValue (registry : Registry) (owner : String) (numbering : Numbering)
    (earlier : List Variant) (automatic : Nat) (spec : VariantSpec) : Except BuildError UInt32 :=
  match spec.value, spec.combine, numbering with
  | some _, _ :: _, _ => .error (.invalidDefinition owner (.valueAndCombine spec.name))
  | some value, [], _ => .ok value
  | none, part :: parts, _ => registry.combinedValue owner earlier (part :: parts)
  | none, [], .index =>
      if earlier.length < UInt32.size then .ok (.ofNat earlier.length)
      else .error (.invalidDefinition owner .tooManyVariants)
  | none, [], .flags =>
      if automatic < 32 then .ok ((1 : UInt32) <<< UInt32.ofNat automatic)
      else .error (.invalidDefinition owner .tooManyFlags)

/-- The variants in `earlier`, of which `automatic` were numbered, and those after them. -/
def numberVariants (registry : Registry) (owner : String) (numbering : Numbering) :
    List Variant → Nat → List VariantSpec → Except BuildError (List Variant)
  | earlier, _, [] => .ok earlier
  | earlier, automatic, spec :: specs => do
      let value ← registry.variantValue owner numbering earlier automatic spec
      registry.numberVariants owner numbering (earlier ++ [⟨spec.name, value, spec.doc⟩])
        (if spec.isAutomatic then automatic + 1 else automatic) specs

def shiftVariant (owner : String) (base : NamedType) (shift : Shift) (variant : Variant) :
    Except BuildError Variant :=
  match shift.apply variant.value with
  | some value => .ok { variant with value }
  | none => .error (.invalidDefinition owner (.shiftOverflow base.name variant.name shift.bits))

/-- The first name or encoding that occurs again, scanning the variants after those in `earlier`;
within a variant the name comes first. -/
def repetition? : List Variant → List Variant → Option Defect
  | _, [] => none
  | earlier, variant :: rest =>
      if earlier.any fun other => other.name = variant.name then some (.repeatedVariant variant.name)
      else
        match earlier.find? fun other => other.value = variant.value with
        | some other => some (.sharedEncoding other.name variant.name variant.value)
        | none => repetition? (earlier ++ [variant]) rest

/-! ### Building -/

def variantsOf (registry : Registry) (name : String) (spec : NamedSpec) :
    Except BuildError (List Variant × Option Derivation) :=
  match spec.derivation with
  | some derivation => do
      if ¬ spec.variants.isEmpty then
        throw (.invalidDefinition name (.derivedWithVariants derivation.base))
      let base ← registry.namedType name derivation.base
      let shift : Shift := ⟨derivation.shiftLeft⟩
      let variants ← base.variants.mapM (shiftVariant name base shift)
      return (variants, some ⟨derivation.base, shift⟩)
  | none => do
      return (← registry.numberVariants name spec.numbering [] 0 spec.variants, none)

def buildNamed (registry : Registry) (name : String) (spec : NamedSpec) :
    Except BuildError NamedType := do
  let (variants, derivation) ← registry.variantsOf name spec
  if variants.isEmpty then
    throw (.invalidDefinition name .noVariants)
  match repetition? [] variants with
  | some defect => throw (.invalidDefinition name defect)
  | none => return ⟨name, spec.doc, variants, derivation⟩

def buildType (registry : Registry) (name : String) : OpargSpec → Except BuildError OpargType
  | .aliased spec => .ok (.aliased ⟨name, spec.width, spec.doc⟩)
  | .named spec => return .named (← registry.buildNamed name spec)

/-- The dependencies of all named types; each has to be a named type itself. -/
def dependencyGraph (specs : NameMap OpargSpec) : Except BuildError DependencyGraph :=
  specs.entries.foldlM addReferences { nodes := specs.names }
where
  addReferences (g : DependencyGraph) : String × OpargSpec → Except BuildError DependencyGraph
    | (_, .aliased _) => .ok g
    | (name, .named spec) => (references spec).foldlM (addReference name) g
  addReference (name : String) (g : DependencyGraph) (reference : String) :
      Except BuildError DependencyGraph :=
    match specs.get? reference with
    | some (.named _) => .ok (g.addEdge reference name)
    | _ => .error (.missingOpargType reference name)

def finishingOrder (specs : NameMap OpargSpec) : Except BuildError (List String) := do
  let g ← dependencyGraph specs
  match g.order with
  | .ok names => return names
  | .error node => throw (.missingOpargType node (g.wayBack node))

def build (specs : NameMap OpargSpec) : Except BuildError Registry := do
  let names ← finishingOrder specs
  names.foldlM (addType specs) {}
where
  addType (specs : NameMap OpargSpec) (registry : Registry) (name : String) :
      Except BuildError Registry :=
    match specs.get? name with
    | some spec => return ⟨registry.types ++ [← registry.buildType name spec]⟩
    | none => return registry

end Registry

end Bytecode

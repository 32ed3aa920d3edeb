import Bytecode.Build
import Bytecode.Emit.Lines

/-!
# Emitted operand types

Aliases become transparent structures, named types become enumerations with their encodings as
discriminants, and a derived type converts to its base and back.
-/

namespace Bytecode.Emit

def header (model : GeneratedModel) : Lines :=
  ((Text.trimmedLines model.config.header).map fun line => "//! " ++ line) ++
    ["//!", "//! @generated by opforge. Do not edit by hand.", "", "use core::fmt;", ""]

def aliasType (error : String) (type : AliasType) : Lines :=
  let name := type.name
  let width := type.width.name
  let (fromRaw, toRaw) :=
    if type.width = .u32 then ("Ok(Self(raw))", "value.0")
    else
      (s!"{width}::try_from(raw).map(Self).map_err(|_| {error}::InvalidOperand)",
        "u32::from(value.0)")
  docLines type.doc ++
    ["#[derive(Debug, Clone, Copy, PartialEq, Eq, PartialOrd, Ord, Hash, Default)]",
      "#[repr(transparent)]",
      s!"pub struct {name}(pub {width});",
      ""] ++
    block s!"impl {name}"
      (function s!"pub const fn new(value: {width}) -> Self" ["Self(value)"] ++ [""] ++
        function s!"pub const fn get(self) -> {width}" ["self.0"]) ++
    [""] ++
    block s!"impl TryFrom<u32> for {name}"
      ([s!"type Error = {error};", ""] ++
        block "fn try_from(raw: u32) -> Result<Self, Self::Error>" [fromRaw]) ++
    [""] ++
    block s!"impl From<{name}> for u32" (block s!"fn from(value: {name}) -> Self" [toRaw]) ++
    [""]

def aliases (model : GeneratedModel) : Lines :=
  model.registry.aliases.flatMap (aliasType model.config.errorType)

def rawArms (type : NamedType) : List (UInt32 × String) :=
  type.variants.map fun variant => (variant.value, variant.name)

def namedType (error : String) (type : NamedType) : Lines :=
  let name := type.name
  docLines type.doc ++
    ["#[derive(Debug, Clone, Copy, PartialEq, Eq, PartialOrd, Ord, Hash)]", "#[repr(u32)]"] ++
    block s!"pub enum {name}"
      (type.variants.flatMap fun variant =>
        docLines variant.doc ++ [s!"{variant.name} = {variant.value},"]) ++
    [""] ++
    block s!"impl TryFrom<u32> for {name}"
      ([s!"type Error = {error};", ""] ++
        block "fn try_from(raw: u32) -> Result<Self, Self::Error>"
          (block "match raw"
            ((rawArms type).map (fun (raw, variant) => arm (toString raw) s!"Ok(Self::{variant})") ++
              [arm "_" s!"Err({error}::InvalidOperand)"]))) ++
    [""] ++
    block s!"impl From<{name}> for u32" (block s!"fn from(value: {name}) -> Self" ["value as u32"]) ++
    [""]

def namedTypes (model : GeneratedModel) : Lines :=
  model.registry.named.flatMap (namedType model.config.errorType)

/-- The conversion that keeps the name of a variant. -/
def conversion (source target : NamedType) : Lines :=
  block s!"impl From<{source.name}> for {target.name}"
    (block s!"fn from(value: {source.name}) -> Self"
      (block "match value"
        (source.variants.map fun variant =>
          arm s!"{source.name}::{variant.name}" s!"Self::{variant.name}"))) ++
    [""]

def derivedConversion (registry : Registry) (derived : NamedType) : Lines :=
  match derived.derivation with
  | none => []
  | some derivation =>
      match (registry.get? derivation.base).bind OpargType.asNamed? with
      | none => []
      | some base =>
          s!"// `{derived.name}` encodes `{base.name}` shifted left by {derivation.shift.bits} bits."
            :: (conversion base derived ++ conversion derived base)

def derivedConversions (model : GeneratedModel) : Lines :=
  model.registry.named.flatMap (derivedConversion model.registry)

end Bytecode.Emit

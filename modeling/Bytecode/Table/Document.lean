import Bytecode.Document.Value
import Bytecode.Table

/-!
# Tables as documents

How an instruction table is read from a document value and written to one. Unknown keys are
ignored. What is written has every field, and reads back as the same table.
-/

namespace Bytecode

open Value

namespace DefaultOpargs

def ofValue? (v : Value) : Option DefaultOpargs := do
  let fields ← v.asRecord? ["jump", "constant", "name", "raw"]
  let base : DefaultOpargs := {}
  return {
    jump := ← withDefault fields "jump" asString? base.jump
    constant := ← withDefault fields "constant" asString? base.constant
    name := ← withDefault fields "name" asString? base.name
    raw := ← withDefault fields "raw" asString? base.raw }

def toValue (d : DefaultOpargs) : Value :=
  table [("jump", string d.jump), ("constant", string d.constant), ("name", string d.name),
    ("raw", string d.raw)]

end DefaultOpargs

namespace Config

def ofValue? (v : Value) : Option Config := do
  let fields ← v.asRecord? ["real_limit", "pseudo_limit", "real_opcode_enum",
    "real_instruction_enum", "pseudo_opcode_enum", "pseudo_instruction_enum", "error_type",
    "header", "default_opargs"]
  let base : Config := {}
  return {
    realLimit := ← withDefault fields "real_limit" asWord? base.realLimit
    pseudoLimit := ← withDefault fields "pseudo_limit" asWord? base.pseudoLimit
    realOpcodeEnum := ← withDefault fields "real_opcode_enum" asString? base.realOpcodeEnum
    realInstructionEnum :=
      ← withDefault fields "real_instruction_enum" asString? base.realInstructionEnum
    pseudoOpcodeEnum := ← withDefault fields "pseudo_opcode_enum" asString? base.pseudoOpcodeEnum
    pseudoInstructionEnum :=
      ← withDefault fields "pseudo_instruction_enum" asString? base.pseudoInstructionEnum
    errorType := ← withDefault fields "error_type" asString? base.errorType
    header := ← withDefault fields "header" asString? base.header
    defaultOpargs :=
      ← withDefault fields "default_opargs" DefaultOpargs.ofValue? base.defaultOpargs }

def toValue (c : Config) : Value :=
  table [
    ("real_limit", ofWord c.realLimit),
    ("pseudo_limit", ofWord c.pseudoLimit),
    ("real_opcode_enum", string c.realOpcodeEnum),
    ("real_instruction_enum", string c.realInstructionEnum),
    ("pseudo_opcode_enum", string c.pseudoOpcodeEnum),
    ("pseudo_instruction_enum", string c.pseudoInstructionEnum),
    ("error_type", string c.errorType),
    ("header", string c.header),
    ("default_opargs", c.defaultOpargs.toValue)]

end Config

def Width.words : List (String × Width) := all.map fun width => (width.name, width)

namespace AliasSpec

def ofValue? (v : Value) : Option AliasSpec := do
  let fields ← v.asRecord? ["width", "doc"]
  return {
    width := ← withDefault fields "width" (asWordOf? Width.words) .u32
    doc := ← optional fields "doc" asString? }

def fields (spec : AliasSpec) : List (String × Value) :=
  [("width", string spec.width.name), ("doc", ofOption string spec.doc)]

end AliasSpec

namespace Numbering

def name : Numbering → String
  | index => "index"
  | flags => "flags"

def words : List (String × Numbering) :=
  [index, flags].map fun numbering => (numbering.name, numbering)

end Numbering

namespace VariantSpec

def ofValue? (v : Value) : Option VariantSpec := do
  let fields ← v.asRecord? ["name", "value", "combine", "doc"]
  return {
    name := ← required fields "name" asString?
    value := ← optional fields "value" asWord?
    combine := ← withDefault fields "combine" (asList? asString?) []
    doc := ← optional fields "doc" asString? }

def toValue (spec : VariantSpec) : Value :=
  table [("name", string spec.name), ("value", ofOption ofWord spec.value),
    ("combine", ofStrings spec.combine), ("doc", ofOption string spec.doc)]

end VariantSpec

namespace DerivationSpec

def ofValue? (v : Value) : Option DerivationSpec := do
  let fields ← v.asRecord? ["from", "shift_left"]
  return {
    base := ← required fields "from" asString?
    shiftLeft := ← required fields "shift_left" asWord? }

def toValue (spec : DerivationSpec) : Value :=
  table [("from", string spec.base), ("shift_left", ofWord spec.shiftLeft)]

end DerivationSpec

namespace NamedSpec

def ofValue? (v : Value) : Option NamedSpec := do
  let fields ← v.asRecord? ["doc", "numbering", "variants", "derive"]
  return {
    doc := ← optional fields "doc" asString?
    numbering := ← withDefault fields "numbering" (asWordOf? Numbering.words) .index
    variants := ← withDefault fields "variants" (asList? VariantSpec.ofValue?) []
    derivation := ← optional fields "derive" DerivationSpec.ofValue? }

def fields (spec : NamedSpec) : List (String × Value) :=
  [("doc", ofOption string spec.doc), ("numbering", string spec.numbering.name),
    ("variants", array (spec.variants.map VariantSpec.toValue)),
    ("derive", ofOption DerivationSpec.toValue spec.derivation)]

end NamedSpec

namespace OpargSpec

def ofValue? (v : Value) : Option OpargSpec := do
  match ← v.asTagged? "kind" with
  | ("alias", record) => return aliased (← AliasSpec.ofValue? record)
  | ("named", record) => return named (← NamedSpec.ofValue? record)
  | _ => none

def toValue : OpargSpec → Value
  | aliased spec => table (("kind", string "alias") :: spec.fields)
  | named spec => table (("kind", string "named") :: spec.fields)

def section? : Value → Option (NameMap OpargSpec) := asMap? ofValue?

end OpargSpec

namespace OperandSpec

def ofValue? (v : Value) : Option OperandSpec := do
  let fields ← v.asRecord? ["name", "type"]
  return {
    field := ← optional fields "name" asString?
    type := ← optional fields "type" asString? }

def toValue (spec : OperandSpec) : Value :=
  table [("name", ofOption string spec.field), ("type", ofOption string spec.type)]

end OperandSpec

namespace StackEffectSpec

def ofValue? (v : Value) : Option StackEffectSpec := do
  let fields ← v.asRecord? ["popped", "pushed"]
  return {
    popped := ← required fields "popped" asString?
    pushed := ← required fields "pushed" asString? }

def toValue (spec : StackEffectSpec) : Value :=
  table [("popped", string spec.popped), ("pushed", string spec.pushed)]

end StackEffectSpec

namespace InstructionSpec

def ofValue? (v : Value) : Option InstructionSpec := do
  let fields ← v.asRecord? ["opcode", "canonical_name", "oparg", "stack_effect", "placeholder",
    "family", "doc"]
  return {
    opcode := ← required fields "opcode" asWord?
    canonicalName := ← required fields "canonical_name" asString?
    operand := ← optional fields "oparg" OperandSpec.ofValue?
    stackEffect := ← optional fields "stack_effect" StackEffectSpec.ofValue?
    placeholder := ← withDefault fields "placeholder" asBool? false
    family := ← optional fields "family" asString?
    doc := ← optional fields "doc" asString? }

def toValue (spec : InstructionSpec) : Value :=
  table [
    ("opcode", ofWord spec.opcode),
    ("canonical_name", string spec.canonicalName),
    ("oparg", ofOption OperandSpec.toValue spec.operand),
    ("stack_effect", ofOption StackEffectSpec.toValue spec.stackEffect),
    ("placeholder", bool spec.placeholder),
    ("family", ofOption string spec.family),
    ("doc", ofOption string spec.doc)]

end InstructionSpec

namespace Table

def ofValue? (v : Value) : Option Table := do
  let fields ← v.asRecord? ["config", "opargs", "instructions"]
  return {
    config := ← withDefault fields "config" Config.ofValue? {}
    opargs := ← withDefault fields "opargs" OpargSpec.section? .empty
    instructions :=
      ← withDefault fields "instructions" (asMap? InstructionSpec.ofValue?) .empty }

def toValue (t : Table) : Value :=
  table [("config", t.config.toValue), ("opargs", ofMap OpargSpec.toValue t.opargs),
    ("instructions", ofMap InstructionSpec.toValue t.instructions)]

end Table

end Bytecode

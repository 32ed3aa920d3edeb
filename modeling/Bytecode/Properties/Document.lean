import Bytecode.Document.Value
import Bytecode.Properties

/-!
# Properties as documents

How property records are read from a document value and written to one. What is absent is not
written, except for the flags.
-/

namespace Bytecode

open Value

namespace StackVariable

def ofValue? (v : Value) : Option StackVariable := do
  let fields ← v.asRecord? ["name", "size", "condition"]
  return {
    name := ← required fields "name" asString?
    size := ← withDefault fields "size" asString? "1"
    condition := ← optional fields "condition" asString? }

def toValue (x : StackVariable) : Value :=
  table ([("name", string x.name), ("size", string x.size)] ++
    fieldIfSome "condition" string x.condition)

end StackVariable

namespace StackLayout

def ofValue? (v : Value) : Option StackLayout := do
  let fields ← v.asRecord? ["inputs", "outputs"]
  return {
    inputs := ← withDefault fields "inputs" (asList? StackVariable.ofValue?) []
    outputs := ← withDefault fields "outputs" (asList? StackVariable.ofValue?) [] }

def toValue (x : StackLayout) : Value :=
  table [("inputs", array (x.inputs.map StackVariable.toValue)),
    ("outputs", array (x.outputs.map StackVariable.toValue))]

end StackLayout

namespace Properties

def ofValue? (v : Value) : Option Properties := do
  let fields ← v.asRecord? ["has_oparg", "jumps", "reads_constants", "reads_names",
    "reads_locals", "has_free", "is_pure", "family", "stack"]
  return {
    flags := {
      hasOparg := ← withDefault fields "has_oparg" asBool? false
      jumps := ← withDefault fields "jumps" asBool? false
      readsConstants := ← withDefault fields "reads_constants" asBool? false
      readsNames := ← withDefault fields "reads_names" asBool? false
      readsLocals := ← withDefault fields "reads_locals" asBool? false
      hasFree := ← withDefault fields "has_free" asBool? false
      isPure := ← withDefault fields "is_pure" asBool? false }
    family := ← optional fields "family" asString?
    stack := ← optional fields "stack" StackLayout.ofValue? }

def toValue (p : Properties) : Value :=
  table ([
    ("has_oparg", bool p.flags.hasOparg),
    ("jumps", bool p.flags.jumps),
    ("reads_constants", bool p.flags.readsConstants),
    ("reads_names", bool p.flags.readsNames),
    ("reads_locals", bool p.flags.readsLocals),
    ("has_free", bool p.flags.hasFree),
    ("is_pure", bool p.flags.isPure)] ++
    fieldIfSome "family" string p.family ++ fieldIfSome "stack" StackLayout.toValue p.stack)

end Properties

namespace PropertyRecords

def ofValue? : Value → Option PropertyRecords := asMap? Properties.ofValue?

def toValue (records : PropertyRecords) : Value := ofMap Properties.toValue records

end PropertyRecords

end Bytecode

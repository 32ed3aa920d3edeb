import Bytecode.Build

/-!
# Summaries

A few lines on a model: the number of its operand types, and for each set its instructions, the
range of their opcodes, and how many of them are specialized or placeholders.
-/

namespace Bytecode

namespace SetModel

def opcodeRange? (set : SetModel) : Option (UInt32 × UInt32) := do
  return ((← set.model.cases.head?).opcode, (← set.model.cases.getLast?).opcode)

def specializedCount (set : SetModel) : Nat :=
  set.model.cases.countP fun c => set.deopt.isSpecialized c.name

def placeholderCount (set : SetModel) : Nat := set.stack.incomplete.length

def summary (set : SetModel) : String :=
  let range := match set.opcodeRange? with
    | some (first, last) => s!"{first}..={last}"
    | none => "empty"
  s!"{set.kind.name} set `{set.opcodeEnum}`: {set.model.size} instructions " ++
    s!"(opcodes {range}, repr {set.model.width.name}), " ++
    s!"{set.specializedCount} specialized, {set.placeholderCount} placeholders"

end SetModel

namespace GeneratedModel

def summary (model : GeneratedModel) : List String :=
  s!"{model.registry.size} oparg types" :: model.sets.map SetModel.summary

end GeneratedModel

end Bytecode

import Bytecode.Instruction.Model
import Bytecode.NameMap

/-!
# Specialization families

A specialized instruction names the instruction that it specializes, its family. Deoptimizing it
gives the instruction at the end of the families.
-/

namespace Bytecode

/-- The deopt targets of a set: by specialized instruction, by target, and in the order of the
opcodes. -/
structure DeoptMap where
  /-- The end of the families of each specialized instruction. -/
  targets : NameMap String := .empty
  /-- The specialized instructions that end in each target, in the order of their opcodes. -/
  members : NameMap (List String) := .empty
  /-- Each specialized instruction with the end of its families. -/
  entries : List (String × String) := []
  deriving DecidableEq, Repr

namespace DeoptMap

/-- What an instruction deoptimizes to: itself, unless it is specialized. -/
def deopt (map : DeoptMap) (name : String) : String := (map.targets.get? name).getD name

def isSpecialized (map : DeoptMap) (name : String) : Bool := map.targets.contains name

def familyMembers (map : DeoptMap) (name : String) : List String :=
  (map.members.get? name).getD []

def isEmpty (map : DeoptMap) : Bool := map.entries.isEmpty

def record (map : DeoptMap) (entry : String × String) : DeoptMap where
  targets := map.targets.insert entry.1 entry.2
  members := map.members.insert entry.2 (map.familyMembers entry.2 ++ [entry.1])
  entries := map.entries ++ [entry]

def ofEntries (entries : List (String × String)) : DeoptMap := entries.foldl record {}

/-- A step from the opcode of an instruction to the opcode of its family. -/
abbrev Step := UInt32 × UInt32

/-- The step of a definition. Its family has to be in the model and carry the same operand type. -/
def stepOf (set : InstructionSet) (model : InstructionModel) (d : Definition) :
    Except BuildError (Option Step) :=
  match d.family with
  | none => .ok none
  | some family =>
      match model.get? family with
      | none => .error (.invalidDefinition d.name (.familyNotInSet family set.kind))
      | some target =>
          match (model.get? d.name).bind fun c =>
              if c.operandType? = target.operandType? then none else some c with
          | some c =>
              .error (.opargShapeMismatch d.name family c.operandType? target.operandType?)
          | none => .ok (some (d.opcode, target.opcode))

def next? (steps : List Step) (opcode : UInt32) : Option UInt32 :=
  (steps.find? fun step => step.1 = opcode).map Prod.snd

/-- The end of the steps from `current` on, or all opcodes on the way up to the first that occurs
again, the last first. -/
def follow (steps : List Step) : Nat → List UInt32 → UInt32 → Except (List UInt32) UInt32
  | 0, _, current => .ok current
  | fuel + 1, visited, current =>
      match next? steps current with
      | none => .ok current
      | some next =>
          if next ∈ visited then .error (next :: visited)
          else follow steps fuel (next :: visited) next

/-- The entry of a definition. No step is taken twice on the way, so their number bounds it. -/
def entryOf (set : InstructionSet) (steps : List Step) (d : Definition) :
    Except BuildError (Option (String × String)) :=
  match follow steps steps.length [d.opcode] d.opcode with
  | .error chain => .error (.cyclicDeoptChain d.name (chain.reverse.map nameOf))
  | .ok last => .ok (if last = d.opcode then none else some (d.name, nameOf last))
where
  nameOf (opcode : UInt32) : String := ((set.ofOpcode? opcode).map Definition.name).getD ""

def resolve (set : InstructionSet) (model : InstructionModel) : Except BuildError DeoptMap := do
  let steps ← set.definitions.mapM (stepOf set model)
  let entries ← set.definitions.mapM (entryOf set (steps.filterMap id))
  return ofEntries (entries.filterMap id)

end DeoptMap

end Bytecode

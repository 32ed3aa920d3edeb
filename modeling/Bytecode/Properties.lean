import Bytecode.NameMap

/-!
# Instruction properties

What an analysis knows about an instruction, found by its canonical name: seven flags, the family
that it specializes and the layout of the stack around it.
-/

namespace Bytecode

structure Flags where
  /-- The instruction takes an operand. -/
  hasOparg : Bool := false
  /-- Control may go elsewhere, by the distance in the operand. -/
  jumps : Bool := false
  /-- The operand is an index into the constant table. -/
  readsConstants : Bool := false
  /-- The operand is an index into the name table. -/
  readsNames : Bool := false
  /-- The operand is an index into the local variables. -/
  readsLocals : Bool := false
  /-- Captured variables are read or written. -/
  hasFree : Bool := false
  /-- The instruction neither fails nor has a side effect. -/
  isPure : Bool := false
  deriving DecidableEq, Repr, Inhabited

namespace Flags

def toList (flags : Flags) : List Bool :=
  [flags.hasOparg, flags.jumps, flags.readsConstants, flags.readsNames, flags.readsLocals,
    flags.hasFree, flags.isPure]

/-- One bit for each flag, the first flag lowest. -/
def bits (flags : Flags) : Nat := flags.toList.foldr (fun flag n => flag.toNat + 2 * n) 0

end Flags

/-- A named range of stack slots. Its size and its condition are stack expressions; without a
condition it is always there. -/
structure StackVariable where
  name : String
  size : String := "1"
  condition : Option String := none
  deriving DecidableEq, Repr

structure StackLayout where
  inputs : List StackVariable := []
  outputs : List StackVariable := []
  deriving DecidableEq, Repr

structure Properties where
  flags : Flags := {}
  /-- The canonical name of the instruction that this one specializes. -/
  family : Option String := none
  stack : Option StackLayout := none
  deriving DecidableEq, Repr, Inhabited

/-- Whatever answers for a canonical name. -/
abbrev PropertySource := String → Option Properties

abbrev PropertyRecords := NameMap Properties

namespace PropertyRecords

def source (records : PropertyRecords) : PropertySource := records.get?

end PropertyRecords

end Bytecode

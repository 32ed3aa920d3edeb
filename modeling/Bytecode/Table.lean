import Bytecode.Config
import Bytecode.NameMap
import Bytecode.Width

/-!
# The instruction table

What a table declares, as plain data: the configuration, the operand types and the instructions.
Nothing is validated here.
-/

namespace Bytecode

/-- A transparent integer operand of some width. -/
structure AliasSpec where
  width : Width := .u32
  doc : Option String := none
  deriving DecidableEq, Repr

/-- How variants without an encoding of their own are numbered. -/
inductive Numbering where
  /-- By the position of the variant, from zero. -/
  | index
  /-- By powers of two, one for each automatically numbered variant. -/
  | flags
  deriving DecidableEq, Repr

structure VariantSpec where
  name : String
  value : Option UInt32 := none
  /-- Variants whose encodings are joined: `Variant` of the same type or `Type.Variant`. -/
  combine : List String := []
  doc : Option String := none
  deriving DecidableEq, Repr

/-- Whether the encoding of a variant is left to the numbering. -/
def VariantSpec.isAutomatic (spec : VariantSpec) : Bool := spec.value.isNone && spec.combine.isEmpty

/-- The encodings of another named type, shifted left. -/
structure DerivationSpec where
  base : String
  shiftLeft : UInt32
  deriving DecidableEq, Repr

structure NamedSpec where
  doc : Option String := none
  numbering : Numbering := .index
  variants : List VariantSpec := []
  derivation : Option DerivationSpec := none
  deriving DecidableEq, Repr

inductive OpargSpec where
  | aliased (spec : AliasSpec)
  | named (spec : NamedSpec)
  deriving DecidableEq, Repr

def OpargSpec.doc : OpargSpec → Option String
  | aliased spec => spec.doc
  | named spec => spec.doc

structure OperandSpec where
  field : Option String := none
  type : Option String := none
  deriving DecidableEq, Repr

structure StackEffectSpec where
  popped : String
  pushed : String
  deriving DecidableEq, Repr

structure InstructionSpec where
  opcode : UInt32
  canonicalName : String
  operand : Option OperandSpec := none
  stackEffect : Option StackEffectSpec := none
  placeholder : Bool := false
  /-- The name of the instruction that this one specializes. -/
  family : Option String := none
  doc : Option String := none
  deriving DecidableEq, Repr

structure Table where
  config : Config := {}
  opargs : NameMap OpargSpec := .empty
  instructions : NameMap InstructionSpec := .empty
  deriving DecidableEq, Repr

end Bytecode

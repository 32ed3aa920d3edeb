/-!
# Configuration of a generation run

Every setting has a default, so that an instruction table may leave all of them out.
-/

namespace Bytecode

/-- The operand types of instructions that take an operand for which the table names no type. -/
structure DefaultOpargs where
  /-- For an instruction that jumps. -/
  jump : String := "Delta"
  /-- For one that reads the constant table. -/
  constant : String := "ConstIdx"
  /-- For one that reads the name table. -/
  name : String := "NameIdx"
  /-- For every other one. -/
  raw : String := "Raw"
  deriving DecidableEq, Repr, Inhabited

structure Config where
  /-- Opcodes below this limit are real. -/
  realLimit : UInt32 := 256
  /-- Opcodes from the real limit up to this one, itself excluded, are pseudo opcodes. -/
  pseudoLimit : UInt32 := 65536
  realOpcodeEnum : String := "RealOpcode"
  realInstructionEnum : String := "RealInstruction"
  pseudoOpcodeEnum : String := "PseudoOpcode"
  pseudoInstructionEnum : String := "PseudoInstruction"
  /-- Path of the error type of the emitted conversions. -/
  errorType : String := "crate::MarshalError"
  /-- The documentation that opens the emitted text. -/
  header : String := "VM instruction set."
  defaultOpargs : DefaultOpargs := {}
  deriving DecidableEq, Repr, Inhabited

end Bytecode

import Bytecode.Expr.Parser
import Bytecode.SetKind

/-!
# Errors

A build error stops a generation run; a decode error is the answer of a finished model to a value
that it does not know. Each is a cause with its data; the wording is in `message`.
-/

namespace Bytecode

inductive Defect where
  | limitsReversed (real pseudo : UInt32)
  | canonicalNameTaken (canonical other : String)
  | opcodeOutOfRange (opcode real pseudo : UInt32)
  | fieldWithoutType (field : String)
  | emptyOperand
  | familyNotInTable (canonical : String)
  | familyNotInSet (family : String) (set : SetKind)
  | derivedWithVariants (base : String)
  | shiftOverflow (base variant : String) (bits : UInt32)
  | valueAndCombine (variant : String)
  | tooManyVariants
  | tooManyFlags
  | unknownCombination (variant : String)
  | noVariants
  | repeatedVariant (variant : String)
  | sharedEncoding (first second : String) (value : UInt32)
  | effectNeedsOperand (popped pushed : String)
  /-- A reason in words. -/
  | stated (reason : String)
  deriving DecidableEq, Repr

namespace Defect

def reason : Defect → String
  | limitsReversed real pseudo => s!"real_limit ({real}) exceeds pseudo_limit ({pseudo})"
  | canonicalNameTaken canonical other =>
      s!"canonical name `{canonical}` is already used by `{other}`"
  | opcodeOutOfRange opcode real pseudo =>
      s!"opcode {opcode} is outside the pseudo range {real}..{pseudo}"
  | fieldWithoutType field => s!"operand field `{field}` is given without an operand type"
  | emptyOperand => "operand declares neither a field nor a type"
  | familyNotInTable canonical =>
      s!"family `{canonical}` reported by the property source is not in the table"
  | familyNotInSet family set => s!"family `{family}` is not a {set.name} instruction"
  | derivedWithVariants base => s!"derived from `{base}` but also lists variants"
  | shiftOverflow base variant bits =>
      s!"shifting `{base}.{variant}` left by {bits} overflows 32 bits"
  | valueAndCombine variant => s!"variant `{variant}` has both a value and `combine`"
  | tooManyVariants => "too many variants"
  | tooManyFlags => "more than 32 automatically numbered flags"
  | unknownCombination variant => s!"`combine` refers to unknown or later variant `{variant}`"
  | noVariants => "a named type needs at least one variant"
  | repeatedVariant variant => s!"variant `{variant}` is declared twice"
  | sharedEncoding first second value =>
      s!"variants `{first}` and `{second}` share encoding {value}"
  | effectNeedsOperand popped pushed =>
      s!"stack effect (popped {popped}, pushed {pushed}) uses oparg but the instruction has no operand"
  | stated reason => reason

end Defect

inductive BuildError where
  /-- Two definitions of one set claim one opcode. -/
  | duplicateOpcode (set : SetKind) (opcode : UInt32) (first second : String)
  /-- An operand type is not defined, or depends on itself. -/
  | missingOpargType (oparg referencedBy : String)
  /-- The properties have no record for the canonical name of an instruction. -/
  | unknownCanonicalName (instruction canonical : String)
  | invalidDefinition (name : String) (defect : Defect)
  /-- The families declared from `instruction` on come back to an instruction. -/
  | cyclicDeoptChain (instruction : String) (chain : List String)
  /-- An instruction and its family carry different operands. -/
  | opargShapeMismatch (instruction family : String) (instructionOparg familyOparg : Option String)
  /-- A text that is not a stack expression, with the range at which reading got stuck. -/
  | invalidExpression (owner text : String) (span : Expr.Span) (reason : String)
  deriving DecidableEq, Repr

namespace BuildError

def shapeText : Option String → String
  | some oparg => s!"an operand of type `{oparg}`"
  | none => "no operand"

def message : BuildError → String
  | duplicateOpcode set opcode first second =>
      s!"Instructions `{first}` and `{second}` of the {set.name} set share opcode {opcode}. " ++
        "Opcodes must be unique within a set."
  | missingOpargType oparg referencedBy =>
      s!"`{referencedBy}` refers to the oparg type `{oparg}` which is not defined or cannot be resolved."
  | unknownCanonicalName instruction canonical =>
      s!"Instruction `{instruction}` has canonical name `{canonical}` which is unknown to the property source."
  | invalidDefinition name defect => s!"Definition `{name}` is invalid: {defect.reason}."
  | cyclicDeoptChain instruction chain =>
      let path := " -> ".intercalate chain
      s!"The deopt chain of `{instruction}` revisits an instruction: {path}."
  | opargShapeMismatch instruction family instructionOparg familyOparg =>
      s!"Instruction `{instruction}` carries {shapeText instructionOparg} but its family `{family}` carries {shapeText familyOparg}."
  | invalidExpression owner text span reason =>
      s!"Stack expression `{text}` of `{owner}` is malformed at {span.start}..{span.stop}: {reason}"

end BuildError

inductive DecodeError where
  /-- The raw value is outside the domain of the operand type. -/
  | invalidOperand (oparg : String) (raw : UInt32)
  /-- No instruction of the set has the opcode. -/
  | invalidBytecode (set : SetKind) (opcode : UInt32)
  /-- A slot count is negative, too large or undefined. -/
  | invalidStackEffect (expression : String) (oparg : UInt32)
  deriving DecidableEq, Repr

namespace DecodeError

def message : DecodeError → String
  | invalidOperand oparg raw => s!"Raw value {raw} is not a valid `{oparg}` operand."
  | invalidBytecode set opcode => s!"Opcode {opcode} does not name a {set.name} instruction."
  | invalidStackEffect expression oparg =>
      s!"Stack expression `{expression}` has no valid slot count for oparg {oparg}."

end DecodeError

/-- The expression that `text` spells, for the instruction `owner`. -/
def Expr.parseFor (owner text : String) : Except BuildError Expr :=
  match Expr.parse text with
  | .ok e => .ok e
  | .error span =>
      .error (.invalidExpression owner text span
        (if span.start = span.stop then "unexpected end of the expression"
        else "unexpected character"))

end Bytecode

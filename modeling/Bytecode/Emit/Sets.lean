import Bytecode.Build
import Bytecode.Emit.Lines
import Bytecode.Text.Escape

/-!
# Emitted instruction sets

An enumeration of the opcodes of a set and one of its instructions with their operands, and the
functions on them. The rows of their tables are data of their own, apart from their text.
-/

namespace Bytecode.Emit

/-! ### Rows -/

def opcodeArms (set : SetModel) : List (UInt32 × String) :=
  set.model.cases.map fun c => (c.opcode, c.name)

def predicateCases (set : SetModel) (p : Predicate) : List String :=
  (set.model.casesWith p).map Case.name

def placeholderCases (set : SetModel) : List String :=
  (set.model.cases.filter fun c => c.placeholder).map Case.name

/-- The names, out of a list, of cases of the set. -/
def knownCases (set : SetModel) (names : List String) : List String :=
  (names.filterMap set.model.get?).map Case.name

/-- The cases that deoptimize to each target. -/
def deoptArms (set : SetModel) : List (List String × String) :=
  set.model.cases.filterMap fun target =>
    let members := set.deopt.familyMembers target.name
    if members.isEmpty then none else some (knownCases set members, target.name)

def specializedCases (set : SetModel) : List String :=
  knownCases set (set.deopt.entries.map Prod.fst)

def instructionDeoptArms (set : SetModel) : List (Case × Case) :=
  set.deopt.entries.filterMap fun entry => do
    return (← set.model.get? entry.1, ← set.model.get? entry.2)

/-! ### Text -/

def withFields (name : String) : Option String → String
  | some fields => name ++ " \x7b " ++ fields ++ " \x7d"
  | none => name

def bindingPattern (c : Case) : String := withFields c.name (c.operand.map Operand.field)

def opcodeEnum (_ : GeneratedModel) (set : SetModel) : Lines :=
  [s!"/// Opcodes of the {set.kind.name} instruction set.",
    "#[derive(Debug, Clone, Copy, PartialEq, Eq, PartialOrd, Ord, Hash)]",
    s!"#[repr({set.model.width.name})]"] ++
    block s!"pub enum {set.opcodeEnum}"
      (set.model.cases.flatMap fun c => docLines c.doc ++ [s!"{c.name} = {c.opcode},"]) ++
    [""]

def instructionCase (c : Case) : String :=
  withFields c.name (c.operand.map fun operand => s!"{operand.field}: {operand.type}") ++ ","

def opcodeArm (opcode : String) (c : Case) : String :=
  arm ("Self::" ++ withFields c.name (c.operand.map fun _ => "..")) s!"{opcode}::{c.name}"

def decodeArm (opcode : String) (c : Case) : String :=
  arm s!"{opcode}::{c.name}"
    ("Self::" ++ withFields c.name (c.operand.map fun operand =>
      s!"{operand.field}: {operand.type}::try_from(oparg)?"))

def opargArm? (c : Case) : Option String :=
  c.operand.map fun operand => arm ("Self::" ++ bindingPattern c) s!"u32::from(*{operand.field})"

def instructionEnum (model : GeneratedModel) (set : SetModel) : Lines :=
  let error := model.config.errorType
  let opcode := set.opcodeEnum
  let cases := set.model.cases
  let unused :=
    if cases.any fun c => c.operand.isSome then [] else ["#[allow(unused_variables)]"]
  let otherwise := if cases.all fun c => c.operand.isSome then [] else [arm "_" "0"]
  [s!"/// Decoded {set.kind.name} instructions.",
    "#[derive(Debug, Clone, Copy, PartialEq, Eq, Hash)]"] ++
    block s!"pub enum {set.instructionEnum}"
      (cases.flatMap fun c => docLines c.doc ++ [instructionCase c]) ++
    [""] ++
    block s!"impl {set.instructionEnum}"
      (function s!"pub const fn opcode(&self) -> {opcode}"
        (block "match self" (cases.map (opcodeArm opcode))) ++
      [""] ++
      ["/// Decode the operand `oparg` of `opcode`. Cases without operand ignore it."] ++
      unused ++
      block s!"pub fn decode(opcode: {opcode}, oparg: u32) -> Result<Self, {error}>"
        (blockClosedBy "\x7d)" "Ok(match opcode" (cases.map (decodeArm opcode))) ++
      [""] ++
      ["/// Raw operand; `0` for cases without one."] ++
      function "pub fn oparg(&self) -> u32"
        (block "match self" (cases.filterMap opargArm? ++ otherwise))) ++
    [""]

def conversions (model : GeneratedModel) (set : SetModel) : Lines :=
  let error := model.config.errorType
  let opcode := set.opcodeEnum
  let width := set.model.width.name
  block s!"impl TryFrom<{width}> for {opcode}"
    ([s!"type Error = {error};", ""] ++
      block s!"fn try_from(raw: {width}) -> Result<Self, Self::Error>"
        (block "match raw"
          ((opcodeArms set).map (fun (raw, name) => arm (toString raw) s!"Ok(Self::{name})") ++
            [arm "_" s!"Err({error}::InvalidBytecode)"]))) ++
    [""] ++
    block s!"impl From<{opcode}> for {width}"
      (block s!"fn from(opcode: {opcode}) -> Self" [s!"opcode as {width}"]) ++
    [""]

def nameArm (c : Case) : String :=
  arm s!"Self::{c.name}" ("\"" ++ Text.escaped c.canonicalName ++ "\"")

/-- The implementation of the display of a type by an expression for its name. -/
def displayBy (type name : String) : Lines :=
  block s!"impl fmt::Display for {type}"
    (block "fn fmt(&self, f: &mut fmt::Formatter<'_>) -> fmt::Result"
      [s!"f.write_str({name})"]) ++
    [""]

def displayNames (_ : GeneratedModel) (set : SetModel) : Lines :=
  block s!"impl {set.opcodeEnum}"
    (function "pub const fn name(self) -> &'static str"
      (block "match self" (set.model.cases.map nameArm))) ++
    [""] ++
    displayBy set.opcodeEnum "self.name()" ++
    displayBy set.instructionEnum "self.opcode().name()"

def predicates (_ : GeneratedModel) (set : SetModel) : Lines :=
  block s!"impl {set.opcodeEnum}"
    ((Predicate.all.flatMap fun p =>
      function s!"pub const fn {p.functionName}(self) -> bool" [isOneOf (predicateCases set p)] ++
        [""]) ++
      ["/// Whether the stack effect is a placeholder rather than real metadata."] ++
      function "pub const fn is_placeholder(self) -> bool" [isOneOf (placeholderCases set)]) ++
    [""]

def stackArm? (set : SetModel) (c : Case) : Option String :=
  (set.stack.get? c.name).map fun effect =>
    arm s!"Self::{c.name}" s!"({effect.popped.rust}, {effect.pushed.rust})"

def stackEffect (_ : GeneratedModel) (set : SetModel) : Lines :=
  block s!"impl {set.opcodeEnum}"
    (["/// Slots `(popped, pushed)` for the raw operand `oparg`.",
      "#[must_use]",
      "#[allow(unused_variables)]"] ++
      block "pub fn stack_effect(self, oparg: u32) -> (i64, i64)"
        ("let oparg = i64::from(oparg);" ::
          block "match self" (set.model.cases.filterMap (stackArm? set)))) ++
    [""]

/-- The arm that deoptimizes a specialized case; the operand goes to the field of the target. -/
def instructionDeoptArm (specialized target : Case) : String :=
  match specialized.operand, target.operand with
  | some source, some goal =>
      let field :=
        if source.field = goal.field then goal.field else s!"{goal.field}: {source.field}"
      arm ("Self::" ++ bindingPattern specialized)
        ("Self::" ++ withFields target.name (some field))
  | _, _ => arm s!"Self::{specialized.name}" s!"Self::{target.name}"

/-- The body of a deoptimizing function: the arms and one for all other cases, unless nothing is
specialized. -/
def deoptBody (set : SetModel) (arms : List String) (otherwise : String) : Lines :=
  if set.deopt.isEmpty then ["self"] else block "match self" (arms ++ [otherwise])

def deopt (_ : GeneratedModel) (set : SetModel) : Lines :=
  block s!"impl {set.opcodeEnum}"
    ("/// Generic instruction this opcode deoptimizes to." ::
      function "pub const fn deopt(self) -> Self"
        (deoptBody set
          ((deoptArms set).map fun (members, target) =>
            arm (alternatives members) s!"Self::{target}")
          (arm "_" "self")) ++
      [""] ++
      function "pub const fn is_specialized(self) -> bool" [isOneOf (specializedCases set)]) ++
    [""] ++
    block s!"impl {set.instructionEnum}"
      ("/// Generic instruction this one deoptimizes to; the operand is kept." ::
        function "pub const fn deopt(self) -> Self"
          (deoptBody set
            ((instructionDeoptArms set).map fun (specialized, target) =>
              instructionDeoptArm specialized target)
            (arm "other" "other"))) ++
    [""]

def sizeAssertions (_ : GeneratedModel) (set : SetModel) : Lines :=
  [s!"const _: () = assert!(core::mem::size_of::<{set.opcodeEnum}>() == {set.model.width.bytes});",
    ""]

end Bytecode.Emit

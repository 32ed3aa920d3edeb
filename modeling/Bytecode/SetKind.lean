/-!
# Kinds of instruction sets

Real instructions occur in executable bytecode; pseudo instructions exist only while compiling,
and their opcodes are numbered above the real ones.
-/

namespace Bytecode

inductive SetKind where
  | real
  | pseudo
  deriving DecidableEq, Repr

namespace SetKind

def name : SetKind → String
  | real => "real"
  | pseudo => "pseudo"

def ofName? (name : String) : Option SetKind := [real, pseudo].find? fun kind => kind.name = name

end SetKind

end Bytecode

import Bytecode.Text.Lines

/-!
# Emitted lines

Rust source as a list of lines, with the shapes that occur again and again: indented blocks,
documentation, match arms and alternatives.
-/

namespace Bytecode.Emit

abbrev Lines := List String

def Lines.render (lines : Lines) : String := String.join (lines.map fun line => line ++ "\n")

/-- Lines moved four columns to the right; an empty line stays empty. -/
def indent (lines : Lines) : Lines :=
  lines.map fun line => if line.isEmpty then line else "    " ++ line

/-- A block: its opening with a brace, the indented body and the closing line. -/
def blockClosedBy (closing opening : String) (body : Lines) : Lines :=
  (opening ++ " \x7b") :: indent body ++ [closing]

def block (opening : String) (body : Lines) : Lines := blockClosedBy "\x7d" opening body

def arm (pattern result : String) : String := pattern ++ " => " ++ result ++ ","

def docLines : Option String → Lines
  | some doc => (Text.trimmedLines doc).map fun line =>
      if line.isEmpty then "///" else "/// " ++ line
  | none => []

/-- The variants of an enumeration as the alternatives of a pattern. -/
def alternatives (names : List String) : String :=
  " | ".intercalate (names.map fun name => "Self::" ++ name)

def isOneOf (names : List String) : String :=
  if names.isEmpty then "false" else "matches!(self, " ++ alternatives names ++ ")"

def function (signature : String) (body : Lines) : Lines := "#[must_use]" :: block signature body

end Bytecode.Emit

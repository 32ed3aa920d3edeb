import Bytecode.CommandLine.Arguments
import Bytecode.Document.Toml
import Bytecode.Emit.Steps
import Bytecode.Properties.Document
import Bytecode.Summary
import Bytecode.Table.Document

/-!
# Running a command

What a command does, given the texts of the files that it reads, and the whole run in a working
directory that is a value.
-/

namespace Bytecode

def Table.ofToml? (text : String) : Option Table := (Toml.parse text).bind Table.ofValue?

def PropertyRecords.ofToml? (text : String) : Option PropertyRecords :=
  (Toml.parse text).bind PropertyRecords.ofValue?

namespace CommandLine

inductive RunError where
  | unreadable (path : String)
  | unwritable (path : String)
  | malformedTable (path : String)
  | malformedProperties (path : String)
  | build (error : BuildError)
  deriving DecidableEq, Repr

def RunError.message : RunError → String
  | unreadable path => s!"cannot read {path}"
  | unwritable path => s!"cannot write {path}"
  | malformedTable path => s!"{path} is not an instruction table"
  | malformedProperties path => s!"{path} has no property records"
  | build error => error.message

/-- What a command leaves to be done. -/
inductive Action where
  | print (text : String)
  | write (path text : String)
  deriving DecidableEq, Repr

def Inputs.build (inputs : Inputs) (read : String → Option String) :
    Except RunError GeneratedModel := do
  let some tableText := read inputs.table | throw (.unreadable inputs.table)
  let some table := Table.ofToml? tableText | throw (.malformedTable inputs.table)
  let some recordsText := read inputs.properties | throw (.unreadable inputs.properties)
  let some records := PropertyRecords.ofToml? recordsText
    | throw (.malformedProperties inputs.properties)
  match table.build records.source with
  | .ok model => return model
  | .error error => throw (.build error)

def Command.run (command : Command) (read : String → Option String) : Except RunError Action := do
  let model ← command.inputs.build read
  match command with
  | generate _ none => return .print model.render
  | generate _ (some path) => return .write path model.render
  | check _ => return .print (String.join (model.summary.map fun line => line ++ "\n"))

def versionText : String := "opforge-cli 0.1.0\n"

def helpText : String :=
  "Generate typed opcode definitions from an instruction table\n\n" ++
    "generate --table TABLE --properties PROPERTIES [-o OUTPUT]\n" ++
    "    Build the model and render it as Rust source\n" ++
    "check --table TABLE --properties PROPERTIES\n" ++
    "    Build the model and print a summary of each instruction set\n"

/-! ### A working directory as a value -/

/-- The files of a working directory by their paths in it. -/
abbrev Directory := NameMap String

namespace Directory

def joined (parts : List (List Char)) : String :=
  String.ofList (['/'].intercalate parts)

/-- Whether a path leads to a folder: the directory itself, or one with a file below it. -/
def isFolder (directory : Directory) (parts : List (List Char)) : Bool :=
  parts.isEmpty || directory.names.any fun name => (joined parts).toList ++ ['/'] <+: name.toList

/-- Where a path leads from a place in the directory. It goes on from folders only, stays at `.` and
goes up at `..`, but not out of the directory. -/
def walk? (directory : Directory) : List (List Char) → List (List Char) → Option (List (List Char))
  | place, [] => some place
  | place, part :: parts =>
      if !directory.isFolder place then none
      else if part = [] ∨ part = ['.'] then directory.walk? place parts
      else if part = ['.', '.'] then
        if place.isEmpty then none else directory.walk? place.dropLast parts
      else directory.walk? (place ++ [part]) parts

/-- The place of a path in the directory; a path from the root is in none. -/
def locate? (directory : Directory) (path : String) : Option (List (List Char)) :=
  match Text.splitAt '/' path.toList with
  | [] :: _ => none
  | parts => directory.walk? [] parts

def read? (directory : Directory) (path : String) : Option String := do
  directory.get? (joined (← directory.locate? path))

/-- A file is written where its folder is there and no folder has its name. -/
def write? (directory : Directory) (path text : String) : Option Directory := do
  let place ← directory.locate? path
  if directory.isFolder place then none else return directory.insert (joined place) text

end Directory

/-- What is seen of a run: the exit code, the standard output and the directory afterwards. -/
structure Outcome where
  exitCode : Nat
  output : String
  directory : Directory
  deriving DecidableEq, Repr

def Action.perform (directory : Directory) : Action → Except RunError Outcome
  | print text => .ok ⟨0, text, directory⟩
  | write path text =>
      match directory.write? path text with
      | some directory => .ok ⟨0, "", directory⟩
      | none => .error (.unwritable path)

/-- A run in a directory. A refused argument exits with 2 and a failed command with 1; either
prints nothing on the standard output and writes nothing. -/
def run (arguments : List String) (directory : Directory) : Outcome :=
  match Invocation.parse arguments with
  | .error _ => ⟨2, "", directory⟩
  | .ok .help => ⟨0, helpText, directory⟩
  | .ok .version => ⟨0, versionText, directory⟩
  | .ok (.run command) =>
      match (command.run directory.read?).bind (Action.perform directory) with
      | .ok outcome => outcome
      | .error _ => ⟨1, "", directory⟩

end CommandLine

end Bytecode

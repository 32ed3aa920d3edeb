import Bytecode.CommandLine.Run

/-!
# The program

Reads the files that the arguments name, runs the command on them, and prints or writes its result.
Errors go to the standard error output.
-/

section

open Bytecode CommandLine

def readText (path : String) : IO (Option String) := do
  try return some (← IO.FS.readFile path)
  catch _ => return none

def performAction : Action → IO UInt32
  | .print text => do
      IO.print text
      return 0
  | .write path text => do
      try
        IO.FS.writeFile path text
        return 0
      catch _ =>
        IO.eprintln (RunError.unwritable path).message
        return 1

def runCommand (command : Command) : IO UInt32 := do
  let inputs := command.inputs
  let table ← readText inputs.table
  let properties ← readText inputs.properties
  let read (path : String) : Option String := if path = inputs.table then table else properties
  match command.run read with
  | .ok action => performAction action
  | .error error =>
      IO.eprintln error.message
      return 1

def main (arguments : List String) : IO UInt32 := do
  match Invocation.parse arguments with
  | .error error =>
      IO.eprintln error.message
      return 2
  | .ok .help =>
      IO.print helpText
      return 0
  | .ok .version =>
      IO.print versionText
      return 0
  | .ok (.run command) => runCommand command

end

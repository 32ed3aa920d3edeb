/-!
# Arguments

The commands of the generator and how they are spelled. An option takes its value from the same
argument, after an equality sign or directly after a single letter, or else from the next one, which
must not look like an option itself. No option is given twice and no value is empty.
-/

namespace Bytecode.CommandLine

structure Inputs where
  table : String
  properties : String
  deriving DecidableEq, Repr

inductive Command where
  /-- Renders the model, to a file or to the standard output. -/
  | generate (inputs : Inputs) (output : Option String)
  /-- Prints a summary of the model. -/
  | check (inputs : Inputs)
  deriving DecidableEq, Repr

def Command.inputs : Command → Inputs
  | generate inputs _ => inputs
  | check inputs => inputs

inductive Invocation where
  | help
  | version
  | run (command : Command)
  deriving DecidableEq, Repr

inductive UsageError where
  | missingCommand
  | unknownCommand (name : String)
  | unexpected (argument : String)
  | repeated (option : String)
  | missingValue (option : String)
  | missingOption (option : String)
  deriving DecidableEq, Repr

def UsageError.message : UsageError → String
  | missingCommand => "a command is needed: generate or check"
  | unknownCommand name => s!"unknown command: {name}"
  | unexpected argument => s!"unexpected argument: {argument}"
  | repeated option => s!"option given twice: --{option}"
  | missingValue option => s!"option without a value: --{option}"
  | missingOption option => s!"option needed: --{option}"

/-- The shape of an argument. -/
inductive Token where
  /-- Two dashes alone, after which no option is recognized. -/
  | separator
  /-- A name after two dashes, perhaps with a value after an equality sign. -/
  | long (name : String) (value : Option String)
  /-- A letter after one dash, and what follows it. -/
  | short (letter : Char) (rest : List Char)
  | plain (text : String)
  deriving DecidableEq, Repr

def Token.ofArgument (argument : String) : Token :=
  match argument.toList with
  | ['-', '-'] => separator
  | '-' :: '-' :: cs =>
      let name := String.ofList (cs.takeWhile fun c => c ≠ '=')
      match cs.dropWhile fun c => c ≠ '=' with
      | [] => long name none
      | _ :: value => long name (some (String.ofList value))
  | '-' :: letter :: rest => short letter rest
  | _ => plain argument

structure Options where
  table : Option String := none
  properties : Option String := none
  output : Option String := none
  deriving DecidableEq, Repr

namespace Options

/-- The setting of an option by its name; `output` is an option only where it is admitted. -/
def setting? (withOutput : Bool) (options : Options) :
    String → Option (Option String × (String → Options))
  | "table" => some (options.table, fun v => { options with table := some v })
  | "properties" => some (options.properties, fun v => { options with properties := some v })
  | "output" =>
      if withOutput then some (options.output, fun v => { options with output := some v }) else none
  | _ => none

def give (withOutput : Bool) (options : Options) (argument name value : String) :
    Except UsageError Options :=
  match options.setting? withOutput name with
  | none => .error (.unexpected argument)
  | some (some _, _) => .error (.repeated name)
  | some (none, set) => if value.isEmpty then .error (.missingValue name) else .ok (set value)

/-- The name of an option, with the value in the same argument, if there is one. -/
def named? (withOutput : Bool) : Token → Option (String × Option String)
  | .long name value => some (name, value)
  | .short 'o' rest =>
      if withOutput then
        match rest with
        | [] => some ("output", none)
        | '=' :: value => some ("output", some (String.ofList value))
        | value => some ("output", some (String.ofList value))
      else none
  | _ => none

/-- Reads the arguments of a command. A request for help ends the reading, without a result. -/
def read (withOutput : Bool) : Options → List String → Except UsageError (Option Options)
  | options, [] => .ok (some options)
  | options, argument :: rest =>
      match Token.ofArgument argument with
      | .separator => match rest with
          | [] => .ok (some options)
          | next :: _ => .error (.unexpected next)
      | .long "help" none => .ok none
      | .short 'h' _ => .ok none
      | token =>
          match named? withOutput token, rest with
          | none, _ => .error (.unexpected argument)
          | some (name, some value), rest => do
              read withOutput (← options.give withOutput argument name value) rest
          | some (name, none), [] => do
              let _ ← options.give withOutput argument name "value"
              throw (.missingValue name)
          | some (name, none), value :: rest => do
              match Token.ofArgument value with
              | .plain value => read withOutput (← options.give withOutput argument name value) rest
              | _ => throw (.missingValue name)

def inputs (options : Options) : Except UsageError Inputs :=
  match options.table, options.properties with
  | some table, some properties => .ok { table, properties }
  | none, _ => .error (.missingOption "table")
  | _, none => .error (.missingOption "properties")

end Options

namespace Invocation

def isCommand (name : String) : Bool := ["generate", "check", "help"].contains name

def parse : List String → Except UsageError Invocation
  | [] => .error .missingCommand
  | "generate" :: arguments => do
      match ← Options.read true {} arguments with
      | none => return help
      | some options => return run (.generate (← options.inputs) options.output)
  | "check" :: arguments => do
      match ← Options.read false {} arguments with
      | none => return help
      | some options => return run (.check (← options.inputs))
  | "help" :: topics =>
      match topics with
      | [] => .ok help
      | [topic] => if isCommand topic then .ok help else .error (.unknownCommand topic)
      | _ :: topic :: _ => .error (.unknownCommand topic)
  | argument :: _ =>
      match Token.ofArgument argument with
      | .long "help" none => .ok help
      | .short 'h' _ => .ok help
      | .long "version" none => .ok version
      | .short 'V' _ => .ok version
      | .plain name => .error (.unknownCommand name)
      | _ => .error (.unexpected argument)

end Invocation

end Bytecode.CommandLine

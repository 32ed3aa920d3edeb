import Bytecode.Document.Toml.Quoted
import Bytecode.Document.Toml.Scalar
import Bytecode.Document.Toml.Tree

/-!
# Reading TOML

A document is a sequence of lines: comments, keys with values, and headers that open tables. Line
ends and a comma at the end are admitted inside inline tables as they are inside arrays. Values are
nested, and the names of a key counted, up to a limit.
-/

namespace Bytecode.Toml

/-! ### Layout -/

def skipSpaces (cs : List Char) : List Char := cs.dropWhile fun c => c = ' ' || c = '\t'

/-- Skips spaces, line ends and comments. -/
def skipLayout (inComment : Bool) : List Char → Option (List Char)
  | [] => some []
  | '\n' :: rest => skipLayout false rest
  | '\r' :: '\n' :: rest => skipLayout false rest
  | c :: rest =>
      if inComment then
        if isControl c then none else skipLayout true rest
      else if c = ' ' ∨ c = '\t' then skipLayout false rest
      else if c = '#' then skipLayout true rest
      else some (c :: rest)

/-- The text after the end of a line, before which only spaces and a comment may stand. -/
def endLine (cs : List Char) : Option (List Char) :=
  match skipSpaces cs with
  | [] => some []
  | '\n' :: rest => some rest
  | '\r' :: '\n' :: rest => some rest
  | '#' :: rest => skipLayout true rest
  | _ => none

/-! ### Keys -/

def isBareKeyChar (c : Char) : Bool := c.isAlphanum || c = '_' || c = '-'

def readSimpleKey (cs : List Char) : Option (String × List Char) :=
  match cs.takeWhile isBareKeyChar with
  | [] => readLineString cs
  | name => some (String.ofList name, cs.drop name.length)

/-- Names with dots between; every name takes a character. -/
def readKeyWithin : Nat → Reader (List String)
  | 0, _ => none
  | steps + 1, cs => do
      let (name, rest) ← readSimpleKey cs
      match skipSpaces rest with
      | '.' :: rest =>
          let (names, rest) ← readKeyWithin steps (skipSpaces rest)
          return (name :: names, rest)
      | rest => return ([name], rest)

/-- How deep values are nested at most, and how many names a key has at most. -/
def depthLimit : Nat := 80

def readKey (cs : List Char) : Option (List String × List Char) := do
  let (key, rest) ← readKeyWithin cs.length cs
  if key.length ≤ depthLimit then return (key, rest) else none

/-- A key and the equality sign, with what `skip` passes over around the sign. -/
def readKeyEquals (skip : List Char → Option (List Char)) (cs : List Char) :
    Option (List String × List Char) := do
  let (key, rest) ← readKey cs
  match ← skip rest with
  | '=' :: rest => return (key, ← skip rest)
  | _ => none

/-! ### Values -/

mutual

/-- A value with at most `depth` brackets open at once; every nested value takes a character. -/
def readValueWithin : Nat → Nat → Reader Value
  | 0, _, _ => none
  | steps + 1, depth, cs =>
      match cs, depth with
      | '"' :: _, _ => (readString cs).map fun (text, rest) => (.string text, rest)
      | '\'' :: _, _ => (readString cs).map fun (text, rest) => (.string text, rest)
      | '[' :: rest, depth + 1 => do
          let (items, rest) ← readItemsWithin steps depth (← skipLayout false rest)
          return (.array items true, rest)
      | '\x7b' :: rest, depth + 1 => do
          let (node, rest) ←
            readFieldsWithin steps depth (.emptyTable .written) (← skipLayout false rest)
          return (node.toValue, rest)
      | _, _ => readScalar cs

def readItemsWithin : Nat → Nat → Reader (List Value)
  | 0, _, _ => none
  | _, _, ']' :: rest => some ([], rest)
  | steps + 1, depth, cs => do
      let (item, rest) ← readValueWithin steps depth cs
      match ← skipLayout false rest with
      | ',' :: rest =>
          let (items, rest) ← readItemsWithin steps depth (← skipLayout false rest)
          return (item :: items, rest)
      | ']' :: rest => return ([item], rest)
      | _ => none

def readFieldsWithin : Nat → Nat → Node → Reader Node
  | 0, _, _, _ => none
  | _, _, node, '\x7d' :: rest => some (node, rest)
  | steps + 1, depth, node, cs => do
      let (key, rest) ← readKeyEquals (skipLayout false) cs
      let (v, rest) ← readValueWithin steps depth rest
      let node ← node.setKey key v
      match ← skipLayout false rest with
      | ',' :: rest => readFieldsWithin steps depth node (← skipLayout false rest)
      | '\x7d' :: rest => return (node, rest)
      | _ => none

end

/-! ### Documents -/

structure Progress where
  root : Node := .emptyTable .written
  path : List String := []

def readHeader (progress : Progress) (opened : Bool → String → Node → Option Node)
    (brackets : List Char) (cs : List Char) : Option (Progress × List Char) := do
  let (path, rest) ← readKey (skipSpaces cs)
  if brackets.isPrefixOf rest then
    let root ← progress.root.changeBefore false path opened
    return (⟨root, path⟩, rest.drop brackets.length)
  else none

def readKeyValue (progress : Progress) (cs : List Char) : Option (Progress × List Char) := do
  let (key, rest) ← readKeyEquals (fun cs => some (skipSpaces cs)) cs
  let (v, rest) ← readValueWithin (rest.length + 1) depthLimit rest
  let root ← progress.root.change false progress.path fun node => node.setKey key v
  return ({ progress with root }, rest)

/-- Reads line after line; every line takes a character. -/
def readLines : Nat → Progress → List Char → Option Progress
  | steps, progress, cs => do
      match steps, ← skipLayout false cs with
      | _, [] => return progress
      | 0, _ => none
      | steps + 1, '[' :: '[' :: rest =>
          let (progress, rest) ← readHeader progress (fun _ => Node.openItem) [']', ']'] rest
          readLines steps progress (← endLine rest)
      | steps + 1, '[' :: rest =>
          let (progress, rest) ← readHeader progress (fun _ => Node.openTable) [']'] rest
          readLines steps progress (← endLine rest)
      | steps + 1, cs =>
          let (progress, rest) ← readKeyValue progress cs
          readLines steps progress (← endLine rest)

/-- The table that a document spells; a byte order mark in front is no part of it. -/
def parse (text : String) : Option Value :=
  let cs := match text.toList with
    | '\ufeff' :: rest => rest
    | cs => cs
  (readLines (cs.length + 1) {} cs).map fun progress => progress.root.toValue

end Bytecode.Toml

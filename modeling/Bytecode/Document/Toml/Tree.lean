import Bytecode.Document.Value

/-!
# Growing a TOML document

The tables of a document while it is read, each with the way in which it came to be. A table is
written once: by its header, or by the dotted keys of one section. A header may pass through tables
that are there already and opens those that are not.
-/

namespace Bytecode.Toml

inductive Origin where
  /-- By a header of its own, or as the root. -/
  | written
  /-- By a longer header. -/
  | implied
  /-- By a dotted key. -/
  | dotted
  deriving DecidableEq

inductive Node where
  | value (value : Value)
  | table (origin : Origin) (fields : List (String × Node))
  /-- An array of tables, the last first. -/
  | tables (items : List Node)

namespace Node

def emptyTable (origin : Origin) : Node := table origin []

mutual

def toValue : Node → Value
  | value v => v
  | table _ fields => .table (fieldValues fields)
  | tables items => .array (itemValues items).reverse true

def fieldValues : List (String × Node) → List (String × Value)
  | [] => []
  | (name, node) :: rest => (name, node.toValue) :: fieldValues rest

def itemValues : List Node → List Value
  | [] => []
  | node :: rest => node.toValue :: itemValues rest

end

def replace (name : String) (node : Node) (fields : List (String × Node)) :
    List (String × Node) :=
  fields.map fun field => if field.1 = name then (name, node) else field

/-- Changes the table at the end of a path, and opens the missing tables on the way. The path passes
through the last table of an array of tables. That of a header, which is not `dotted`, passes through
any other table too, and a dotted key only through tables without a header. -/
def change (dotted : Bool) : List String → (Node → Option Node) → Node → Option Node
  | [], f, node => f node
  | name :: path, f, table origin fields => do
      match fields.lookup name with
      | none =>
          let child ← change dotted path f (emptyTable (if dotted then .dotted else .implied))
          return table origin (fields ++ [(name, child)])
      | some (table inner items) =>
          if dotted ∧ inner = .written then none
          else
            let child ← change dotted path f (table inner items)
            return table origin (replace name child fields)
      | some (tables (last :: earlier)) =>
          let child ← change dotted path f last
          return table origin (replace name (tables (child :: earlier)) fields)
      | some _ => none
  | _, _, _ => none

/-- Adds a field to a table that has none of the name. The last table of a dotted key came from such
a key, and the section that a plain key stands in did not. -/
def addField (dotted : Bool) (name : String) (v : Value) : Node → Option Node
  | table origin fields =>
      if (origin = .dotted) = (dotted = true) ∧ (fields.lookup name).isNone then
        some (table origin (fields ++ [(name, value v)]))
      else none
  | _ => none

def openTable (name : String) : Node → Option Node
  | table origin fields =>
      match fields.lookup name with
      | none => some (table origin (fields ++ [(name, emptyTable .written)]))
      | some (table .implied items) =>
          some (table origin (replace name (table .written items) fields))
      | some _ => none
  | _ => none

/-- Opens the next table of an array of tables. -/
def openItem (name : String) : Node → Option Node
  | table origin fields =>
      match fields.lookup name with
      | none => some (table origin (fields ++ [(name, tables [emptyTable .written])]))
      | some (tables items) =>
          some (table origin (replace name (tables (emptyTable .written :: items)) fields))
      | some _ => none
  | _ => none

/-- Applies `f`, with the last name of a path, to the table before it. -/
def changeBefore (dotted : Bool) (path : List String) (f : Bool → String → Node → Option Node)
    (node : Node) : Option Node := do
  let name ← path.getLast?
  let before := path.dropLast
  change dotted before (f (!before.isEmpty) name) node

def setKey (key : List String) (v : Value) (node : Node) : Option Node :=
  changeBefore true key (fun dotted name => addField dotted name v) node

end Node

end Bytecode.Toml

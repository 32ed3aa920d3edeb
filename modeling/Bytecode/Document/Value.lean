import Bytecode.NameMap

/-!
# Document values

The value that a document spells, whatever its syntax, and the views by which typed data is taken
from it. A view admits one kind of value and converts nothing: no text is a number, and no number
with a fraction is an integer. A value that is never looked at may be a number that nothing can hold;
a field with an unknown name is passed over, and that is a look at it.
-/

namespace Bytecode

inductive Value where
  /-- An absent optional value. -/
  | null
  | bool (value : Bool)
  | integer (value : Int)
  /-- A number with a fraction or an exponent; its value is never used. -/
  | float
  /-- A number that is too large, or whose digits turn out to be none when they are looked at. -/
  | unreadable
  /-- A date or a time; its value is never used. -/
  | datetime
  | string (value : String)
  /-- Items in order. Where an array stands for a record, the items of an open-ended one after the
  last field are left alone, and one that is not open-ended has none of them. -/
  | array (items : List Value) (openEnded : Bool := false)
  | table (fields : List (String × Value))
  deriving Repr, Inhabited

namespace Value

def asBool? : Value → Option Bool
  | bool value => some value
  | _ => none

def asString? : Value → Option String
  | string value => some value
  | _ => none

def asWord? : Value → Option UInt32
  | integer value =>
      if 0 ≤ value ∧ value < UInt32.size then some (UInt32.ofNat value.toNat) else none
  | _ => none

def asList? {α : Type} (item : Value → Option α) : Value → Option (List α)
  | array items _ => items.mapM item
  | _ => none

def asMap? {α : Type} (item : Value → Option α) : Value → Option (NameMap α)
  | table fields => do
      let entries ← fields.mapM fun field => do return (field.1, ← item field.2)
      return .ofList entries
  | _ => none

def asOption? {α : Type} (item : Value → Option α) : Value → Option (Option α)
  | null => some none
  | value => some <$> item value

/-- A word out of a list. It may also be the only key of a table, over nothing. -/
def asWordOf? {α : Type} (words : List (String × α)) : Value → Option α
  | string word => words.lookup word
  | table [(word, null)] => words.lookup word
  | table [(word, table [])] => words.lookup word
  | _ => none

/-! ### Passing over and taking up -/

mutual

/-- Whether every number in a value can be read, as it has to be when the value is passed over. -/
def isReadable : Value → Bool
  | unreadable => false
  | array items _ => areReadable items
  | table fields => haveReadable fields
  | _ => true

def areReadable : List Value → Bool
  | [] => true
  | item :: items => item.isReadable && areReadable items

def haveReadable : List (String × Value) → Bool
  | [] => true
  | (_, value) :: fields => value.isReadable && haveReadable fields

end

def isWide (n : Int) : Bool := -9223372036854775808 ≤ n && n < 18446744073709551616

theorem isWide_toNat (value : UInt32) : isWide value.toNat = true := by
  have h : value.toNat < 4294967296 := value.toNat_lt
  simp only [isWide, Bool.and_eq_true, decide_eq_true_eq]
  omega

mutual

/-- A value that is taken up as a whole before anything is known about it: its integers have to fit
64 bits, and none of its arrays is open-ended any more. -/
def takeUp? : Value → Option Value
  | unreadable => none
  | integer n => if isWide n then some (integer n) else none
  | array items _ => (takeUpItems? items).map fun items => array items
  | table fields => (takeUpFields? fields).map table
  | value => some value

def takeUpItems? : List Value → Option (List Value)
  | [] => some []
  | item :: items => do
      let item ← item.takeUp?
      let items ← takeUpItems? items
      return item :: items

def takeUpFields? : List (String × Value) → Option (List (String × Value))
  | [] => some []
  | (name, value) :: fields => do
      let value ← value.takeUp?
      let fields ← takeUpFields? fields
      return (name, value) :: fields

end

/-! ### Records -/

/-- The fields of a record with the fields `names`: those of a table, of which the others are passed
over, or the items of an array in the order of `names`. A date has no field of any name. -/
def asRecord? (names : List String) : Value → Option (List (String × Value))
  | table fields =>
      if fields.all fun field => names.contains field.1 || field.2.isReadable then some fields
      else none
  | array items openEnded =>
      if openEnded || items.length ≤ names.length then some (names.zip items) else none
  | datetime => some []
  | _ => none

/-- The record and its tag, which in an array comes first. The record is taken up before its tag is
known. -/
def asTagged? (tag : String) (value : Value) : Option (String × Value) := do
  match ← value.takeUp? with
  | table fields => return (← (← fields.lookup tag).asString?, table fields)
  | array (string word :: items) _ => return (word, array items)
  | _ => none

def required {α : Type} (fields : List (String × Value)) (name : String)
    (item : Value → Option α) : Option α := do
  item (← fields.lookup name)

def withDefault {α : Type} (fields : List (String × Value)) (name : String)
    (item : Value → Option α) (default : α) : Option α :=
  match fields.lookup name with
  | some value => item value
  | none => some default

/-- An optional field, absent or nothing when it is not given. -/
def optional {α : Type} (fields : List (String × Value)) (name : String)
    (item : Value → Option α) : Option (Option α) :=
  withDefault fields name (asOption? item) none

/-! ### Writing -/

def ofWord (value : UInt32) : Value := integer value.toNat

def ofStrings (items : List String) : Value := array (items.map string)

def ofOption {α : Type} (item : α → Value) : Option α → Value
  | some value => item value
  | none => null

def ofMap {α : Type} (item : α → Value) (map : NameMap α) : Value :=
  table (map.entries.map fun entry => (entry.1, item entry.2))

/-- A field that is left out when there is nothing to write. -/
def fieldIfSome {α : Type} (name : String) (item : α → Value) :
    Option α → List (String × Value)
  | some value => [(name, item value)]
  | none => []

end Value

end Bytecode

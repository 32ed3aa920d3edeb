import Bytecode.Document.Value
import Bytecode.Text.Digits

/-!
# Numbers and dates in TOML

A scalar without quotes is one run of characters, which is classified as a whole. Integers may be
grouped by underscores between digits; a decimal one has no superfluous zero in front. Floats, dates
and times are checked and leave only their kind behind. A number that is too large is no mistake of
the document: it is a value that cannot be read.
-/

namespace Bytecode.Toml

/-- Digits, perhaps grouped by single underscores. -/
def digits? (member : Char → Bool) (cs : List Char) : Option (List Char) :=
  let groups := Text.splitAt '_' cs
  if groups.all fun group => !group.isEmpty && group.all member then some groups.flatten else none

/-- Decimal digits without a superfluous zero in front. -/
def decimal? (cs : List Char) : Option Nat := do
  let digits ← digits? Char.isDigit cs
  match digits with
  | '0' :: _ :: _ => none
  | _ => return Text.ofDigits 10 digits

/-- The sign, if there is one, and the rest; the sign is true for a minus. -/
def splitSign : List Char → Option Bool × List Char
  | '+' :: rest => (some false, rest)
  | '-' :: rest => (some true, rest)
  | cs => (none, cs)

def isFloatMark (c : Char) : Bool := c = '.' || c = 'e' || c = 'E'

/-! ### Integers -/

def isOctalDigit (c : Char) : Bool := '0' ≤ c && c ≤ '7'

def isBinaryDigit (c : Char) : Bool := c = '0' || c = '1'

/-- An integer of at most 128 bits, with or without a sign. -/
def ofInteger (n : Int) : Value :=
  if -170141183460469231731687303715884105728 ≤ n ∧ n < 340282366920938463463374607431768211456 then
    .integer n
  else .unreadable

/-- An integer in a base other than ten; a prefix alone is taken for a number that has no value. -/
def based? (base : Nat) (member : Char → Bool) (cs : List Char) : Option Value :=
  if cs.isEmpty then some .unreadable
  else (digits? member cs).map fun digits => ofInteger (Text.ofDigits base digits)

/-- Whether a text begins like a grouped decimal integer, has no mark of a float, and shows next to
its underscores nothing but digits of some base. What stands between them is not looked at, and it is
taken for a number that has no value. -/
def isLooselyGrouped (cs : List Char) : Bool :=
  match Text.splitAt '_' cs with
  | first :: groups =>
      (decimal? first).isSome && first ≠ ['0'] && !cs.any isFloatMark &&
        groups.all (fun group => group.head?.any Text.isHexDigit) &&
        groups.dropLast.all fun group => group.getLast?.any Text.isHexDigit
  | [] => false

def integer? : List Char → Option Value
  | '0' :: 'x' :: rest => based? 16 Text.isHexDigit rest
  | '0' :: 'o' :: rest => based? 8 isOctalDigit rest
  | '0' :: 'b' :: rest => based? 2 isBinaryDigit rest
  | cs =>
      let (sign, rest) := splitSign cs
      match decimal? rest with
      | some n => some (ofInteger (if sign = some true then -(n : Int) else n))
      | none => if isLooselyGrouped rest then some .unreadable else none

/-! ### Floats -/

def fraction? : List Char → Option (List Char)
  | [] => some []
  | '.' :: rest => digits? Char.isDigit rest
  | _ => none

def exponent? : List Char → Option Int
  | [] => some 0
  | _ :: rest => do
      let (sign, rest) := splitSign rest
      let n := Text.ofDigits 10 (← digits? Char.isDigit rest)
      return if sign = some true then -(n : Int) else n

/-- The least number that is rounded to infinity: half a unit above the largest finite one of
binary64, which has 53 bits. -/
def floatLimit : Nat := (1 <<< 1024) - (1 <<< 970)

/-- Whether decimal digits, scaled by a power of ten, reach the limit, which has 309 places. -/
def overflows (digits : List Char) (exponent : Int) : Bool :=
  let significant := digits.dropWhile fun c => c = '0'
  let places := significant.length + exponent
  let n := Text.ofDigits 10 significant
  !significant.isEmpty && (309 < places || (places = 309 &&
    (floatLimit * Nat.pow 10 (-exponent).toNat ≤ n * Nat.pow 10 exponent.toNat)))

/-- A float: an infinity, no number, or digits with a fraction or an exponent or both. -/
def float? (cs : List Char) : Option Value :=
  let (_, unsigned) := splitSign cs
  let whole := unsigned.takeWhile fun c => !isFloatMark c
  let rest := unsigned.dropWhile fun c => !isFloatMark c
  let point := rest.takeWhile fun c => c ≠ 'e' && c ≠ 'E'
  let scale := rest.dropWhile fun c => c ≠ 'e' && c ≠ 'E'
  if unsigned = ['i', 'n', 'f'] ∨ unsigned = ['n', 'a', 'n'] then some .float
  else if rest.isEmpty then none
  else do
    let _ ← decimal? whole
    let digits ← digits? Char.isDigit whole
    let fraction ← fraction? point
    let exponent ← exponent? scale
    return if overflows (digits ++ fraction) (exponent - fraction.length) then .unreadable else .float

/-! ### Dates and times -/

/-- A number of `width` digits from `low` to `high`. -/
def inRange (width low high : Nat) (cs : List Char) : Bool :=
  let n := Text.ofDigits 10 cs
  cs.length = width && cs.all Char.isDigit && low ≤ n && n ≤ high

def daysInMonth (year month : Nat) : Nat :=
  if month = 2 then
    if year % 4 = 0 ∧ (year % 100 ≠ 0 ∨ year % 400 = 0) then 29 else 28
  else if month = 4 ∨ month = 6 ∨ month = 9 ∨ month = 11 then 30
  else 31

def isDate (cs : List Char) : Bool :=
  match Text.splitAt '-' cs with
  | [year, month, day] =>
      inRange 4 0 9999 year && inRange 2 1 12 month &&
        inRange 2 1 (daysInMonth (Text.ofDigits 10 year) (Text.ofDigits 10 month)) day
  | _ => false

def isSeconds (cs : List Char) : Bool :=
  let fraction := cs.drop 2
  inRange 2 0 60 (cs.take 2) &&
    (fraction.isEmpty || (fraction.head? = some '.' && 1 < fraction.length &&
      (fraction.drop 1).all Char.isDigit))

/-- A time of day; the seconds may be missing. -/
def isTime (cs : List Char) : Bool :=
  match Text.splitAt ':' cs with
  | [hour, minute] => inRange 2 0 23 hour && inRange 2 0 59 minute
  | [hour, minute, second] => inRange 2 0 23 hour && inRange 2 0 59 minute && isSeconds second
  | _ => false

def isOffsetTime (cs : List Char) : Bool :=
  let isOffsetMark (c : Char) : Bool := c = 'Z' || c = 'z' || c = '+' || c = '-'
  let time := cs.takeWhile fun c => !isOffsetMark c
  isTime time &&
    match cs.dropWhile fun c => !isOffsetMark c with
    | [] => true
    | ['Z'] => true
    | ['z'] => true
    | _ :: offset =>
        match Text.splitAt ':' offset with
        | [hour, minute] => inRange 2 0 23 hour && inRange 2 0 59 minute
        | _ => false

def isDatetime (cs : List Char) : Bool :=
  isDate cs || isTime cs ||
    (isDate (cs.take 10) &&
      match cs.drop 10 with
      | c :: time => (c = 'T' || c = 't' || c = ' ') && isOffsetTime time
      | [] => false)

/-! ### Classification -/

def scalar? (cs : List Char) : Option Value :=
  if cs = ['t', 'r', 'u', 'e'] then some (.bool true)
  else if cs = ['f', 'a', 'l', 's', 'e'] then some (.bool false)
  else if isDatetime cs then some .datetime
  else (float? cs).orElse fun _ => integer? cs

def scalarEnds : List Char :=
  [' ', '\t', '\r', '\n', '#', '=', ',', '[', ']', '\x7b', '\x7d', '"', '\'']

/-- The run of characters of a scalar. A date and a time may stand in it with a space between. -/
def scalarRun (cs : List Char) : List Char :=
  let run := cs.takeWhile (· ∉ scalarEnds)
  match cs.drop run.length with
  | ' ' :: c :: rest =>
      if isDate run && c.isDigit then run ++ ' ' :: (c :: rest).takeWhile (· ∉ scalarEnds) else run
  | _ => run

def readScalar (cs : List Char) : Option (Value × List Char) := do
  let run := scalarRun cs
  return (← scalar? run, cs.drop run.length)

end Bytecode.Toml

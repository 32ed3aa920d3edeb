import Bytecode.Text.Digits

/-!
# Quoted text in TOML

Strings in one or three quotes of either kind. Double quotes admit escapes; single quotes take every
character as it stands. Control characters other than the tab are refused. Three quotes admit line
ends, of one character or of two, and keep them as they are.
-/

namespace Bytecode.Toml

abbrev Reader (α : Type) := List Char → Option (α × List Char)

def isControl (c : Char) : Bool := (c.toNat < 0x20 && c ≠ '\t') || c.toNat = 0x7f

def hexChar? (digits : List Char) : Option Char :=
  let n := Text.ofDigits 16 digits
  if digits.all Text.isHexDigit && n.isValidChar then some (Char.ofNat n) else none

def consTo (c : Option Char) (read : Option (List Char × List Char)) :
    Option (List Char × List Char) := do
  let c ← c
  let (text, rest) ← read
  return (c :: text, rest)

def shortEscape? (c : Char) : Option Char :=
  [('b', '\x08'), ('t', '\t'), ('n', '\n'), ('f', '\x0c'), ('r', '\r'), ('e', '\x1b'),
    ('"', '"'), ('\\', '\\')].lookup c

/-- The rest of a string in double quotes. -/
def readBasic : Reader (List Char)
  | [] => none
  | '"' :: rest => some ([], rest)
  | '\\' :: 'u' :: a :: b :: c :: d :: rest => consTo (hexChar? [a, b, c, d]) (readBasic rest)
  | '\\' :: 'U' :: a :: b :: c :: d :: e :: f :: g :: h :: rest =>
      consTo (hexChar? [a, b, c, d, e, f, g, h]) (readBasic rest)
  | '\\' :: 'x' :: a :: b :: rest => consTo (hexChar? [a, b]) (readBasic rest)
  | '\\' :: c :: rest => consTo (shortEscape? c) (readBasic rest)
  | c :: rest => if isControl c then none else consTo c (readBasic rest)

/-- The rest of a string in single quotes. -/
def readLiteral : Reader (List Char)
  | [] => none
  | '\'' :: rest => some ([], rest)
  | c :: rest => if isControl c then none else consTo c (readLiteral rest)

/-- Where a string in three double quotes stands: in its text, after a backslash that ends a line,
or in the blanks that follow such a line. -/
inductive Folding where
  | text
  | lineEnd
  | nextLine
  deriving DecidableEq

/-- The end of a string in three quotes: up to two more quotes belong to the text. -/
def closing (quote : Char) (rest : List Char) : List Char × List Char :=
  let extra := (rest.takeWhile fun c => c = quote).take 2
  (extra, rest.drop extra.length)

/-- The rest of a string in three double quotes. A backslash at the end of a line leaves out the
line end and all blanks after it. -/
def readBasicLines : Folding → Reader (List Char)
  | _, [] => none
  | .lineEnd, '\n' :: rest => readBasicLines .nextLine rest
  | .lineEnd, '\r' :: '\n' :: rest => readBasicLines .nextLine rest
  | .lineEnd, c :: rest => if c = ' ' ∨ c = '\t' then readBasicLines .lineEnd rest else none
  | .nextLine, '\r' :: '\n' :: rest => readBasicLines .nextLine rest
  | .nextLine, ' ' :: rest => readBasicLines .nextLine rest
  | .nextLine, '\t' :: rest => readBasicLines .nextLine rest
  | .nextLine, '\n' :: rest => readBasicLines .nextLine rest
  | _, '"' :: '"' :: '"' :: rest => some (closing '"' rest)
  | _, '\\' :: 'u' :: a :: b :: c :: d :: rest =>
      consTo (hexChar? [a, b, c, d]) (readBasicLines .text rest)
  | _, '\\' :: 'U' :: a :: b :: c :: d :: e :: f :: g :: h :: rest =>
      consTo (hexChar? [a, b, c, d, e, f, g, h]) (readBasicLines .text rest)
  | _, '\\' :: 'x' :: a :: b :: rest => consTo (hexChar? [a, b]) (readBasicLines .text rest)
  | _, '\\' :: c :: rest =>
      if c = ' ' ∨ c = '\t' ∨ c = '\n' ∨ c = '\r' then readBasicLines .lineEnd (c :: rest)
      else consTo (shortEscape? c) (readBasicLines .text rest)
  | _, '\r' :: '\n' :: rest => consTo '\r' (consTo '\n' (readBasicLines .text rest))
  | _, c :: rest =>
      if isControl c ∧ c ≠ '\n' then none else consTo c (readBasicLines .text rest)

def readLiteralLines : Reader (List Char)
  | [] => none
  | '\'' :: '\'' :: '\'' :: rest => some (closing '\'' rest)
  | '\r' :: '\n' :: rest => consTo '\r' (consTo '\n' (readLiteralLines rest))
  | c :: rest => if isControl c ∧ c ≠ '\n' then none else consTo c (readLiteralLines rest)

/-- A line end directly after three quotes is no part of the text. -/
def skipFirstLineEnd : List Char → List Char
  | '\n' :: rest => rest
  | '\r' :: '\n' :: rest => rest
  | cs => cs

/-- A string on one line. -/
def readLineString : Reader String
  | '"' :: rest => (readBasic rest).map fun (text, rest) => (String.ofList text, rest)
  | '\'' :: rest => (readLiteral rest).map fun (text, rest) => (String.ofList text, rest)
  | _ => none

def readString : Reader String
  | '"' :: '"' :: '"' :: rest =>
      (readBasicLines .text (skipFirstLineEnd rest)).map fun (text, rest) =>
        (String.ofList text, rest)
  | '\'' :: '\'' :: '\'' :: rest =>
      (readLiteralLines (skipFirstLineEnd rest)).map fun (text, rest) =>
        (String.ofList text, rest)
  | cs => readLineString cs

end Bytecode.Toml

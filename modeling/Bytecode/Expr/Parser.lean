import Bytecode.Expr.Basic
import Bytecode.Text.Digits
import Bytecode.Text.Identifier
import Bytecode.Text.Reading

/-!
# Reading an expression

The grammar has literals (decimal, or hexadecimal after `0x` or `0X`), the variable `oparg`,
parentheses, `if` with two blocks in braces, and seven levels of operators that associate to the
left. Blanks may stand around every token, and at least one stands after `if`. A text that is not
an expression is reported with the byte range of the character at which reading got stuck.
-/

namespace Bytecode.Expr

open Text (Reading skipBlanks readWord readBlanks readRun)

/-- The operators from the loosest level to the tightest; within a level, the order in which they
are tried. A symbol stands before the shorter one that begins it. -/
def levels : List (List Operator) :=
  [[.eq, .ne, .le, .ge, .lt, .gt], [.bitOr], [.bitXor], [.bitAnd], [.shiftLeft, .shiftRight],
    [.add, .sub], [.mul, .div, .rem]]

/-- A literal has to fit 64 bits with a sign. -/
def literal? (base : Nat) (digits : List Char) : Option Expr :=
  (narrow (Text.ofDigits base digits)).map const

def readHexadecimal (cs : List Char) : Reading Expr :=
  .accepting cs
    (((readWord ['0', 'x'] cs).orElse fun _ => readWord ['0', 'X'] cs).andThen fun _ rest =>
      readRun Text.isHexDigit rest)
    (literal? 16)

def readDecimal (cs : List Char) : Reading Expr :=
  .accepting cs (readRun Char.isDigit cs) (literal? 10)

/-- Reads a whole identifier, and accepts `oparg` alone. -/
def readVariable (cs : List Char) : Reading Expr :=
  .accepting cs (readRun Text.isIdentifierContinue cs) fun name =>
    if name = ['o', 'p', 'a', 'r', 'g'] then some oparg else none

def readEnclosed (inner : List Char → Reading Expr) (opening closing : Char) (cs : List Char) :
    Reading Expr :=
  (readWord [opening] cs).andThen fun _ rest =>
    (inner (skipBlanks rest)).andThen fun e rest =>
      (readWord [closing] (skipBlanks rest)).map fun _ => e

def readBlock (inner : List Char → Reading Expr) (cs : List Char) : Reading Expr :=
  (readEnclosed inner '\x7b' '\x7d' (skipBlanks cs)).andThen fun e rest =>
    .accept rest e (skipBlanks rest)

def readConditional (inner : List Char → Reading Expr) (cs : List Char) : Reading Expr :=
  (readWord ['i', 'f'] cs).andThen fun _ rest =>
    (readBlanks rest).andThen fun _ rest =>
      (inner rest).andThen fun condition rest =>
        (readBlock inner rest).andThen fun thenBranch rest =>
          (readWord ['e', 'l', 's', 'e'] rest).andThen fun _ rest =>
            (readBlock inner rest).map fun elseBranch => ifElse condition thenBranch elseBranch

/-- An expression without an operator outside brackets, with blanks around it. -/
def readAtom (inner : List Char → Reading Expr) (cs : List Char) : Reading Expr :=
  let start := skipBlanks cs
  ((((readHexadecimal start).orElse fun _ => readDecimal start).orElse fun _ =>
      readConditional inner start).orElse fun _ =>
        (readVariable start).orElse fun _ =>
          readEnclosed inner '(' ')' start).andThen fun e rest =>
    .accept rest e (skipBlanks rest)

/-- The first operator of `ops` whose symbol begins the text. -/
def readOperator : List Operator → List Char → Reading Operator
  | [], cs => .refuse cs
  | op :: ops, cs =>
      ((readWord op.symbol.toList cs).map fun _ => op).orElse fun _ => readOperator ops cs

def readLink (operand : List Char → Reading Expr) (ops : List Operator) (cs : List Char) :
    Reading (Operator × Expr) :=
  (readOperator ops (skipBlanks cs)).andThen fun op rest =>
    (operand (skipBlanks rest)).map fun rhs => (op, rhs)

/-- Continues `lhs` by operators of one level and their right operands, as long as both can be
read; an operator without an operand is left unread. -/
def readChain (operand : List Char → Reading Expr) (ops : List Operator) :
    Nat → Expr → List Char → Reading Expr
  | 0, lhs, cs => .accept cs lhs cs
  | steps + 1, lhs, cs =>
      let next := readLink operand ops cs
      match next.result with
      | none => ⟨some (lhs, cs), next.refused⟩
      | some ((op, rhs), rest) =>
          (readChain operand ops steps (binary op lhs rhs) rest).alsoRefused next.refused

/-- Reads an operand of the tighter levels, then the chain of the loosest one. A chain has fewer
links than its text has characters. -/
def readLevels (atom : List Char → Reading Expr) : List (List Operator) → List Char → Reading Expr
  | [], cs => atom cs
  | ops :: tighter, cs =>
      (readLevels atom tighter cs).andThen fun lhs rest =>
        readChain (readLevels atom tighter) ops rest.length lhs rest

/-- Reads an expression whose brackets are nested less than `depth` deep. -/
def readNested : Nat → List Char → Reading Expr
  | 0, cs => .refuse cs
  | depth + 1, cs => readLevels (readAtom (readNested depth)) levels cs

/-- Reads an expression; a bracket takes a character, so the text bounds the nesting. -/
def read (cs : List Char) : Reading Expr := readNested (cs.length + 1) cs

def readAll (cs : List Char) : Reading Expr :=
  (read (skipBlanks cs)).andThen fun e rest =>
    match skipBlanks rest with
    | [] => .accept rest e []
    | left => .refuse left

/-- A range of bytes of a text in UTF-8. -/
structure Span where
  start : Nat
  stop : Nat
  deriving DecidableEq, Repr

def utf8Length (cs : List Char) : Nat := cs.foldr (fun c n => c.utf8Size + n) 0

/-- The range of the character that has `left` characters from itself to the end of the text; at
the end of the text the range is empty. -/
def Span.ofLeft (cs : List Char) (left : Nat) : Span :=
  let before := cs.length - left
  let start := utf8Length (cs.take before)
  ⟨start, start + utf8Length ((cs.drop before).take 1)⟩

/-- The expression that the whole text spells, or the range at which reading got stuck. -/
def parse (text : String) : Except Span Expr :=
  let reading := readAll text.toList
  match reading.result with
  | some (e, _) => .ok e
  | none => .error (Span.ofLeft text.toList reading.refused)

end Bytecode.Expr

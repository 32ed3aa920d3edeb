/-!
# Escaped text of a string literal

Characters from the space to the tilde stand for themselves, except for the two quotes and the
backslash, which follow a backslash. Tab, carriage return and line feed have a letter, and every
other character is written as its code point in hexadecimal digits between braces.
-/

namespace Bytecode.Text

def hexDigits (n : Nat) : List Char := Nat.toDigits 16 n

def escapeChar (c : Char) : List Char :=
  if c = '\t' then ['\\', 't']
  else if c = '\r' then ['\\', 'r']
  else if c = '\n' then ['\\', 'n']
  else if c = '\'' ∨ c = '"' ∨ c = '\\' then ['\\', c]
  else if 0x20 ≤ c.toNat ∧ c.toNat ≤ 0x7e then [c]
  else '\\' :: 'u' :: '\x7b' :: (hexDigits c.toNat ++ ['\x7d'])

def escape (cs : List Char) : List Char := cs.flatMap escapeChar

def escaped (text : String) : String := String.ofList (escape text.toList)

@[simp] theorem escape_nil : escape [] = [] := rfl

@[simp] theorem escape_cons (c : Char) (cs : List Char) :
    escape (c :: cs) = escapeChar c ++ escape cs := rfl

end Bytecode.Text

import Bytecode.Text.Digits
import Bytecode.Text.Escape

/-!
# String literals of the emitted language

A string literal stands between double quotes. A backslash in it begins an escape: one character
that stands for another, two hexadecimal digits of an ASCII character, one to six of any character
between braces, or a line feed, which is left out together with the blanks behind it. A carriage
return does not stand in a literal, since line ends are single line feeds when tokens are taken.

Escaped text is read back, whatever stands behind the closing quote.
-/

namespace Bytecode.Rust

open Text (isHexDigit ofDigits ofDigits_toDigits isHexDigit_of_mem_toDigits escapeChar escape
  hexDigits)

/-! ### Reading a literal -/

def simpleEscape? (c : Char) : Option Char :=
  [('n', '\n'), ('r', '\r'), ('t', '\t'), ('\\', '\\'), ('0', '\x00'), ('\'', '\''),
    ('"', '"')].lookup c

def asciiEscape? (high low : Char) : Option Char :=
  let n := ofDigits 16 [high, low]
  if isHexDigit high && isHexDigit low && n < 0x80 then some (Char.ofNat n) else none

/-- The character of one to six hexadecimal digits. Underscores may stand behind the first. -/
def codePointEscape? (written : List Char) : Option Char :=
  let digits := written.filter fun c => c ≠ '_'
  let n := ofDigits 16 digits
  if written.head?.any isHexDigit && digits.all isHexDigit && digits.length ≤ 6 && n.isValidChar
  then some (Char.ofNat n)
  else none

/-- Where in a literal: in its text, behind the brace of a code point, or behind a line feed that
is left out. -/
inductive Within where
  | text
  | codePoint (written : List Char)
  | margin

def inFront (c : Char) (read : Option (List Char × List Char)) : Option (List Char × List Char) :=
  read.map fun (text, rest) => (c :: text, rest)

/-- The text of a literal up to its closing quote, and what stands behind the quote. -/
def literalText? : Within → List Char → Option (List Char × List Char)
  | _, [] => none
  | .codePoint written, c :: rest =>
      if c = '\x7d' then (codePointEscape? written).bind fun d => inFront d (literalText? .text rest)
      else literalText? (.codePoint (written ++ [c])) rest
  | .margin, ' ' :: rest => literalText? .margin rest
  | .margin, '\t' :: rest => literalText? .margin rest
  | .margin, '\n' :: rest => literalText? .margin rest
  | .margin, '\r' :: rest => literalText? .margin rest
  | _, '"' :: rest => some ([], rest)
  | _, '\\' :: '\n' :: rest => literalText? .margin rest
  | _, '\\' :: 'x' :: high :: low :: rest =>
      (asciiEscape? high low).bind fun d => inFront d (literalText? .text rest)
  | _, '\\' :: 'u' :: '\x7b' :: rest => literalText? (.codePoint []) rest
  | _, '\\' :: c :: rest =>
      (simpleEscape? c).bind fun d => inFront d (literalText? .text rest)
  | _, '\r' :: _ => none
  | _, c :: rest => inFront c (literalText? .text rest)

def literal? : List Char → Option (String × List Char)
  | '"' :: cs => (literalText? .text cs).map fun (text, rest) => (String.ofList text, rest)
  | _ => none

example : literal? "\"1\\\n  2\\x7c\\u\x7b1_F6\x7d\\\"\" \"".toList = some ("12|Ƕ\"", " \"".toList) := by
  decide

/-! ### Reading escaped text -/

variable {written digits rest : List Char} {c : Char}

theorem literalText?_plain (hquote : c ≠ '"') (hbackslash : c ≠ '\\') (hreturn : c ≠ '\r')
    (rest : List Char) : literalText? .text (c :: rest) = inFront c (literalText? .text rest) := by
  rw [literalText?] <;> simp_all

theorem literalText?_codePoint (h : '\x7d' ∉ digits) (written rest : List Char) :
    literalText? (.codePoint written) (digits ++ '\x7d' :: rest) =
      (codePointEscape? (written ++ digits)).bind fun d => inFront d (literalText? .text rest) := by
  induction digits generalizing written with
  | nil => rw [List.nil_append, literalText?, if_pos rfl, List.append_nil]
  | cons c digits ih =>
      obtain ⟨hc, hdigits⟩ := not_or.1 fun hor => h (List.mem_cons.2 hor)
      rw [List.cons_append, literalText?, if_neg (Ne.symm hc), ih hdigits, List.append_assoc,
        List.singleton_append]

/-- The code point of a character is read back as the character. -/
theorem codePointEscape?_hexDigits (c : Char) : codePointEscape? (hexDigits c.toNat) = some c := by
  have hhex : ∀ d ∈ hexDigits c.toNat, isHexDigit d = true := fun d hd =>
    isHexDigit_of_mem_toDigits (by decide) (by decide) hd
  have hdigits : (hexDigits c.toNat).filter (fun d => d ≠ '_') = hexDigits c.toNat := by
    refine List.filter_eq_self.2 fun d hd => decide_eq_true ?_
    rintro rfl
    exact absurd (hhex _ hd) (by decide)
  have hhead : (hexDigits c.toNat).head?.any isHexDigit = true := by
    obtain ⟨d, ds, hds⟩ := List.exists_cons_of_ne_nil (Nat.toDigits_ne_nil (n := c.toNat) (b := 16))
    rw [hexDigits, hds]
    exact hhex d (by rw [hexDigits, hds]; exact List.mem_cons_self)
  have hvalid : c.toNat.isValidChar := c.valid
  have hlength : (hexDigits c.toNat).length ≤ 6 := by
    refine (Nat.length_toDigits_le_iff (by decide) (by decide)).2 ?_
    rcases hvalid with h | ⟨-, h⟩ <;> omega
  have hvalue : ofDigits 16 (hexDigits c.toNat) = c.toNat :=
    ofDigits_toDigits (by decide) (by decide) c.toNat
  dsimp only [codePointEscape?]
  rw [hdigits, hhead, List.all_eq_true.2 hhex, decide_eq_true hlength, hvalue,
    decide_eq_true hvalid, Char.ofNat_toNat]
  rfl

/-- No escape runs into what stands behind it. -/
theorem literalText?_escapeChar (c : Char) (rest : List Char) :
    literalText? .text (escapeChar c ++ rest) = inFront c (literalText? .text rest) := by
  unfold escapeChar
  split
  · next h => rw [h]; rfl
  split
  · next h => rw [h]; rfl
  split
  · next h => rw [h]; rfl
  split
  · next h => rcases h with rfl | rfl | rfl <;> rfl
  next hreturn _ hmarks =>
    split
    · exact literalText?_plain (fun h => hmarks (.inr (.inl h))) (fun h => hmarks (.inr (.inr h)))
        hreturn rest
    · have hbrace : '\x7d' ∉ hexDigits c.toNat := fun hmem =>
        absurd (isHexDigit_of_mem_toDigits (by decide) (by decide) hmem) (by decide)
      have hread := literalText?_codePoint hbrace [] rest
      rw [List.nil_append, codePointEscape?_hexDigits] at hread
      rw [List.cons_append, List.cons_append, List.cons_append, List.append_assoc]
      exact hread

theorem literalText?_escape (cs rest : List Char) :
    literalText? .text (escape cs ++ '"' :: rest) = some (cs, rest) := by
  induction cs with
  | nil => rfl
  | cons c cs ih => rw [Text.escape_cons, List.append_assoc, literalText?_escapeChar, ih]; rfl

/-- Escaped text between quotes is a literal that denotes the text. -/
theorem literal?_escaped (text : String) (rest : List Char) :
    literal? ('"' :: ((Text.escaped text).toList ++ '"' :: rest)) = some (text, rest) := by
  rw [literal?, Text.escaped, String.toList_ofList, literalText?_escape]
  exact congrArg (fun read => some (read, rest)) String.ofList_toList

end Bytecode.Rust

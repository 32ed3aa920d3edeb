import Bytecode.Text.Digits
import Bytecode.Text.Identifier

/-!
# Tokens of the emitted language

The emitted text is Rust. Its tokens are taken from left to right, each as long as the characters
allow, and blanks stand between tokens only. Of numerals, only decimal ones without suffix are told
apart, and texts in quotes are not.
-/

namespace Bytecode.Rust

open Text (isIdentifierContinue ofDigits ofDigits_toDigits)

inductive Token where
  | number (value : Nat)
  | name (word : String)
  | symbol (text : String)
  | other (text : String)
  deriving DecidableEq, Repr

/-- The symbols of the language. With a longer symbol, each of its beginnings is one. -/
def symbols : List String :=
  ["+", "-", "*", "/", "%", "^", "!", "&", "|", "&&", "||", "<<", ">>", "+=", "-=", "*=", "/=",
    "%=", "^=", "&=", "|=", "<<=", ">>=", "=", "==", "!=", ">", "<", ">=", "<=", "@", ".", "..",
    "...", "..=", ",", ";", ":", "::", "->", "=>", "<-", "#", "$", "?", "~", "\x7b", "\x7d", "[",
    "]", "(", ")"]

def isSymbol (cs : List Char) : Bool := symbols.any fun symbol => symbol.toList = cs

/-- The characters of the property `Pattern_White_Space`. -/
def blankChars : List Char :=
  ['\t', '\n', '\x0b', '\x0c', '\r', ' ', '\u0085', '\u200e', '\u200f', '\u2028', '\u2029']

def isBlank (c : Char) : Bool := blankChars.contains c

/-- The token that some characters make up. A word that begins with a digit is a numeral. -/
def tokenOf (cs : List Char) : Token :=
  if isSymbol cs then .symbol (String.ofList cs)
  else if cs.all Char.isDigit then .number (ofDigits 10 cs)
  else if cs.all isIdentifierContinue && !cs.head?.any Char.isDigit then .name (String.ofList cs)
  else .other (String.ofList cs)

def continues (cs : List Char) (c : Char) : Bool :=
  (cs.all isIdentifierContinue && isIdentifierContinue c) || isSymbol (cs ++ [c])

def close (cs : List Char) (ts : List Token) : List Token :=
  if cs.isEmpty then ts else tokenOf cs :: ts

/-- The tokens of a text, of which the characters in front have begun the first. -/
def scan (front : List Char) : List Char → List Token
  | [] => close front []
  | c :: cs =>
      if continues front c then scan (front ++ [c]) cs
      else close front (if isBlank c then scan [] cs else scan [c] cs)

def tokens (cs : List Char) : List Token := scan [] cs

example : tokens "i64::from(oparg<=12)!= 0b1".toList =
    [.name "i64", .symbol "::", .name "from", .symbol "(", .name "oparg", .symbol "<=", .number 12,
      .symbol ")", .symbol "!=", .other "0b1"] := by
  decide

/-! ### Scanning a word -/

variable {cs rest : List Char} {ts us : List Token} {c : Char}

def Apart (cs : List Char) : Prop := ∀ c ∈ cs.head?, isIdentifierContinue c = false

theorem apart_nil : Apart [] := fun _ h => nomatch h

theorem apart_cons (h : isIdentifierContinue c = false) (cs : List Char) : Apart (c :: cs) := by
  rintro _ ⟨⟩
  exact h

theorem Apart.append (h : Apart cs) (hrest : Apart rest) : Apart (cs ++ rest) := by
  cases cs with
  | nil => exact hrest
  | cons c cs => exact h

/-- No symbol has a character of a word. -/
theorem isSymbol_eq_false_of_mem (hc : c ∈ cs) (h : isIdentifierContinue c = true) :
    isSymbol cs = false := by
  have hnone : ∀ symbol ∈ symbols,
      (symbol.toList.all fun c => !isIdentifierContinue c) = true := by
    decide
  refine Bool.eq_false_iff.2 fun hsymbol => ?_
  obtain ⟨symbol, hmem, hcs⟩ := List.any_eq_true.1 hsymbol
  have hall := hnone symbol hmem
  rw [of_decide_eq_true hcs] at hall
  have hword := List.all_eq_true.1 hall c hc
  rw [h] at hword
  cases hword

theorem isSymbol_eq_false_of_word (hne : cs ≠ [])
    (hword : ∀ c ∈ cs, isIdentifierContinue c = true) : isSymbol cs = false := by
  obtain ⟨c, cs, rfl⟩ := List.exists_cons_of_ne_nil hne
  exact isSymbol_eq_false_of_mem List.mem_cons_self (hword c List.mem_cons_self)

theorem continues_nil_of_isBlank (h : isBlank c = true) : continues [] c = false := by
  have hnone : (blankChars.all fun c => !continues [] c) = true := by decide +kernel
  simpa using List.all_eq_true.1 hnone c (List.contains_iff_mem.1 h)

/-- Where a character does not belong to the token before it, that token is closed. -/
theorem scan_eq_close (h : continues cs c = false) :
    scan cs (c :: rest) = close cs (tokens (c :: rest)) := by
  have hempty : tokens (c :: rest) = if isBlank c then scan [] rest else scan [c] rest := by
    rw [tokens, scan]
    split
    · next hcontinues =>
        rw [if_neg, List.nil_append]
        intro hblank
        rw [continues_nil_of_isBlank hblank] at hcontinues
        cases hcontinues
    · rfl
  rw [hempty, scan, if_neg (Bool.eq_false_iff.1 h)]

theorem scan_word (front cs : List Char) (hword : ∀ c ∈ front ++ cs, isIdentifierContinue c = true)
    (hrest : Apart rest) : scan front (cs ++ rest) = close (front ++ cs) (tokens rest) := by
  -- Every character moves from the rest of the word to its front, which therefore varies.
  induction cs generalizing front with
  | nil =>
      rw [List.append_nil] at hword ⊢
      cases rest with
      | nil => rfl
      | cons c rest =>
          have hc := hrest c rfl
          cases front with
          | nil => rfl
          | cons d front =>
              have hd := hword d List.mem_cons_self
              refine scan_eq_close ?_
              simp only [continues, hc, Bool.and_false, Bool.false_or, List.cons_append]
              exact isSymbol_eq_false_of_mem List.mem_cons_self hd
  | cons c cs ih =>
      have hc := hword c (List.mem_append_right _ List.mem_cons_self)
      have hfront : front.all isIdentifierContinue = true :=
        List.all_eq_true.2 fun d hd => hword d (List.mem_append_left _ hd)
      rw [List.append_cons] at hword ⊢
      rw [List.cons_append, scan, if_pos, ih _ hword]
      simp only [continues, hfront, hc, Bool.and_self, Bool.true_or]

/-- A word closes the symbol in front of it. -/
theorem scan_symbol (h : isSymbol cs = true) (hc : isIdentifierContinue c = true)
    (rest : List Char) :
    scan cs (c :: rest) = .symbol (String.ofList cs) :: tokens (c :: rest) := by
  have hsymbol : isSymbol (cs ++ [c]) = false :=
    isSymbol_eq_false_of_mem (List.mem_append_right _ List.mem_cons_self) hc
  have hne : cs ≠ [] := by
    rintro rfl
    exact absurd h (by decide)
  have hword : cs.all isIdentifierContinue = false := by
    refine Bool.eq_false_iff.2 fun hall => ?_
    rw [isSymbol_eq_false_of_word hne (List.all_eq_true.1 hall)] at h
    cases h
  rw [scan_eq_close (by rw [continues, hword, hsymbol]; rfl), close,
    List.isEmpty_eq_false_iff.2 hne, tokenOf, if_pos h]
  rfl

/-- The symbols of one character that no longer symbol begins with. -/
def brackets : List Char := ['(', ')', '\x7b', '\x7d', '[', ']', ',', ';']

theorem scan_bracket {bracket : Char} (h : bracket ∈ brackets) (rest : List Char) :
    scan [bracket] rest = .symbol (String.ofList [bracket]) :: tokens rest := by
  have hword : isIdentifierContinue bracket = false := by
    have hnone : (brackets.all fun bracket => !isIdentifierContinue bracket) = true := by
      decide
    simpa using List.all_eq_true.1 hnone bracket h
  have hlast : (brackets.all fun bracket => symbols.all fun symbol =>
      symbol.toList.head? ≠ some bracket || symbol.length = 1) = true := by
    decide
  have hsymbol : isSymbol [bracket] = true := by
    have hsymbols : (brackets.all fun bracket => isSymbol [bracket]) = true := by decide
    exact List.all_eq_true.1 hsymbols bracket h
  have htoken : tokenOf [bracket] = .symbol (String.ofList [bracket]) := if_pos hsymbol
  cases rest with
  | nil => rw [scan, close, htoken]; rfl
  | cons c rest =>
      have hall := List.all_eq_true.1 hlast bracket h
      have hcontinues : continues [bracket] c = false := by
        simp only [continues, List.all_cons, hword, Bool.false_and, Bool.false_or]
        refine Bool.eq_false_iff.2 fun hsymbol => ?_
        obtain ⟨symbol, hmem, hcs⟩ := List.any_eq_true.1 hsymbol
        have hsymbol := List.all_eq_true.1 hall symbol hmem
        rw [← String.length_toList, of_decide_eq_true hcs] at hsymbol
        simp at hsymbol
      rw [scan_eq_close hcontinues, close, htoken]
      rfl

/-! ### Texts and their tokens -/

/-- Whatever follows, unless it goes on with a word, the characters make up these tokens. -/
def Scans (cs : List Char) (ts : List Token) : Prop :=
  ∀ rest, Apart rest → tokens (cs ++ rest) = ts ++ tokens rest

theorem Scans.tokens_eq (h : Scans cs ts) : tokens cs = ts := by
  have hcs := h [] apart_nil
  rwa [List.append_nil, show tokens [] = [] from rfl, List.append_nil] at hcs

theorem Scans.append (h : Scans cs ts) (hrest : Scans rest us) (hapart : Apart rest) :
    Scans (cs ++ rest) (ts ++ us) := by
  intro rest' hrest'
  rw [List.append_assoc, h _ (hapart.append hrest'), hrest _ hrest', List.append_assoc]

theorem scans_word (hne : cs ≠ []) (hword : ∀ c ∈ cs, isIdentifierContinue c = true) :
    Scans cs [tokenOf cs] := by
  intro rest hrest
  rw [tokens, scan_word [] cs hword hrest, List.nil_append, close,
    List.isEmpty_eq_false_iff.2 hne]
  rfl

def Leads (cs : List Char) (ts : List Token) : Prop :=
  ∀ c rest, isIdentifierContinue c = true → tokens (cs ++ c :: rest) = ts ++ tokens (c :: rest)

theorem leads_symbol (symbol : List Char) (ts : List Token) (hsymbol : isSymbol symbol = true)
    (h : ∀ rest, tokens (cs ++ rest) = ts ++ scan symbol rest) :
    Leads cs (ts ++ [.symbol (String.ofList symbol)]) := by
  intro c rest hc
  rw [h, scan_symbol hsymbol hc, List.append_assoc]
  rfl

theorem Leads.append (h : Leads cs ts) (hc : isIdentifierContinue c = true)
    (hrest : Scans (c :: rest) us) : Scans (cs ++ c :: rest) (ts ++ us) := by
  intro more hmore
  rw [List.append_assoc, List.cons_append, h c _ hc, ← List.cons_append, hrest _ hmore,
    List.append_assoc]

theorem isIdentifierContinue_of_isDigit (h : c.isDigit = true) : isIdentifierContinue c = true := by
  have hascii : c.toNat < 0x80 := Nat.lt_of_le_of_lt (Char.isDigit_iff_toNat.1 h).2 (by decide)
  rw [isIdentifierContinue, if_pos hascii, Char.isAlphanum, h, Bool.or_true, Bool.true_or]

theorem scans_toDigits (n : Nat) : Scans (Nat.toDigits 10 n) [.number n] := by
  have hdigits : ∀ c ∈ Nat.toDigits 10 n, c.isDigit = true := fun c hc =>
    Nat.isDigit_of_mem_toDigits (by decide) (Nat.le_refl _) hc
  have hword : ∀ c ∈ Nat.toDigits 10 n, isIdentifierContinue c = true := fun c hc =>
    isIdentifierContinue_of_isDigit (hdigits c hc)
  have htoken : tokenOf (Nat.toDigits 10 n) = .number n := by
    rw [tokenOf, isSymbol_eq_false_of_word Nat.toDigits_ne_nil hword,
      List.all_eq_true.2 hdigits, ofDigits_toDigits (by decide) (by decide)]
    rfl
  rw [← htoken]
  exact scans_word Nat.toDigits_ne_nil hword

def isIdentifier (word : String) : Bool :=
  word.toList.all isIdentifierContinue && word.toList.head?.any fun c => !c.isDigit

theorem exists_of_isIdentifier {word : String} (h : isIdentifier word = true) :
    ∃ c cs, word.toList = c :: cs ∧ isIdentifierContinue c = true := by
  obtain ⟨hword, hhead⟩ := Bool.and_eq_true_iff.1 h
  obtain ⟨c, hc, -⟩ := (Option.any_eq_true _ _).1 hhead
  obtain ⟨cs, hcs⟩ := List.head?_eq_some_iff.1 hc
  exact ⟨c, cs, hcs, List.all_eq_true.1 hword c (List.mem_of_head? hc)⟩

theorem scans_identifier {word : String} (h : isIdentifier word = true) :
    Scans word.toList [.name word] := by
  obtain ⟨hword, hhead⟩ := Bool.and_eq_true_iff.1 h
  obtain ⟨c, hc, hdigit⟩ := (Option.any_eq_true _ _).1 hhead
  have hdigit : c.isDigit = false := by simpa using hdigit
  have hne : word.toList ≠ [] := List.ne_nil_of_mem (List.mem_of_head? hc)
  have htoken : tokenOf word.toList = .name word := by
    have hdigits : word.toList.all Char.isDigit = false :=
      List.all_eq_false.2 ⟨c, List.mem_of_head? hc, Bool.eq_false_iff.1 hdigit⟩
    rw [tokenOf, isSymbol_eq_false_of_word hne (List.all_eq_true.1 hword), hdigits, hword, hc,
      Option.any_some, hdigit, String.ofList_toList]
    rfl
  rw [← htoken]
  exact scans_word hne (List.all_eq_true.1 hword)

theorem Leads.append_identifier {word : String} (h : Leads cs ts)
    (hword : isIdentifier word = true) : Scans (cs ++ word.toList) (ts ++ [.name word]) := by
  obtain ⟨c, rest, hcs, hc⟩ := exists_of_isIdentifier hword
  have hscans := scans_identifier hword
  rw [hcs] at hscans ⊢
  exact h.append hc hscans

/-- Characters that make up their tokens whatever follows, as a bracket does. -/
def Closed (cs : List Char) (ts : List Token) : Prop :=
  ∀ rest, tokens (cs ++ rest) = ts ++ tokens rest

theorem closed_bracket (bracket : Char) (ts : List Token) (hbracket : bracket ∈ brackets)
    (h : ∀ rest, tokens (cs ++ rest) = ts ++ scan [bracket] rest) :
    Closed cs (ts ++ [.symbol (String.ofList [bracket])]) := by
  intro rest
  rw [h, scan_bracket hbracket, List.append_assoc]
  rfl

theorem Closed.scans (h : Closed cs ts) : Scans cs ts := fun rest _ => h rest

theorem Closed.append (h : Closed cs ts) (hrest : Scans rest us) :
    Scans (cs ++ rest) (ts ++ us) := by
  intro rest' hrest'
  rw [List.append_assoc, h, hrest _ hrest', List.append_assoc]

end Bytecode.Rust

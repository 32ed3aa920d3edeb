import Bytecode.Text.Blank

/-!
# Readings with their furthest refusal

A reader takes characters from the front of a text. Besides its value and the rest of the text, a
reading keeps the furthest place at which the next character was refused, over all alternatives
that were tried: a text that cannot be read is reported there. Places are counted from the end, as
the number of characters left, so that they agree between a text and its rests.
-/

namespace Bytecode.Text

structure Reading (α : Type) where
  result : Option (α × List Char)
  /-- The fewest characters left at a refusal; where nothing was refused, the characters left at
  the start of the reading. -/
  refused : Nat

namespace Reading

variable {α β : Type}

def accept (cs : List Char) (value : α) (rest : List Char) : Reading α :=
  ⟨some (value, rest), cs.length⟩

def refuse (cs : List Char) : Reading α := ⟨none, cs.length⟩

def alsoRefused (r : Reading α) (place : Nat) : Reading α := ⟨r.result, min place r.refused⟩

def map (f : α → β) (r : Reading α) : Reading β :=
  ⟨r.result.map fun (value, rest) => (f value, rest), r.refused⟩

def andThen (r : Reading α) (next : α → List Char → Reading β) : Reading β :=
  match r.result with
  | none => ⟨none, r.refused⟩
  | some (value, rest) => (next value rest).alsoRefused r.refused

/-- The first reading, or the second where the first fails. -/
def orElse (r : Reading α) (other : Unit → Reading α) : Reading α :=
  match r.result with
  | some _ => r
  | none => (other ()).alsoRefused r.refused

/-- A reading of `cs` whose value may be rejected. A rejected value fails at its first character,
and no refusal within it counts. -/
def accepting (cs : List Char) (r : Reading α) (f : α → Option β) : Reading β :=
  match r.result with
  | none => ⟨none, r.refused⟩
  | some (value, rest) =>
      match f value with
      | some image => ⟨some (image, rest), r.refused⟩
      | none => refuse cs

@[simp] theorem refused_accept (cs : List Char) (value : α) (rest : List Char) :
    (accept cs value rest).refused = cs.length := rfl

@[simp] theorem refused_refuse (cs : List Char) :
    (refuse cs : Reading α).refused = cs.length := rfl

@[simp] theorem result_accept (cs : List Char) (value : α) (rest : List Char) :
    (accept cs value rest).result = some (value, rest) := rfl

@[simp] theorem result_refuse (cs : List Char) : (refuse cs : Reading α).result = none := rfl

@[simp] theorem result_alsoRefused (r : Reading α) (place : Nat) :
    (r.alsoRefused place).result = r.result := rfl

@[simp] theorem refused_alsoRefused (r : Reading α) (place : Nat) :
    (r.alsoRefused place).refused = min place r.refused := rfl

@[simp] theorem result_map (f : α → β) (r : Reading α) :
    (r.map f).result = r.result.map fun (value, rest) => (f value, rest) := rfl

theorem result_andThen (r : Reading α) (next : α → List Char → Reading β) :
    (r.andThen next).result = r.result.bind fun p => (next p.1 p.2).result := by
  unfold andThen
  cases r.result <;> rfl

theorem result_orElse (r : Reading α) (other : Unit → Reading α) :
    (r.orElse other).result = r.result.or (other ()).result := by
  unfold orElse
  cases h : r.result <;> simp [h]

theorem result_accepting (cs : List Char) (r : Reading α) (f : α → Option β) :
    (accepting cs r f).result = r.result.bind fun p => (f p.1).map fun image => (image, p.2) := by
  unfold accepting
  cases r.result with
  | none => rfl
  | some p => cases h : f p.1 <;> simp [h]

end Reading

def sharedLength : List Char → List Char → Nat
  | c :: cs, d :: ds => if c = d then sharedLength cs ds + 1 else 0
  | _, _ => 0

/-- Reads the characters of `word` one by one; the first that differs is refused. -/
def readWord (word : List Char) (cs : List Char) : Reading Unit :=
  let shared := sharedLength word cs
  if shared = word.length then .accept cs () (cs.drop shared)
  else ⟨none, cs.length - shared⟩

theorem sharedLength_eq_length_iff (word cs : List Char) :
    sharedLength word cs = word.length ↔ ∃ rest, cs = word ++ rest := by
  induction word generalizing cs with
  | nil => simp [sharedLength]
  | cons c word ih =>
      cases cs with
      | nil => simp [sharedLength]
      | cons d cs =>
          by_cases h : c = d
          · subst h
            simp [sharedLength, ih]
          · simp only [sharedLength, h, if_false, List.length_cons, List.cons_append,
              List.cons.injEq]
            constructor
            · intro h0
              omega
            · rintro ⟨rest, hcd, _⟩
              exact (h hcd.symm).elim

/-- A word is read exactly from the texts that begin with it. -/
theorem readWord_eq_some_iff {u : Unit} (word cs rest : List Char) :
    (readWord word cs).result = some (u, rest) ↔ cs = word ++ rest := by
  unfold readWord
  by_cases h : sharedLength word cs = word.length
  · obtain ⟨tail, rfl⟩ := (sharedLength_eq_length_iff word cs).1 h
    simp [h]
  · have hn : ¬ ∃ tail, cs = word ++ tail := fun e => h ((sharedLength_eq_length_iff word cs).2 e)
    simp only [h, if_false]
    constructor
    · intro e
      cases e
    · intro e
      exact (hn ⟨rest, e⟩).elim

def readBlanks (cs : List Char) : Reading Unit :=
  match cs with
  | c :: _ => if isBlank c then .accept cs () (skipBlanks cs) else .refuse cs
  | [] => .refuse cs

/-- Reads the longest run of characters of a class, which must not be empty; the character after
the run is refused as one more of it. -/
def readRun (member : Char → Bool) (cs : List Char) : Reading (List Char) :=
  match cs.takeWhile member with
  | [] => .refuse cs
  | run =>
      let rest := cs.dropWhile member
      ⟨some (run, rest), rest.length⟩

end Bytecode.Text

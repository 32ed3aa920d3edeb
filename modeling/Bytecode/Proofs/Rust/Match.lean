import Bytecode.Proofs.Failing
import Bytecode.Proofs.Rust.Item
import Mathlib.Data.List.SplitLengths

/-!
# Function bodies and their values

The bodies that conversions, predicates and deoptimizing functions are written in: a variable, a
truth value, a test against alternatives, and a choice between arms. Of several arms whose patterns
match, the first is taken; without one there is no value.
-/

namespace Bytecode.Rust

open Emit (Lines arm alternatives isOneOf block)

/-- What functions take and return. Operands are of any type. -/
inductive Datum (α : Type) where
  | integer (n : Nat)
  | truth (b : Bool)
  | operand (a : α)
  /-- A variant, and its field if it has one. -/
  | variant (name : String) (field : Option (String × α))
  | ok (value : Datum α)
  | err
  deriving DecidableEq, Repr

/-! ### Syntax -/

inductive Pattern where
  | wildcard
  | binding (name : String)
  | number (n : Nat)
  | variant (name : String) (field : Option String)
  deriving DecidableEq, Repr

inductive Outcome where
  | place (name : String)
  /-- A variant, with its field and the variable that is moved there. -/
  | variant (name : String) (field : Option (String × String))
  | ok (name : String)
  | err
  deriving DecidableEq, Repr

structure Arm where
  patterns : List Pattern
  outcome : Outcome
  deriving DecidableEq, Repr

inductive Body where
  | place (name : String)
  | truth (b : Bool)
  | isAny (name : String) (patterns : List Pattern)
  | select (name : String) (arms : List Arm)
  deriving DecidableEq, Repr

def variantTokens (name : String) : List Token := [.name "Self", .symbol "::", .name name]

def Pattern.ofTokens? : List Token → Option Pattern
  | [.name "_"] => some .wildcard
  | [.name name] => some (.binding name)
  | [.number n] => some (.number n)
  | [.name "Self", .symbol "::", .name name] => some (.variant name none)
  | [.name "Self", .symbol "::", .name name, .symbol "\x7b", .name field, .symbol "\x7d"] =>
      some (.variant name (some field))
  | _ => none

def alternatives? (ts : List Token) : Option (List Pattern) :=
  (ts.splitOn (.symbol "|")).mapM Pattern.ofTokens?

/-- The outcome of an arm, with the comma behind it. The kind of an error makes no difference. -/
def Outcome.ofTokens? : List Token → Option Outcome
  | [.name name, .symbol ","] => some (.place name)
  | [.name "Self", .symbol "::", .name name, .symbol ","] => some (.variant name none)
  | [.name "Self", .symbol "::", .name name, .symbol "\x7b", .name field, .symbol "\x7d",
      .symbol ","] => some (.variant name (some (field, field)))
  | [.name "Self", .symbol "::", .name name, .symbol "\x7b", .name field, .symbol ":",
      .name source, .symbol "\x7d", .symbol ","] => some (.variant name (some (field, source)))
  | [.name "Ok", .symbol "(", .name "Self", .symbol "::", .name name, .symbol ")", .symbol ","] =>
      some (.ok name)
  | .name "Err" :: .symbol "(" :: _ => some .err
  | _ => none

def Arm.ofTokens? (ts : List Token) : Option Arm := do
  let patterns ← alternatives? (ts.takeWhile fun t => t ≠ .symbol "=>")
  let outcome ← Outcome.ofTokens? ((ts.dropWhile fun t => t ≠ .symbol "=>").drop 1)
  return ⟨patterns, outcome⟩

def Arm.ofLine? (line : String) : Option Arm := Arm.ofTokens? (tokens line.toList)

def Body.ofTokens? : List Token → Option Body
  | [.name "true"] => some (.truth true)
  | [.name "false"] => some (.truth false)
  | [.name name] => some (.place name)
  | .name "matches" :: .symbol "!" :: .symbol "(" :: .name name :: .symbol "," :: ts =>
      if ts.getLast? = some (.symbol ")") then (alternatives? ts.dropLast).map (.isAny name)
      else none
  | _ => none

def Body.ofLines? (lines : Lines) : Option Body :=
  match lines, blocks lines with
  | _, [(opening, arms)] =>
      match tokens opening.toList with
      | [.name "match", .name name, .symbol "\x7b"] =>
          (arms.mapM Arm.ofLine?).map (.select name)
      | _ => none
  | [line], [] => Body.ofTokens? (tokens line.toList)
  | _, _ => none

/-! ### Values -/

section Values

variable {α : Type}

/-- The variables that a pattern binds to parts of a value, if the value matches it. -/
def Pattern.bind? : Pattern → Datum α → Option (List (String × Datum α))
  | wildcard, _ => some []
  | binding name, value => some [(name, value)]
  | number n, .integer m => if n = m then some [] else none
  | variant name none, .variant other none => if name = other then some [] else none
  | variant name (some field), .variant other (some (otherField, a)) =>
      if name = other ∧ field = otherField then some [(field, .operand a)] else none
  | _, _ => none

def Outcome.eval (scope : List (String × Datum α)) : Outcome → Option (Datum α)
  | place name => scope.lookup name
  | variant name none => some (.variant name none)
  | variant name (some (field, source)) =>
      match scope.lookup source with
      | some (.operand a) => some (.variant name (some (field, a)))
      | _ => none
  | ok name => some (.ok (.variant name none))
  | err => some .err

def Arm.bind? (arm : Arm) (value : Datum α) : Option (List (String × Datum α)) :=
  arm.patterns.findSome? fun pattern => pattern.bind? value

def select (scope : List (String × Datum α)) (value : Datum α) : List Arm → Option (Datum α)
  | [] => none
  | arm :: arms =>
      match arm.bind? value with
      | some bound => arm.outcome.eval (bound ++ scope)
      | none => select scope value arms

def Body.eval (scope : List (String × Datum α)) : Body → Option (Datum α)
  | place name => scope.lookup name
  | truth b => some (.truth b)
  | isAny name patterns => do
      let value ← scope.lookup name
      return .truth (patterns.any fun pattern => (pattern.bind? value).isSome)
  | select name arms => do
      let value ← scope.lookup name
      Rust.select scope value arms

def Function.value? (f : Function) (argument : Datum α) : Option (Datum α) := do
  let body ← Body.ofLines? f.body
  body.eval [(f.parameter, argument)]

/-- The value of the one function of a name and an owner that some lines define. -/
def call? (lines : Lines) (owner : List Token) (name : String) (argument : Datum α) :
    Option (Datum α) := do
  let f ← function? lines owner name
  f.value? argument

theorem call?_eq_of_function? {lines : Lines} {owner : List Token} {name : String} {f : Function}
    (h : function? lines owner name = some f) (argument : Datum α) :
    call? lines owner name argument = f.value? argument := by
  rw [call?, h]
  rfl

/-- Where arms are made of rows, the first row that matches gives the value. -/
theorem select_map_append {ρ : Type} {rows : List ρ} {armOf : ρ → Arm} {found : ρ → Bool}
    {result : ρ → Datum α} {scope : List (String × Datum α)} {value : Datum α} (rest : List Arm)
    (hfound : ∀ row ∈ rows, found row = true → ∃ bound, (armOf row).bind? value = some bound ∧
      (armOf row).outcome.eval (bound ++ scope) = some (result row))
    (hmissed : ∀ row ∈ rows, found row = false → (armOf row).bind? value = none) :
    select scope value (rows.map armOf ++ rest) =
      ((rows.find? found).map result).or (select scope value rest) := by
  induction rows with
  | nil => rfl
  | cons row rows ih =>
      cases hrow : found row with
      | true =>
          obtain ⟨bound, hbound, hresult⟩ := hfound row List.mem_cons_self hrow
          rw [List.map_cons, List.cons_append, select, hbound, List.find?_cons_of_pos hrow]
          exact hresult
      | false =>
          have hbound := hmissed row List.mem_cons_self hrow
          rw [List.map_cons, List.cons_append, select, hbound,
            List.find?_cons_of_neg (Bool.eq_false_iff.1 hrow)]
          exact ih (fun other h => hfound other (List.mem_cons_of_mem _ h))
            fun other h => hmissed other (List.mem_cons_of_mem _ h)

end Values

/-! ### Reading arms -/

variable {pattern result : String} {ts us : List Token} {names : List String} {name : String}

theorem scans_variant (h : isIdentifier name = true) :
    Scans ("Self::" ++ name).toList (variantTokens name) := by
  have hself : Leads "Self::".toList [.name "Self", .symbol "::"] :=
    leads_symbol [':', ':'] [.name "Self"] (by decide) fun _ => rfl
  rw [String.toList_append]
  exact hself.append_identifier h

theorem closed_bar : Closed " | ".toList [.symbol "|"] := fun _ => rfl

theorem apart_bar (cs : List Char) : Apart (" | ".toList ++ cs) := apart_cons (by decide) _

theorem closed_arrow : Closed " => ".toList [.symbol "=>"] := fun _ => rfl

theorem apart_arrow (cs : List Char) : Apart (" => ".toList ++ cs) := apart_cons (by decide) _

theorem alternatives_cons_cons (name other : String) (names : List String) :
    alternatives (name :: other :: names) =
      "Self::" ++ name ++ (" | " ++ alternatives (other :: names)) := by
  simp only [alternatives, List.map_cons, String.intercalate_cons_cons, String.append_assoc]

theorem scans_alternatives (hnames : ∀ name ∈ names, isIdentifier name = true) (hne : names ≠ []) :
    Scans (alternatives names).toList ([.symbol "|"].intercalate (names.map variantTokens)) := by
  induction names with
  | nil => contradiction
  | cons name names ih =>
      have hname := scans_variant (hnames name List.mem_cons_self)
      cases names with
      | nil => exact hname
      | cons other names =>
          have hothers := ih (fun name h => hnames name (List.mem_cons_of_mem _ h))
            (List.cons_ne_nil _ _)
          have hbar := closed_bar.append hothers
          rw [← String.toList_append] at hbar
          rw [alternatives_cons_cons, String.toList_append]
          simp only [List.map_cons, List.intercalate_cons_cons, List.append_assoc]
          refine hname.append hbar ?_
          rw [String.toList_append]
          exact apart_bar _

theorem alternatives?_intercalate (hne : names ≠ []) :
    alternatives? ([.symbol "|"].intercalate (names.map variantTokens)) =
      some (names.map fun name => .variant name none) := by
  have hbar : ∀ l ∈ names.map variantTokens, Token.symbol "|" ∉ l := by
    intro l hl
    obtain ⟨name, -, rfl⟩ := List.mem_map.1 hl
    simp [variantTokens]
  rw [alternatives?, List.splitOn_intercalate _ hbar (by simpa using hne)]
  exact mapM_map_eq_some_map fun _ _ => rfl

theorem alternatives?_of_notMem {pattern : Pattern} (hbar : .symbol "|" ∉ ts)
    (hpattern : Pattern.ofTokens? ts = some pattern) : alternatives? ts = some [pattern] := by
  have hsplit : ts.splitOn (.symbol "|") = [ts] := by
    have hone : ([.symbol "|"].intercalate [ts]).splitOn (.symbol "|") = [ts] :=
      List.splitOn_intercalate _ (by simpa using hbar) (List.cons_ne_nil _ _)
    simpa using hone
  rw [alternatives?, hsplit, List.mapM_cons, hpattern]
  rfl

theorem arrow_notMem_intercalate (names : List String) :
    .symbol "=>" ∉ [.symbol "|"].intercalate (names.map variantTokens) := by
  induction names with
  | nil => exact List.not_mem_nil
  | cons name names ih =>
      cases names with
      | nil => simp [variantTokens]
      | cons other names =>
          simp only [List.map_cons, List.intercalate_cons_cons, List.mem_append] at ih ⊢
          simpa [variantTokens] using ih

/-- An arm is read in two parts. -/
theorem ofLine?_arm {patterns : List Pattern} {outcome : Outcome}
    (hpattern : Scans pattern.toList ts) (harrow : .symbol "=>" ∉ ts)
    (hpatterns : alternatives? ts = some patterns)
    (houtcome : Outcome.ofTokens? (tokens (result ++ ",").toList) = some outcome) :
    Arm.ofLine? (arm pattern result) = some ⟨patterns, outcome⟩ := by
  have htext : (arm pattern result).toList =
      pattern.toList ++ (" => ".toList ++ (result ++ ",").toList) := by
    simp only [arm, String.toList_append, List.append_assoc]
  have htokens : tokens (arm pattern result).toList =
      ts ++ .symbol "=>" :: tokens (result ++ ",").toList := by
    rw [htext, hpattern _ (apart_arrow _), closed_arrow]
    rfl
  have hts : ∀ t ∈ ts, decide (t ≠ .symbol "=>") = true := fun t ht =>
    decide_eq_true fun h => harrow (h ▸ ht)
  rw [Arm.ofLine?, Arm.ofTokens?, htokens, List.takeWhile_append_of_pos hts,
    List.dropWhile_append_of_pos hts, List.takeWhile_cons_of_neg (by simp),
    List.dropWhile_cons_of_neg (by simp), List.append_nil, hpatterns]
  simp only [List.drop_succ_cons, List.drop_zero, houtcome]
  rfl

end Bytecode.Rust

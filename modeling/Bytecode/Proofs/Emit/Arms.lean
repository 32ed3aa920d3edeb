import Bytecode.Proofs.Emit.Implementations
import Bytecode.Proofs.Rust.Match

/-!
# The bodies that are emitted

The body of an emitted function is read back as the rows that it is emitted from, and its value is
that of the first row that matches the argument.
-/

namespace Bytecode

/-- A value of the variant of a case, with an operand if the case carries one. -/
def Case.datum {α : Type} (c : Case) (x : α) : Rust.Datum α :=
  .variant c.name (c.operand.map fun operand => (operand.field, x))

structure Case.WellNamed (c : Case) : Prop where
  name : Rust.isIdentifier c.name = true
  field : ∀ operand, c.operand = some operand → Rust.isIdentifier operand.field = true

namespace Emit

open Rust (Token Scans Closed Leads Datum Pattern Outcome Arm Body Function isIdentifier tokens
  opens variantTokens alternatives? alternatives?_of_notMem scans_identifier scans_toDigits
  scans_variant scans_alternatives alternatives?_intercalate arrow_notMem_intercalate ofLine?_arm
  closed_bracket leads_symbol apart_cons lays_block lays_line opens_of_getLast?
  select_map_append)

variable {α : Type} {rows : List (UInt32 × String)} {names : List String}
  {name field goal source parameter opening : String} {ts : List Token} {arms : List Arm}
  {lines : Lines}

theorem closed_comma : Closed ",".toList [.symbol ","] :=
  closed_bracket ',' [] (by decide) fun _ => rfl

/-! ### Choices between arms -/

theorem value?_block (function : String) (hopening : opens (opening ++ " \x7b") = true)
    (hmatch : tokens (opening ++ " \x7b").toList =
      [.name "match", .name parameter, .symbol "\x7b"])
    (harms : lines.mapM Arm.ofLine? = some arms)
    (value : Datum α) :
    Function.value? ⟨function, parameter, block opening lines⟩ value =
      Rust.select [(parameter, value)] value arms := by
  have hbody : Body.ofLines? (block opening lines) = some (.select parameter arms) := by
    unfold Body.ofLines?
    rw [(lays_block hopening lines).eq rfl]
    simp only [hmatch, harms, Option.map_some]
  simp [Function.value?, hbody, Body.eval]

theorem value?_match_raw (function : String) (harms : lines.mapM Arm.ofLine? = some arms)
    (value : Datum α) :
    Function.value? ⟨function, "raw", block "match raw" lines⟩ value =
      Rust.select [("raw", value)] value arms := by
  have hopening : opens ("match raw" ++ " \x7b") = true := by decide
  have hmatch : tokens ("match raw" ++ " \x7b").toList =
      [.name "match", .name "raw", .symbol "\x7b"] := by
    decide
  exact value?_block function hopening hmatch harms value

theorem value?_match_self (function : String) (harms : lines.mapM Arm.ofLine? = some arms)
    (value : Datum α) :
    Function.value? ⟨function, "self", block "match self" lines⟩ value =
      Rust.select [("self", value)] value arms := by
  have hopening : opens ("match self" ++ " \x7b") = true := by decide
  have hmatch : tokens ("match self" ++ " \x7b").toList =
      [.name "match", .name "self", .symbol "\x7b"] := by
    decide
  exact value?_block function hopening hmatch harms value

theorem mapM_arms {ρ : Type} {rows : List ρ} {line : ρ → String} {armOf : ρ → Arm} {last : String}
    {otherwise : Arm}
    (hrows : ∀ row ∈ rows, Arm.ofLine? (line row) = some (armOf row))
    (hlast : Arm.ofLine? last = some otherwise) :
    (rows.map line ++ [last]).mapM Arm.ofLine? = some (rows.map armOf ++ [otherwise]) := by
  rw [List.mapM_append, mapM_map_eq_some_map hrows, List.mapM_cons, hlast]
  rfl

/-! ### Raw values -/

def rawArm (raw : UInt32) (name : String) : Arm := ⟨[.number raw.toNat], .ok name⟩

theorem ofLine?_rawArm (raw : UInt32) (h : isIdentifier name = true) :
    Arm.ofLine? (arm (toString raw) s!"Ok(Self::{name})") =
      some (rawArm raw name) := by
  have hnumber : Scans (toString raw).toList [.number raw.toNat] := by
    have htext : (toString raw).toList = Nat.toDigits 10 raw.toNat := Nat.toList_repr
    rw [htext]
    exact scans_toDigits _
  have hok : Leads "Ok(Self::".toList [.name "Ok", .symbol "(", .name "Self", .symbol "::"] :=
    leads_symbol [':', ':'] [.name "Ok", .symbol "(", .name "Self"] (by decide) fun _ => rfl
  have hclosing : Closed "),".toList [.symbol ")", .symbol ","] :=
    closed_bracket ',' [.symbol ")"] (by decide) fun _ => rfl
  have hresult := (hok.append_identifier h).append hclosing.scans (apart_cons (by decide) _)
  refine ofLine?_arm hnumber (by simp) rfl ?_
  have htext : (s!"Ok(Self::{name})" ++ ",").toList =
      "Ok(Self::".toList ++ name.toList ++ "),".toList := by
    have hsplit : s!"Ok(Self::{name})" ++ "," = "Ok(Self::" ++ name ++ ")" ++ "," := rfl
    rw [hsplit, String.append_assoc, String.toList_append, String.toList_append]
    rfl
  rw [htext, hresult.tokens_eq]
  rfl

theorem ofLine?_errArm (failure : String) :
    Arm.ofLine? (arm "_" ("Err(" ++ failure)) = some ⟨[.wildcard], .err⟩ := by
  have hwildcard : Scans "_".toList [.name "_"] := scans_identifier (by decide)
  have herr : Closed "Err(".toList [.name "Err", .symbol "("] :=
    closed_bracket '(' [.name "Err"] (by decide) fun _ => rfl
  refine ofLine?_arm hwildcard (by simp) rfl ?_
  rw [String.append_assoc, String.toList_append, herr]
  simp [Outcome.ofTokens?]

/-- A raw value is converted to the first variant that it is listed with. -/
theorem value?_rawArmLines (function failure : String)
    (hnames : ∀ row ∈ rows, isIdentifier row.2 = true) (n : Nat) :
    Function.value? ⟨function, "raw", rawArmLines rows ("Err(" ++ failure)⟩ (.integer n) =
      some (((rows.find? fun row => row.1.toNat = n).map fun row =>
        (.ok (.variant row.2 none) : Datum α)).getD .err) := by
  have hrows : ∀ row ∈ rows, Arm.ofLine? (arm (toString row.1) s!"Ok(Self::{row.2})") =
      some (rawArm row.1 row.2) := fun row hrow => ofLine?_rawArm row.1 (hnames row hrow)
  have harms := mapM_arms hrows (ofLine?_errArm failure)
  have hfound : ∀ row ∈ rows, decide (row.1.toNat = n) = true → ∃ bound : List (String × Datum α),
      (rawArm row.1 row.2).bind? (.integer n) = some bound ∧
        (rawArm row.1 row.2).outcome.eval (bound ++ [("raw", .integer n)]) =
          some (.ok (.variant row.2 none)) := by
    intro row _ hrow
    exact ⟨[], by simpa [rawArm, Arm.bind?, Pattern.bind?] using hrow, rfl⟩
  have hmissed : ∀ row ∈ rows, decide (row.1.toNat = n) = false →
      (rawArm row.1 row.2).bind? (.integer n : Datum α) = none := by
    intro row _ hrow
    simpa [rawArm, Arm.bind?, Pattern.bind?] using hrow
  rw [rawArmLines, value?_match_raw function harms,
    select_map_append _ hfound hmissed]
  cases rows.find? _ <;> rfl

/-- A raw value is converted to the name of the entry that it is the key of. -/
theorem value?_rawConversion {β : Type} (function error kind : String) {entries : List β}
    {key : β → UInt32} {nameOf : β → String}
    (hnames : ∀ a ∈ entries, isIdentifier (nameOf a) = true) (raw : UInt32) :
    Function.value? ⟨function, "raw",
        rawArmLines (entries.map fun a => (key a, nameOf a)) ("Err(" ++ error ++ kind)⟩
        (.integer raw.toNat) =
      some (((entries.find? fun a => key a = raw).map fun a =>
        (.ok (.variant (nameOf a) none) : Datum α)).getD .err) := by
  have hrows : ∀ row ∈ entries.map fun a => (key a, nameOf a), isIdentifier row.2 = true :=
    List.forall_mem_map.2 hnames
  rw [String.append_assoc, value?_rawArmLines function _ hrows, List.find?_map, Option.map_map]
  simp only [Function.comp_def, UInt32.toNat_inj]

/-! ### Tests -/

theorem ofLines?_isOneOf (hnames : ∀ name ∈ names, isIdentifier name = true) (hne : names ≠ []) :
    Body.ofLines? [isOneOf names] =
      some (.isAny "self" (names.map fun name => .variant name none)) := by
  have hline : isOneOf names = "matches!(self, " ++ alternatives names ++ ")" := by
    rw [isOneOf, if_neg (by simpa using hne)]
  have hopening : Closed "matches!(self, ".toList
      [.name "matches", .symbol "!", .symbol "(", .name "self", .symbol ","] := fun _ => rfl
  have hclosing : Closed ")".toList [.symbol ")"] := closed_bracket ')' [] (by decide) fun _ => rfl
  have htokens : tokens (isOneOf names).toList =
      .name "matches" :: .symbol "!" :: .symbol "(" :: .name "self" :: .symbol "," ::
        ([.symbol "|"].intercalate (names.map variantTokens) ++ [.symbol ")"]) := by
    have hscans := hopening.append ((scans_alternatives hnames hne).append hclosing.scans
      (apart_cons (by decide) _))
    rw [hline, String.append_assoc, String.toList_append, String.toList_append, hscans.tokens_eq]
    rfl
  have hplain : Rust.blocks [isOneOf names] = [] := by
    have hopens : opens (isOneOf names) = false := by
      rw [hline]
      exact opens_of_getLast? _ ")" ')' rfl (by decide)
    exact (lays_line hopens).eq rfl
  unfold Body.ofLines?
  rw [hplain]
  simp only [htokens, Body.ofTokens?, List.getLast?_concat, if_true, List.dropLast_concat,
    alternatives?_intercalate hne, Option.map_some]

/-- A test holds for the variants that it lists. -/
theorem value?_isOneOf (function : String) (hnames : ∀ name ∈ names, isIdentifier name = true)
    (name : String) :
    Function.value? ⟨function, "self", [isOneOf names]⟩ (.variant name none : Datum α) =
      some (.truth (names.contains name)) := by
  by_cases hne : names = []
  · subst hne
    have hbody : Body.ofLines? [isOneOf []] = some (.truth false) := by decide
    rw [Function.value?, hbody]
    rfl
  · rw [Function.value?, ofLines?_isOneOf hnames hne]
    have hany : (names.map fun name => Pattern.variant name none).any
        (fun pattern => (pattern.bind? (.variant name none : Datum α)).isSome) =
        names.contains name := by
      rw [Bool.eq_iff_iff]
      simp [Pattern.bind?]
    exact congrArg (fun b => some (Datum.truth b)) hany

/-! ### Deoptimizing -/

def deoptArm (members : List String) (target : String) : Arm :=
  ⟨members.map fun name => .variant name none, .variant target none⟩

theorem ofTokens?_variant (h : isIdentifier name = true) :
    Outcome.ofTokens? (tokens (s!"Self::{name}" ++ ",").toList) = some (.variant name none) := by
  have hscans := (scans_variant h).append closed_comma.scans (apart_cons (by decide) _)
  have htext : s!"Self::{name}" = "Self::" ++ name := rfl
  rw [htext, String.toList_append, hscans.tokens_eq]
  rfl

theorem ofLine?_deoptArm (hnames : ∀ name ∈ names, isIdentifier name = true) (hne : names ≠ [])
    (h : isIdentifier name = true) :
    Arm.ofLine? (arm (alternatives names) s!"Self::{name}") = some (deoptArm names name) := by
  exact ofLine?_arm (scans_alternatives hnames hne) (arrow_notMem_intercalate names)
    (alternatives?_intercalate hne) (ofTokens?_variant h)

theorem ofLine?_selfArm : Arm.ofLine? (arm "_" "self") = some ⟨[.wildcard], .place "self"⟩ := by
  decide

theorem bind?_deoptArm (members : List String) (target : String) :
    (deoptArm members target).bind? (.variant name none : Datum α) =
      if members.contains name then some [] else none := by
  unfold deoptArm Arm.bind?
  induction members with
  | nil => rfl
  | cons member members ih =>
      rw [List.map_cons, List.findSome?_cons, ih]
      by_cases h : member = name
      · simp [Pattern.bind?, h]
      · simp [Pattern.bind?, h, Ne.symm h]

/-- A variant deoptimizes to the target of the first row that lists it, or else to itself. -/
theorem value?_deoptArms (function : String) {rows : List (List String × String)}
    (hrows : ∀ row ∈ rows, row.1 ≠ [] ∧ (∀ name ∈ row.1, isIdentifier name = true) ∧
      isIdentifier row.2 = true) (name : String) :
    Function.value? ⟨function, "self", block "match self"
        (rows.map (fun (members, target) => arm (alternatives members) s!"Self::{target}") ++
          [arm "_" "self"])⟩ (.variant name none) =
      some (.variant (((rows.find? fun row => row.1.contains name).map Prod.snd).getD name) none
        : Datum α) := by
  have hlines : ∀ row ∈ rows, Arm.ofLine? (arm (alternatives row.1) s!"Self::{row.2}") =
      some (deoptArm row.1 row.2) := fun row hrow =>
    ofLine?_deoptArm (hrows row hrow).2.1 (hrows row hrow).1 (hrows row hrow).2.2
  have harms := mapM_arms hlines ofLine?_selfArm
  have hfound : ∀ row ∈ rows, row.1.contains name = true → ∃ bound : List (String × Datum α),
      (deoptArm row.1 row.2).bind? (.variant name none) = some bound ∧
        (deoptArm row.1 row.2).outcome.eval (bound ++ [("self", .variant name none)]) =
          some (.variant row.2 none) := by
    intro row _ hrow
    exact ⟨[], by rw [bind?_deoptArm, if_pos hrow], rfl⟩
  have hmissed : ∀ row ∈ rows, row.1.contains name = false →
      (deoptArm row.1 row.2).bind? (.variant name none : Datum α) = none := by
    intro row _ hrow
    rw [bind?_deoptArm, if_neg (Bool.eq_false_iff.1 hrow)]
  rw [value?_match_self function harms, select_map_append _ hfound hmissed]
  cases rows.find? _ <;> rfl

/-! #### Instructions -/

theorem scans_withFields {fields : String} (hname : isIdentifier name = true)
    (hfields : Scans fields.toList ts) :
    Scans ("Self::" ++ withFields name (some fields)).toList
      (variantTokens name ++ .symbol "\x7b" :: (ts ++ [.symbol "\x7d"])) := by
  have hopening : Closed " \x7b ".toList [.symbol "\x7b"] := fun _ => rfl
  have hclosing : Closed " \x7d".toList [.symbol "\x7d"] :=
    closed_bracket '\x7d' [] (by decide) fun _ => rfl
  have hscans := (scans_variant hname).append (hopening.append (hfields.append hclosing.scans
    (apart_cons (by decide) _))) (apart_cons (by decide) _)
  simpa only [withFields, String.toList_append, List.append_assoc, List.cons_append,
    List.nil_append] using hscans

/-- The arm of an instruction and its target, to which the operand is moved. -/
def instructionArm (specialized target : Case) : Arm where
  patterns := [.variant specialized.name (specialized.operand.map Operand.field)]
  outcome := .variant target.name (target.operand.bind fun goal =>
    specialized.operand.map fun source => (goal.field, source.field))

theorem ofTokens?_moved {goal source : String} (hname : isIdentifier name = true)
    (hgoal : isIdentifier goal = true) (hsource : isIdentifier source = true) :
    Outcome.ofTokens? (tokens ("Self::" ++ withFields name (some (if source = goal then goal
      else s!"{goal}: {source}")) ++ ",").toList) = some (.variant name (some (goal, source))) := by
  have hcomma : ∀ {fields : String} {ts : List Token}, Scans fields.toList ts →
      tokens ("Self::" ++ withFields name (some fields) ++ ",").toList =
        variantTokens name ++ .symbol "\x7b" :: (ts ++ [.symbol "\x7d"]) ++ [.symbol ","] := by
    intro fields ts hfields
    have hscans := (scans_withFields hname hfields).append closed_comma.scans
      (apart_cons (by decide) _)
    rw [String.toList_append, hscans.tokens_eq]
  split
  · next hsame =>
      subst hsame
      rw [hcomma (scans_identifier hsource)]
      rfl
  · have hcolon : Closed ": ".toList [.symbol ":"] := fun _ => rfl
    have hmoved : Scans (s!"{goal}: {source}").toList [.name goal, .symbol ":", .name source] := by
      have htext : s!"{goal}: {source}" = goal ++ ": " ++ source := rfl
      have hscans := (scans_identifier hgoal).append (hcolon.append (scans_identifier hsource))
        (apart_cons (by decide) _)
      rw [htext, String.append_assoc, String.toList_append, String.toList_append]
      exact hscans
    rw [hcomma hmoved]
    rfl

variable {c specialized target : Case}

theorem ofLine?_instructionDeoptArm (hspecialized : specialized.WellNamed)
    (htarget : target.WellNamed)
    (hoperand : specialized.operand.isSome = target.operand.isSome) :
    Arm.ofLine? (instructionDeoptArm specialized target) =
      some (instructionArm specialized target) := by
  cases hsource : specialized.operand with
  | none =>
      have hgoal : target.operand = none := by simpa [hsource] using hoperand
      have hpattern : alternatives? (variantTokens specialized.name) =
          some [.variant specialized.name none] :=
        alternatives?_of_notMem (by simp [variantTokens]) rfl
      simp only [instructionDeoptArm, instructionArm, hsource, hgoal, Option.map_none,
        Option.bind_none]
      exact ofLine?_arm (scans_variant hspecialized.name) (by simp [variantTokens]) hpattern
        (ofTokens?_variant htarget.name)
  | some source =>
      obtain ⟨goal, hgoal⟩ : ∃ goal, target.operand = some goal := by
        simpa [hsource, Option.isSome_iff_exists] using hoperand
      have hpattern : alternatives? (variantTokens specialized.name ++
          .symbol "\x7b" :: ([.name source.field] ++ [.symbol "\x7d"])) =
          some [.variant specialized.name (some source.field)] :=
        alternatives?_of_notMem (by simp [variantTokens]) rfl
      simp only [instructionDeoptArm, instructionArm, bindingPattern, hsource, hgoal,
        Option.map_some, Option.bind_some]
      have hfield := hspecialized.field source hsource
      exact ofLine?_arm (scans_withFields hspecialized.name (scans_identifier hfield))
        (by simp [variantTokens]) hpattern
        (ofTokens?_moved htarget.name (htarget.field goal hgoal) hfield)

theorem ofLine?_otherArm :
    Arm.ofLine? (arm "other" "other") = some ⟨[.binding "other"], .place "other"⟩ := by
  decide

/-- An instruction deoptimizes to the target that it is listed with, or else to itself. -/
theorem value?_instructionDeoptArms (function : String) {rows : List (Case × Case)}
    (hrows : ∀ row ∈ rows, row.1.WellNamed ∧ row.2.WellNamed ∧
      row.1.operand.isSome = row.2.operand.isSome)
    (hunique : ∀ row ∈ rows, row.1.name = c.name → row.1 = c) (x : α) :
    Function.value? ⟨function, "self", block "match self"
        (rows.map (fun (specialized, target) => instructionDeoptArm specialized target) ++
          [arm "other" "other"])⟩ (c.datum x) =
      some ((((rows.find? fun row => row.1.name = c.name).map Prod.snd).getD c).datum x) := by
  have hlines : ∀ row ∈ rows, Arm.ofLine? (instructionDeoptArm row.1 row.2) =
      some (instructionArm row.1 row.2) := fun row hrow =>
    ofLine?_instructionDeoptArm (hrows row hrow).1 (hrows row hrow).2.1 (hrows row hrow).2.2
  have harms := mapM_arms hlines ofLine?_otherArm
  have hfound : ∀ row ∈ rows, decide (row.1.name = c.name) = true →
      ∃ bound : List (String × Datum α),
        (instructionArm row.1 row.2).bind? (c.datum x) = some bound ∧
        (instructionArm row.1 row.2).outcome.eval (bound ++ [("self", c.datum x)]) =
          some (row.2.datum x) := by
    intro row hrow hname
    obtain rfl := hunique row hrow (of_decide_eq_true hname)
    have hoperand := (hrows row hrow).2.2
    cases hsource : row.1.operand with
    | none =>
        have hgoal : row.2.operand = none := by simpa [hsource] using hoperand
        exact ⟨[], by simp [instructionArm, Arm.bind?, Pattern.bind?, Case.datum, hsource],
          by simp [instructionArm, Outcome.eval, Case.datum, hgoal]⟩
    | some source =>
        obtain ⟨goal, hgoal⟩ : ∃ goal, row.2.operand = some goal := by
          simpa [hsource, Option.isSome_iff_exists] using hoperand
        exact ⟨[(source.field, .operand x)],
          by simp [instructionArm, Arm.bind?, Pattern.bind?, Case.datum, hsource],
          by simp [instructionArm, Outcome.eval, Case.datum, hsource, hgoal]⟩
  have hmissed : ∀ row ∈ rows, decide (row.1.name = c.name) = false →
      (instructionArm row.1 row.2).bind? (c.datum x) = none := by
    intro row _ hname
    have hne : row.1.name ≠ c.name := of_decide_eq_false hname
    cases hsource : row.1.operand <;> cases hoperand : c.operand <;>
      simp [instructionArm, Arm.bind?, Pattern.bind?, Case.datum, hsource, hoperand, hne]
  rw [value?_match_self function harms, select_map_append _ hfound hmissed]
  cases rows.find? _ <;> rfl

end Emit

end Bytecode

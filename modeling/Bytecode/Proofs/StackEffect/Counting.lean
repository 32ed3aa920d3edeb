import Bytecode.Proofs.Expr.Completeness
import Bytecode.Proofs.StackEffect.Origin

/-!
# Counting the slots of a layout

A described effect counts the variables of its layout that are there, each with its size. What is
counted is said of the texts as they are written; the simplified presences, the conditions that
stand for a slot by themselves and the folded sum agree with it wherever it is defined.
-/

namespace Bytecode

variable {arg : UInt32} {owner : String} {e size condition : Expr} {presence : Presence}
  {x : StackVariable} {xs : List StackVariable} {n v start : Int64} {b : Bool}

/-! ### What is counted -/

def Expr.valueOf? (arg : UInt32) (text : String) : Option Int64 :=
  (Expr.parse text).toOption.bind (Expr.eval arg)

namespace StackVariable

/-- Whether a variable is there: always without a condition, otherwise where it is not zero. -/
def isThere? (arg : UInt32) (x : StackVariable) : Option Bool :=
  match x.condition with
  | none => some true
  | some text => (Expr.valueOf? arg text).map fun value => value ≠ 0

/-- The slots of a variable; the size of one that is not there is not evaluated. -/
def count? (arg : UInt32) (x : StackVariable) : Option Int64 := do
  if ← x.isThere? arg then Expr.valueOf? arg x.size else some 0

/-- The variables, added from left to right to `start`, come to `total` without leaving 64 bits. -/
inductive AddUp (arg : UInt32) : Int64 → List StackVariable → Int64 → Prop
  | nil {total : Int64} : AddUp arg total [] total
  | cons {x : StackVariable} {xs : List StackVariable} {start n next total : Int64} :
      x.count? arg = some n → next.toInt = start.toInt + n.toInt → AddUp arg next xs total →
      AddUp arg start (x :: xs) total

end StackVariable

/-! ### Conditions that are zero or one -/

theorem and_one_eq (a : Int64) : a &&& 1 = 0 ∨ a &&& 1 = 1 := by
  have hbits : (a &&& 1).toBitVec = BitVec.setWidth 64 (BitVec.ofBool (a.toBitVec.getLsbD 0)) := by
    rw [Int64.toBitVec_and]
    exact BitVec.and_one_eq_setWidth_ofBool_getLsbD
  cases hlow : a.toBitVec.getLsbD 0 with
  | false =>
      rw [hlow] at hbits
      exact .inl (Int64.toBitVec_inj.1 hbits)
  | true =>
      rw [hlow] at hbits
      exact .inr (Int64.toBitVec_inj.1 hbits)

theorem truth_eq (b : Bool) : truth b = 0 ∨ truth b = 1 := by
  cases b
  · exact .inl rfl
  · exact .inr rfl

theorem Operator.apply_comparison {op : Operator} {lhs rhs : Int64} (h : op.isComparison = true)
    (hv : op.apply lhs rhs = some v) : v = 0 ∨ v = 1 := by
  have htruth : ∃ b, truth b = v := by
    cases op <;> simp only [isComparison, precedence] at h <;>
      first | exact ⟨_, Option.some.inj hv⟩ | simp at h
  obtain ⟨b, rfl⟩ := htruth
  exact truth_eq b

namespace Expr

theorem eval_of_isBoolean (h : e.isBoolean = true) (hv : e.eval arg = some v) :
    v = 0 ∨ v = 1 := by
  unfold isBoolean at h
  split at h
  · next lhs rhs =>
      obtain ⟨a, b, -, hb, hab⟩ := eval_binary_eq_some_iff.1 hv
      rw [asConst?_eq_some_iff.1 (of_decide_eq_true h)] at hb
      obtain rfl := Option.some.inj hb
      obtain rfl := Option.some.inj hab
      exact and_one_eq a
  · obtain ⟨a, b, -, -, hab⟩ := eval_binary_eq_some_iff.1 hv
    exact Operator.apply_comparison h hab
  · cases h

theorem valueOf?_eq {text : String} (h : parseFor owner text = .ok e) (arg : UInt32) :
    valueOf? arg text = e.eval arg := by
  rw [valueOf?, parseFor_eq_ok_iff.1 h]
  rfl

end Expr

/-! ### One variable -/

namespace Presence

def holds? (arg : UInt32) : Presence → Option Bool
  | always => some true
  | never => some false
  | when condition => (condition.eval arg).map fun value => value ≠ 0

theorem holds?_ofCondition (h : condition.eval arg = some v) :
    (ofCondition condition).holds? arg = some (decide (v ≠ 0)) := by
  unfold ofCondition
  split
  · next value hvalue =>
      rw [Expr.asConst?_eq_some_iff.1 hvalue] at h
      obtain rfl : value = v := Option.some.inj h
      by_cases hzero : value = 0 <;> simp [hzero, holds?]
  · simp [holds?, h]

theorem holds?_of_parse (h : parse owner x.condition = .ok presence)
    (hthere : x.isThere? arg = some b) : presence.holds? arg = some b := by
  unfold StackVariable.isThere? at hthere
  cases hcondition : x.condition with
  | none =>
      rw [hcondition] at h hthere
      obtain rfl := Except.ok.inj h
      exact hthere
  | some text =>
      simp only [hcondition, parse, bind_eq_ok_iff, pure_eq_ok, Except.ok.injEq] at h hthere
      obtain ⟨written, hwritten, rfl⟩ := h
      rw [Expr.valueOf?_eq hwritten] at hthere
      obtain ⟨v, hv, rfl⟩ := Option.map_eq_some_iff.1 hthere
      exact holds?_ofCondition (Expr.eval_simplify_of_eq_some hv)

end Presence

namespace StackVariable

/-- A condition that is zero or one counts a single slot as well as the conditional would. -/
theorem eval_slots (hholds : presence.holds? arg = some b)
    (hsize : (if b then size.eval arg else some 0) = some n) :
    (slots size presence).eval arg = some n := by
  cases presence with
  | always =>
      obtain rfl : true = b := Option.some.inj hholds
      exact hsize
  | never =>
      obtain rfl : false = b := Option.some.inj hholds
      exact hsize
  | when condition =>
      obtain ⟨v, hv, rfl⟩ := Option.map_eq_some_iff.1 hholds
      simp only [slots]
      split
      · next hboolean =>
          rw [hv, ← hsize]
          rcases Expr.eval_of_isBoolean hboolean.2 hv with rfl | rfl
          · rfl
          · rw [hboolean.1]
            rfl
      · refine Expr.eval_ifElse_eq_some_iff.2 ⟨v, hv, ?_⟩
        rw [← hsize]
        by_cases hzero : v = 0
        · simp [hzero, Expr.zero, Expr.eval]
        · simp [hzero]

theorem eval_contribution (h : x.contribution owner = .ok e) (hcount : x.count? arg = some n) :
    e.eval arg = some n := by
  simp only [contribution, bind_eq_ok_iff, pure_eq_ok, Except.ok.injEq] at h
  obtain ⟨size, hsize, presence, hpresence, rfl⟩ := h
  obtain ⟨b, hthere, hslots⟩ := Option.bind_eq_some_iff.1 hcount
  refine eval_slots (Presence.holds?_of_parse hpresence hthere) ?_
  cases b with
  | false => exact hslots
  | true =>
      rw [if_pos rfl, Expr.valueOf?_eq hsize] at hslots
      exact Expr.eval_simplify_of_eq_some hslots

end StackVariable

/-! ### A list of variables -/

namespace StackVariable

/-- Each term adds the count of its variable to the terms before it. -/
theorem AddUp.eval_foldl (h : AddUp arg start xs n) {terms : List Expr}
    (hterms : List.Forall₂ (fun x term => x.contribution owner = .ok term) xs terms)
    (hfront : e.eval arg = some start) :
    (terms.foldl (.binary .add) e).eval arg = some n := by
  induction h generalizing terms e with
  | nil =>
      cases hterms
      exact hfront
  | cons hcount hnext _ ih =>
      cases hterms with
      | cons hterm hrest =>
          rw [List.foldl_cons]
          exact ih hrest (Expr.eval_binary_eq_some_iff.2
            ⟨_, _, hfront, eval_contribution hterm hcount, narrow_eq_some_iff.2 hnext⟩)

end StackVariable

theorem StackLayout.eval_total (h : total owner xs = .ok e)
    (hcount : StackVariable.AddUp arg 0 xs n) : e.eval arg = some n := by
  simp only [total, bind_eq_ok_iff, pure_eq_ok, Except.ok.injEq] at h
  obtain ⟨terms, hterms, rfl⟩ := h
  exact Expr.eval_simplify_of_eq_some (hcount.eval_foldl (mapM_eq_ok_iff.1 hterms) rfl)

/-! ### Whole effects -/

namespace StackEffect

variable {effect : StackEffect} {p q : Int64}

theorem exists_count (h : e.eval arg = some v) (hv : 0 ≤ v.toInt ∧ v.toInt < UInt32.size) :
    ∃ slots, count arg e = .ok slots ∧ (slots.toNat : Int) = v.toInt := by
  have hnat : v.toInt.toNat < UInt32.size := (Int.toNat_lt hv.1).2 hv.2
  refine ⟨UInt32.ofNat v.toInt.toNat, ?_, ?_⟩
  · rw [count, h]
    exact if_pos hv
  · rw [UInt32.toNat_ofNat_of_lt' hnat, Int.toNat_of_nonneg hv.1]

theorem exists_evaluate (hpopped : effect.popped.eval arg = some p)
    (hpushed : effect.pushed.eval arg = some q) (hp : 0 ≤ p.toInt ∧ p.toInt < UInt32.size)
    (hq : 0 ≤ q.toInt ∧ q.toInt < UInt32.size) :
    ∃ counts, effect.evaluate arg = .ok counts ∧ (counts.popped.toNat : Int) = p.toInt ∧
      (counts.pushed.toNat : Int) = q.toInt := by
  obtain ⟨popped, hpoppedCount, hpoppedSlots⟩ := exists_count hpopped hp
  obtain ⟨pushed, hpushedCount, hpushedSlots⟩ := exists_count hpushed hq
  refine ⟨⟨popped, pushed⟩, ?_, hpoppedSlots, hpushedSlots⟩
  rw [evaluate, hpoppedCount, hpushedCount]
  rfl

end StackEffect

namespace StackEffects

variable {set : InstructionSet} {model : InstructionModel} {effects : StackEffects} {d : Definition}
  {layout : StackLayout}

/-- The operand at which a definition is counted: zero for a placeholder without one. -/
def countedAt (model : InstructionModel) (d : Definition) (arg : UInt32) : UInt32 :=
  if d.placeholder ∧ ¬ carriesOperand model d.name then 0 else arg

/-- A declared effect keeps the values that it has at the operand counted at. -/
theorem eval_of_declared {declared effect : StackEffect}
    (heffect : d.stackEffect (carriesOperand model d.name) = .ok effect)
    (hdeclared : d.declaredEffect = .ok declared) (arg : UInt32) :
    (∀ p, declared.popped.eval (countedAt model d arg) = some p →
        effect.popped.eval arg = some p) ∧
      ∀ q, declared.pushed.eval (countedAt model d arg) = some q →
        effect.pushed.eval arg = some q := by
  obtain ⟨declared', hdeclared', hcases⟩ := Definition.stackEffect_eq_ok_iff.1 heffect
  obtain rfl := Except.ok.inj (hdeclared.symm.trans hdeclared')
  rcases hcases with ⟨hplaceholder, rfl⟩ | ⟨hplaceholder, -, rfl⟩
  · cases hcarries : carriesOperand model d.name with
    | true =>
        have hat : countedAt model d arg = arg := by simp [countedAt, hcarries]
        rw [hat]
        exact ⟨fun _ => id, fun _ => id⟩
    | false =>
        have hat : countedAt model d arg = 0 := by simp [countedAt, hcarries, hplaceholder]
        rw [hat]
        exact ⟨fun _ => Expr.eval_substituteOparg_of_eq_some,
          fun _ => Expr.eval_substituteOparg_of_eq_some⟩
  · have hat : countedAt model d arg = arg := by simp [countedAt, hplaceholder]
    rw [hat]
    exact ⟨fun _ => id, fun _ => id⟩

/-- The effect of a layout counts the variables that are there: where they add up, its expressions
have the sum as their value, and where both sums are slot counts, it evaluates to them. -/
theorem evaluate_layout (h : compute set model = .ok effects) {i : Nat}
    (hd : set.definitions[i]? = some d) (hoverride : d.stackOverride = none)
    (hlayout : d.layout = some layout) (arg : UInt32) :
    ∃ effect, effects.entries[i]? = some (d.name, effect) ∧
      (∀ p, StackVariable.AddUp (countedAt model d arg) 0 layout.inputs p →
        effect.popped.eval arg = some p) ∧
      (∀ q, StackVariable.AddUp (countedAt model d arg) 0 layout.outputs q →
        effect.pushed.eval arg = some q) ∧
      ∀ p q, StackVariable.AddUp (countedAt model d arg) 0 layout.inputs p →
        StackVariable.AddUp (countedAt model d arg) 0 layout.outputs q →
        0 ≤ p.toInt ∧ p.toInt < UInt32.size → 0 ≤ q.toInt ∧ q.toInt < UInt32.size →
        ∃ counts, effect.evaluate arg = .ok counts ∧ (counts.popped.toNat : Int) = p.toInt ∧
          (counts.pushed.toNat : Int) = q.toInt := by
  obtain ⟨⟨name, effect⟩, hentry, hcomputed⟩ :=
    exists_getElem?_of_forall₂ (forall₂_of_compute h) hd
  obtain ⟨rfl, heffect⟩ : name = d.name ∧
      d.stackEffect (carriesOperand model d.name) = .ok effect := entryOf_eq_ok_iff.1 hcomputed
  obtain ⟨declared, hdeclared, -⟩ := Definition.stackEffect_eq_ok_iff.1 heffect
  obtain ⟨hinputs, houtputs, -⟩ :=
    (Definition.declaredEffect_of_layout hoverride hlayout).1 hdeclared
  obtain ⟨hpopped, hpushed⟩ := eval_of_declared heffect hdeclared arg
  have hp : ∀ p, StackVariable.AddUp (countedAt model d arg) 0 layout.inputs p →
      effect.popped.eval arg = some p := fun p hsum =>
    hpopped p (StackLayout.eval_total hinputs hsum)
  have hq : ∀ q, StackVariable.AddUp (countedAt model d arg) 0 layout.outputs q →
      effect.pushed.eval arg = some q := fun q hsum =>
    hpushed q (StackLayout.eval_total houtputs hsum)
  exact ⟨effect, hentry, hp, hq, fun p q hpsum hqsum hprange hqrange =>
    StackEffect.exists_evaluate (hp p hpsum) (hq q hqsum) hprange hqrange⟩

/-- A variable whose size is undefined where it is absent, one that its condition counts by itself,
and one for a placeholder without an operand. -/
def callSet : InstructionSet where
  kind := .real
  width := .u8
  definitions := [
    { name := "Call"
      canonicalName := "CALL"
      opcode := 1
      layout := some {
        inputs := [
          { name := "share", size := "8 / oparg", condition := some "oparg" },
          { name := "self", condition := some "oparg & 1" }]
        outputs := [{ name := "result" }] } },
    { name := "Reserved"
      canonicalName := "RESERVED"
      opcode := 2
      placeholder := true
      layout := some { outputs := [{ name := "values", size := "oparg + 2" }] } }]
  increasing := by decide

def callModel : InstructionModel where
  kind := .real
  width := .u8
  cases := [{
    name := "Call"
    canonicalName := "CALL"
    opcode := 1
    flags := { hasOparg := true }
    operand := some ⟨"arg", "Raw"⟩
    placeholder := false
    doc := none }]

theorem evaluate_layout_call :
    ∃ effects call reserved, compute callSet callModel = .ok effects ∧
      effects.entries = [("Call", call), ("Reserved", reserved)] ∧
      call.popped.eval 0 = some 0 ∧ reserved.pushed.eval 7 = some 2 ∧
      ∃ counts, call.evaluate 3 = .ok counts ∧ (counts.popped.toNat : Int) = 3 ∧
        (counts.pushed.toNat : Int) = 1 := by
  have hcompute : compute callSet callModel = .ok ⟨[
      ("Call", ⟨.binary .add (.ifElse .oparg (.binary .div (.const 8) .oparg) .zero)
        (.binary .bitAnd .oparg .one), .one, .described⟩),
      ("Reserved", ⟨.zero, .const 2, .placeholder⟩)]⟩ := by rfl
  obtain ⟨call, hcall, hpopped, -⟩ := evaluate_layout hcompute (i := 0) rfl rfl rfl 0
  obtain ⟨called, hcalled, -, -, hevaluate⟩ := evaluate_layout hcompute (i := 0) rfl rfl rfl 3
  obtain ⟨reserved, hreserved, -, hpushed, -⟩ := evaluate_layout hcompute (i := 1) rfl rfl rfl 7
  obtain rfl : _ = call := congrArg Prod.snd (Option.some.inj hcall)
  obtain rfl : _ = called := congrArg Prod.snd (Option.some.inj hcalled)
  obtain rfl : _ = reserved := congrArg Prod.snd (Option.some.inj hreserved)
  refine ⟨_, _, _, hcompute, rfl, hpopped 0 ?_, hpushed 2 ?_, hevaluate 3 1 ?_ ?_ (by decide)
    (by decide)⟩
  · exact @StackVariable.AddUp.cons _ _ _ _ 0 0 _ rfl rfl
      (@StackVariable.AddUp.cons _ _ _ _ 0 0 _ rfl rfl .nil)
  · exact @StackVariable.AddUp.cons _ _ _ _ 2 2 _ rfl rfl .nil
  · exact @StackVariable.AddUp.cons _ _ _ _ 2 2 _ rfl rfl
      (@StackVariable.AddUp.cons _ _ _ _ 1 3 _ rfl rfl .nil)
  · exact @StackVariable.AddUp.cons _ _ _ _ 1 1 _ rfl rfl .nil

end StackEffects

end Bytecode

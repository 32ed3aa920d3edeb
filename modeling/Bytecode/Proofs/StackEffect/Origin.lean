import Bytecode.Proofs.Expr.Completeness
import Bytecode.Proofs.Expr.Dependence
import Bytecode.Proofs.Instruction.Alignment

/-!
# Origins of stack effects

Every effect is from one of three origins, by its definition alone. Without an operand no effect
depends on one: a placeholder has its operand substituted, and any other definition that needs one
stops the computation. The only other obstacle is a text of a stack layout, and a layout is read
only where the table gives no effect.
-/

namespace Bytecode

variable {owner : String} {d : Definition} {effect declared : StackEffect} {hasOperand : Bool}
  {e : BuildError} {entry : String × StackEffect}

/-! ### Texts of a layout -/

def StackVariable.texts (x : StackVariable) : List String := x.size :: x.condition.toList

def StackLayout.texts (layout : StackLayout) : List String :=
  (layout.inputs ++ layout.outputs).flatMap StackVariable.texts

theorem Presence.text_of_parse_eq_error {condition : Option String}
    (h : parse owner condition = .error e) :
    ∃ text ∈ condition.toList, Expr.parseFor owner text = .error e := by
  cases condition with
  | none => cases h
  | some text =>
      rw [parse, bind_eq_error_iff] at h
      rcases h with htext | ⟨_, -, hend⟩
      · exact ⟨text, by simp, htext⟩
      · cases hend

theorem StackVariable.text_of_contribution_eq_error {x : StackVariable}
    (h : x.contribution owner = .error e) :
    ∃ text ∈ x.texts, Expr.parseFor owner text = .error e := by
  rw [contribution, bind_eq_error_iff] at h
  rcases h with hsize | ⟨_, -, hrest⟩
  · exact ⟨x.size, List.mem_cons_self, hsize⟩
  · rw [bind_eq_error_iff] at hrest
    rcases hrest with hpresence | ⟨_, -, hend⟩
    · obtain ⟨text, hmem, htext⟩ := Presence.text_of_parse_eq_error hpresence
      exact ⟨text, List.mem_cons_of_mem _ hmem, htext⟩
    · cases hend

theorem StackLayout.text_of_total_eq_error {xs : List StackVariable}
    (h : total owner xs = .error e) :
    ∃ x ∈ xs, ∃ text ∈ x.texts, Expr.parseFor owner text = .error e := by
  rw [total, bind_eq_error_iff] at h
  rcases h with hterms | ⟨_, -, hend⟩
  · obtain ⟨x, hx, hfails⟩ := exists_of_mapM_eq_error hterms
    exact ⟨x, hx, StackVariable.text_of_contribution_eq_error hfails⟩
  · cases hend

/-! ### The effect of a definition -/

namespace Definition

theorem declaredEffect_of_override {stated : StackOverride} (h : d.stackOverride = some stated) :
    d.declaredEffect = .ok ⟨stated.popped.simplify, stated.pushed.simplify, .override⟩ := by
  simp only [declaredEffect, h]

theorem declaredEffect_of_layout {layout : StackLayout} (h : d.stackOverride = none)
    (hlayout : d.layout = some layout) :
    d.declaredEffect = .ok declared ↔
      StackLayout.total d.name layout.inputs = .ok declared.popped ∧
        StackLayout.total d.name layout.outputs = .ok declared.pushed ∧
        declared.source = .described := by
  simp only [declaredEffect, h, hlayout, bind_eq_ok_iff, pure_eq_ok, Except.ok.injEq]
  constructor
  · rintro ⟨popped, hpopped, pushed, hpushed, rfl⟩
    exact ⟨hpopped, hpushed, rfl⟩
  · rintro ⟨hpopped, hpushed, hsource⟩
    exact ⟨_, hpopped, _, hpushed, by rw [← hsource]⟩

theorem source_of_declaredEffect (h : d.declaredEffect = .ok declared) :
    declared.source = if d.stackOverride.isSome then .override else .described := by
  cases hoverride : d.stackOverride with
  | some stated =>
      rw [declaredEffect_of_override hoverride] at h
      rw [← Except.ok.inj h]
      rfl
  | none =>
      cases hlayout : d.layout with
      | some layout => exact ((declaredEffect_of_layout hoverride hlayout).1 h).2.2
      | none =>
          simp only [declaredEffect, hoverride, hlayout] at h
          rw [← Except.ok.inj h]
          rfl

/-- A declared effect is missing only for a text of a layout that counts. -/
theorem text_of_declaredEffect_eq_error (h : d.declaredEffect = .error e) :
    d.stackOverride = none ∧ ∃ layout, d.layout = some layout ∧
      ∃ text ∈ layout.texts, Expr.parseFor d.name text = .error e := by
  cases hoverride : d.stackOverride with
  | some stated =>
      rw [declaredEffect_of_override hoverride] at h
      cases h
  | none =>
      cases hlayout : d.layout with
      | none =>
          simp only [declaredEffect, hoverride, hlayout] at h
          cases h
      | some layout =>
          refine ⟨rfl, layout, rfl, ?_⟩
          have htext : ∃ x ∈ layout.inputs ++ layout.outputs, ∃ text ∈ x.texts,
              Expr.parseFor d.name text = .error e := by
            simp only [declaredEffect, hoverride, hlayout, bind_eq_error_iff] at h
            rcases h with hinputs | ⟨_, -, houtputs | ⟨_, -, hend⟩⟩
            · obtain ⟨x, hx, htext⟩ := StackLayout.text_of_total_eq_error hinputs
              exact ⟨x, List.mem_append_left _ hx, htext⟩
            · obtain ⟨x, hx, htext⟩ := StackLayout.text_of_total_eq_error houtputs
              exact ⟨x, List.mem_append_right _ hx, htext⟩
            · cases hend
          obtain ⟨x, hx, text, hmem, htext⟩ := htext
          exact ⟨text, List.mem_flatMap.2 ⟨x, hx, hmem⟩, htext⟩

/-- The effect of a placeholder: without an operand, the declared one at zero. -/
def degenerate (declared : StackEffect) (hasOperand : Bool) : StackEffect :=
  if hasOperand then { declared with source := .placeholder }
  else ⟨declared.popped.substituteOparg 0, declared.pushed.substituteOparg 0, .placeholder⟩

theorem stackEffect_eq_ok_iff :
    d.stackEffect hasOperand = .ok effect ↔ ∃ declared, d.declaredEffect = .ok declared ∧
      (d.placeholder = true ∧ degenerate declared hasOperand = effect ∨
        d.placeholder = false ∧ (declared.usesOparg = true → hasOperand = true) ∧
          declared = effect) := by
  rw [stackEffect, bind_eq_ok_iff]
  refine exists_congr fun declared => and_congr_right fun _ => ?_
  cases d.placeholder with
  | true => cases hasOperand <;> simp [degenerate]
  | false => cases hasOperand <;> cases declared.usesOparg <;> simp

theorem stackEffect_eq_error_iff :
    d.stackEffect hasOperand = .error e ↔ d.declaredEffect = .error e ∨
      ∃ declared, d.declaredEffect = .ok declared ∧ d.placeholder = false ∧ hasOperand = false ∧
        declared.usesOparg = true ∧
        e = .invalidDefinition d.name
          (.effectNeedsOperand declared.popped.display declared.pushed.display) := by
  rw [stackEffect, bind_eq_error_iff]
  refine or_congr_right (exists_congr fun declared => and_congr_right fun _ => ?_)
  cases d.placeholder with
  | true => cases hasOperand <;> simp
  | false => cases hasOperand <;> cases declared.usesOparg <;> simp [eq_comm]

/-- What can stop the computation at a definition: a text of the layout that counts, or an effect
that needs an operand which is missing. -/
inductive Obstacle (d : Definition) (hasOperand : Bool) : BuildError → Prop
  | text {layout : StackLayout} {text : String} {span : Expr.Span} {reason : String} :
      d.stackOverride = none → d.layout = some layout → text ∈ layout.texts →
      Expr.parse text = .error span →
      Obstacle d hasOperand (.invalidExpression d.name text span reason)
  | operand {declared : StackEffect} :
      d.placeholder = false → hasOperand = false → d.declaredEffect = .ok declared →
      declared.usesOparg = true →
      Obstacle d hasOperand (.invalidDefinition d.name
        (.effectNeedsOperand declared.popped.display declared.pushed.display))

theorem obstacle_of_stackEffect (h : d.stackEffect hasOperand = .error e) :
    d.Obstacle hasOperand e := by
  rcases stackEffect_eq_error_iff.1 h with
    hdeclared | ⟨declared, hdeclared, hplaceholder, hoperand, huses, rfl⟩
  · obtain ⟨hoverride, layout, hlayout, text, hmem, htext⟩ :=
      text_of_declaredEffect_eq_error hdeclared
    obtain ⟨span, reason, hspan, rfl⟩ := Expr.exists_of_parseFor_eq_error htext
    exact .text hoverride hlayout hmem hspan
  · exact .operand hplaceholder hoperand hdeclared huses

end Definition

/-! ### Origins -/

namespace StackEffect

structure OriginatesFrom (effect : StackEffect) (d : Definition) : Prop where
  placeholder_iff : effect.source = .placeholder ↔ d.placeholder = true
  override_iff : effect.source = .override ↔
    d.placeholder = false ∧ d.stackOverride.isSome = true
  described_iff : effect.source = .described ↔ d.placeholder = false ∧ d.stackOverride = none
  overridden : ∀ stated, d.placeholder = false → d.stackOverride = some stated →
    effect.popped = stated.popped.simplify ∧ effect.pushed = stated.pushed.simplify

theorem originatesFrom_of_stackEffect (h : d.stackEffect hasOperand = .ok effect) :
    effect.OriginatesFrom d := by
  obtain ⟨declared, hdeclared, ⟨hplaceholder, rfl⟩ | ⟨hplaceholder, -, rfl⟩⟩ :=
    Definition.stackEffect_eq_ok_iff.1 h
  · have hsource : (Definition.degenerate declared hasOperand).source = .placeholder := by
      cases hasOperand <;> rfl
    constructor <;> simp [hsource, hplaceholder]
  · have hsource := Definition.source_of_declaredEffect hdeclared
    cases hoverride : d.stackOverride with
    | none => constructor <;> simp [hsource, hplaceholder, hoverride]
    | some stated =>
        rw [Definition.declaredEffect_of_override hoverride] at hdeclared
        obtain rfl := Except.ok.inj hdeclared
        constructor <;> simp [hplaceholder, hoverride]

/-- The operand does not occur, and the counts are the same for all operands. -/
structure IgnoresOparg (effect : StackEffect) : Prop where
  not_used : effect.popped.usesOparg = false ∧ effect.pushed.usesOparg = false
  same_popped : ∀ arg other, effect.popped.eval arg = effect.popped.eval other
  same_pushed : ∀ arg other, effect.pushed.eval arg = effect.pushed.eval other

theorem ignoresOparg_of_stackEffect (h : d.stackEffect false = .ok effect) :
    effect.IgnoresOparg := by
  have hnot : effect.popped.usesOparg = false ∧ effect.pushed.usesOparg = false := by
    obtain ⟨declared, -, ⟨-, rfl⟩ | ⟨-, huses, rfl⟩⟩ := Definition.stackEffect_eq_ok_iff.1 h
    · exact ⟨Expr.usesOparg_substituteOparg 0 _, Expr.usesOparg_substituteOparg 0 _⟩
    · simpa [usesOparg] using huses
  exact ⟨hnot, Expr.eval_eq_of_not_usesOparg hnot.1, Expr.eval_eq_of_not_usesOparg hnot.2⟩

end StackEffect

/-- Under an override the layout is never read. -/
theorem Definition.stackEffect_of_override (h : d.stackOverride.isSome = true)
    (layout : Option StackLayout) :
    ({ d with layout } : Definition).stackEffect hasOperand = d.stackEffect hasOperand := by
  obtain ⟨stated, hstated⟩ := Option.isSome_iff_exists.1 h
  rw [stackEffect, stackEffect, declaredEffect_of_override hstated,
    declaredEffect_of_override (d := { d with layout }) hstated]

namespace StackEffects

variable {set : InstructionSet} {model : InstructionModel} {effects : StackEffects}

def carriesOperand (model : InstructionModel) (name : String) : Bool :=
  ((model.get? name).bind Case.operand).isSome

theorem entryOf_eq_ok_iff :
    entryOf model d = .ok entry ↔
      entry.1 = d.name ∧ d.stackEffect (carriesOperand model d.name) = .ok entry.2 := by
  simp only [entryOf, bind_eq_ok_iff, pure_eq_ok, Except.ok.injEq]
  constructor
  · rintro ⟨effect, heffect, rfl⟩
    exact ⟨rfl, heffect⟩
  · rintro ⟨hname, heffect⟩
    exact ⟨entry.2, heffect, Prod.ext hname.symm rfl⟩

theorem entryOf_eq_error_iff :
    entryOf model d = .error e ↔ d.stackEffect (carriesOperand model d.name) = .error e := by
  simp only [entryOf, bind_eq_error_iff]
  constructor
  · rintro (hfails | ⟨_, -, hend⟩)
    · exact hfails
    · cases hend
  · exact .inl

/-- The incomplete effects are those of the placeholders, in the order of the definitions. -/
theorem incomplete_eq (h : compute set model = .ok effects) :
    effects.incomplete = (set.definitions.filter Definition.placeholder).map Definition.name := by
  suffices hgen : ∀ (ds : List Definition) (entries : List (String × StackEffect)),
      List.Forall₂ (fun d entry => entryOf model d = .ok entry) ds entries →
      (⟨entries⟩ : StackEffects).incomplete =
        (ds.filter Definition.placeholder).map Definition.name from
    hgen _ _ (forall₂_of_compute h)
  intro ds entries hentries
  induction hentries with
  | nil => rfl
  | @cons d entry _ _ hhead _ ih =>
      obtain ⟨hname, heffect⟩ := entryOf_eq_ok_iff.1 hhead
      have horigin := (StackEffect.originatesFrom_of_stackEffect heffect).placeholder_iff
      have hsame : entry.2.isIncomplete = d.placeholder := by
        rw [StackEffect.isIncomplete, Bool.eq_iff_iff, decide_eq_true_iff, horigin]
      rw [incomplete] at ih ⊢
      cases hplaceholder : d.placeholder with
      | true => simp [hsame, hplaceholder, hname, ih]
      | false => simp [hsame, hplaceholder, ih]

variable {table : Table} {source : PropertySource} {definitions : Definitions}
  {registry : Registry} {defaults : DefaultOpargs}

/-- Every effect has the origin of its definition and, without an operand, depends on none. Besides
a layout text that cannot be read, only an effect that needs a missing operand is refused. -/
theorem compute_origins (kind : SetKind) (hload : table.load source = .ok definitions)
    (hmodel : InstructionModel.build (definitions.set kind) registry defaults = .ok model) :
    (∀ effects, compute (definitions.set kind) model = .ok effects →
      effects.entries.map Prod.fst = (definitions.set kind).definitions.map Definition.name ∧
      effects.incomplete =
        ((definitions.set kind).definitions.filter Definition.placeholder).map Definition.name ∧
      ∀ (i : Nat) entry, effects.entries[i]? = some entry → ∃ d c,
        (definitions.set kind).definitions[i]? = some d ∧ d.name = entry.1 ∧
        model.cases[i]? = some c ∧ c.name = entry.1 ∧
        entry.2.OriginatesFrom d ∧ (c.operand = none → entry.2.IgnoresOparg) ∧
        (d.stackOverride.isSome = true →
          ∀ layout, entryOf model { d with layout } = .ok entry)) ∧
    ∀ e, compute (definitions.set kind) model = .error e →
      ∃ d ∈ (definitions.set kind).definitions, ∃ c, model.get? d.name = some c ∧
        d.Obstacle c.operand.isSome e := by
  have hresolves := InstructionModel.resolves_build hmodel
  have hnames := Table.nodup_names_of_load hload kind
  have hcarries : ∀ c ∈ model.cases, carriesOperand model c.name = c.operand.isSome := by
    intro c hc
    have hfound := (InstructionModel.get?_eq_some_iff hresolves hnames).2 ⟨hc, rfl⟩
    rw [carriesOperand, hfound, Option.bind_some]
  constructor
  · intro effects heffects
    refine ⟨map_fst_entries heffects, incomplete_eq heffects, fun i entry hentry => ?_⟩
    obtain ⟨d, hd, hcomputed⟩ :=
      exists_getElem?_of_forall₂ (forall₂_of_compute heffects).flip hentry
    obtain ⟨c, hc, hcase⟩ := exists_getElem?_of_forall₂ hresolves hd
    obtain ⟨hname, heffect⟩ := entryOf_eq_ok_iff.1 hcomputed
    rw [← hcase.name, hcarries c (List.mem_of_getElem? hc)] at heffect
    refine ⟨d, c, hd, hname.symm, hc, hcase.name.trans hname.symm,
      StackEffect.originatesFrom_of_stackEffect heffect, fun hoperand => ?_,
      fun hoverride layout => ?_⟩
    · rw [hoperand] at heffect
      exact StackEffect.ignoresOparg_of_stackEffect heffect
    · obtain ⟨-, hsame⟩ := entryOf_eq_ok_iff.1 hcomputed
      exact entryOf_eq_ok_iff.2 ⟨hname, (d.stackEffect_of_override hoverride layout).trans hsame⟩
  · intro e he
    rw [compute, bind_eq_error_iff] at he
    obtain ⟨d, hd, hfails⟩ : ∃ d ∈ (definitions.set kind).definitions,
        entryOf model d = .error e := by
      rcases he with hfails | ⟨_, -, hend⟩
      · exact exists_of_mapM_eq_error hfails
      · cases hend
    obtain ⟨c, hc, hcase⟩ := exists_of_forall₂ hresolves.flip hd
    have hobstacle := Definition.obstacle_of_stackEffect (entryOf_eq_error_iff.1 hfails)
    rw [← hcase.name, hcarries c hc] at hobstacle
    exact ⟨d, hd, c, (InstructionModel.get?_eq_some_iff hresolves hnames).2 ⟨hc, hcase.name⟩,
      hobstacle⟩

/-! ### A placeholder and an override over one layout -/

def malformed : StackLayout := { inputs := [{ name := "value", size := "((" }] }

/-- A placeholder that counts by an operand it does not have, and an instruction with constant
counts. -/
def degenerates : Table where
  instructions := .ofList [
    ("Cache", {
      opcode := 0
      canonicalName := "CACHE"
      placeholder := true
      stackEffect := some ⟨"oparg", "oparg + 1"⟩ }),
    ("PushNull", {
      opcode := 1
      canonicalName := "PUSH_NULL"
      stackEffect := some ⟨"0", "3 - 2"⟩ })]

def cache : Definition where
  name := "Cache"
  canonicalName := "CACHE"
  opcode := 0
  placeholder := true
  stackOverride := some ⟨.oparg, .binary .add .oparg .one⟩
  layout := some malformed

def pushNull : Definition where
  name := "PushNull"
  canonicalName := "PUSH_NULL"
  opcode := 1
  stackOverride := some ⟨.zero, .binary .sub (.const 3) (.const 2)⟩
  layout := some malformed

def degenerateSet : InstructionSet where
  kind := .real
  width := .u8
  definitions := [cache, pushNull]
  increasing := by decide

theorem load_degenerates :
    degenerates.load (fun _ => some { stack := some malformed }) =
      .ok { real := degenerateSet, pseudo := ⟨.pseudo, .u16, [], .nil⟩ } := by
  have hknown : degenerates.byCanonicalName =
      .ok (.ofList [("CACHE", "Cache"), ("PUSH_NULL", "PushNull")]) := by cbv
  have hdefinitions : ∀ known, degenerates.instructions.entries.mapM (Table.define
      degenerates.config (fun _ => some { stack := some malformed }) known) =
      .ok [cache, pushNull] := fun _ => by rfl
  simp only [Table.load]
  rw [if_neg (by decide), hknown, ok_bind, hdefinitions, ok_bind]
  cbv

theorem compute_origins_degenerates :
    ∃ definitions model effects,
      degenerates.load (fun _ => some { stack := some malformed }) = .ok definitions ∧
      InstructionModel.build (definitions.set .real) {} {} = .ok model ∧
      compute (definitions.set .real) model = .ok effects ∧ effects.incomplete = ["Cache"] ∧
      ∃ cached pushed, effects.entries = [("Cache", cached), ("PushNull", pushed)] ∧
        cached.source = .placeholder ∧ cached.IgnoresOparg ∧
        pushed.source = .override ∧ pushed.pushed = .one := by
  obtain ⟨model, hmodel, hcases⟩ : ∃ model, InstructionModel.build degenerateSet {} {} = .ok model ∧
      model.cases.map Case.operand = [none, none] := ⟨_, rfl, rfl⟩
  have heffects : compute degenerateSet model = .ok ⟨[
      ("Cache", ⟨.zero, .one, .placeholder⟩), ("PushNull", ⟨.zero, .one, .override⟩)]⟩ := by
    obtain rfl := Except.ok.inj hmodel
    rfl
  obtain ⟨-, hincomplete, hentries⟩ :=
    (compute_origins .real load_degenerates hmodel).1 _ heffects
  obtain ⟨d, c, hd, -, hc, -, horigin, hignores, -⟩ := hentries 0 _ rfl
  obtain ⟨e, -, he, -, -, -, hother, -, -⟩ := hentries 1 _ rfl
  obtain rfl : cache = d := Option.some.inj hd
  obtain rfl : pushNull = e := Option.some.inj he
  have hoperand : c.operand = none := by
    have hfirst : (model.cases.map Case.operand)[0]? = some none := by rw [hcases]; rfl
    rw [List.getElem?_map, hc] at hfirst
    exact Option.some.inj hfirst
  refine ⟨_, model, _, load_degenerates, hmodel, heffects, hincomplete, _, _, rfl,
    horigin.placeholder_iff.2 rfl, hignores hoperand, hother.override_iff.2 ⟨rfl, rfl⟩, ?_⟩
  exact (hother.overridden _ rfl rfl).2.trans (by decide)

end StackEffects

end Bytecode

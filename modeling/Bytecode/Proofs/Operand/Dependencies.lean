import Bytecode.Operand.Registry
import Bytecode.Proofs.Dependency.Order
import Mathlib.Data.List.TakeWhile

/-!
# Dependencies between operand types

The edges of the dependency graph are the references between named types. Types are finished in an
order in which every type stands behind all types it refers to; there is one exactly where every
reference names a named type and no type depends on itself.
-/

namespace Bytecode

/-! ### References -/

/-- A part of a combination names a variant of another type: the type stands before the first dot,
the variant behind it. -/
def Qualifies (part type variant : String) : Prop :=
  '.' ∉ type.toList ∧ part = type ++ "." ++ variant

def qualified? (part : String) : Option (String × String) :=
  (part.toList.idxOf? '.').map fun i =>
    (String.ofList (part.toList.take i), String.ofList (part.toList.drop (i + 1)))

theorem qualified?_eq_some_iff {part type name : String} :
    qualified? part = some (type, name) ↔ Qualifies part type name := by
  rw [qualified?, Option.map_eq_some_iff]
  constructor
  · rintro ⟨i, hi, heq⟩
    obtain ⟨hlt, hdot, hfirst⟩ := List.idxOf?_eq_some_iff.1 hi
    obtain ⟨rfl, rfl⟩ := Prod.mk.inj heq
    refine ⟨fun hmem => ?_, String.toList_inj.1 ?_⟩
    · rw [String.toList_ofList, List.mem_take_iff_getElem] at hmem
      obtain ⟨j, hj, hget⟩ := hmem
      exact hfirst j (Nat.lt_of_lt_of_le hj (Nat.min_le_left _ _)) hget
    · have hsplit := List.take_append_drop i part.toList
      rw [List.drop_eq_getElem_cons hlt, hdot] at hsplit
      simpa using hsplit.symm
  · rintro ⟨hdot, rfl⟩
    have htext : (type ++ "." ++ name).toList = type.toList ++ '.' :: name.toList := by simp
    have hindex : (type ++ "." ++ name).toList.idxOf? '.' = some type.toList.length := by
      rw [htext]
      refine List.idxOf?_eq_some_iff.2 ⟨by simp, by simp, fun j hj hget => hdot ?_⟩
      rw [List.getElem_append_left hj] at hget
      exact hget ▸ List.getElem_mem hj
    refine ⟨type.toList.length, hindex, ?_⟩
    rw [htext, List.take_left, ← List.drop_drop, List.drop_left]
    simp

theorem qualified?_eq_none_iff {part : String} : qualified? part = none ↔ '.' ∉ part.toList := by
  rw [qualified?, Option.map_eq_none_iff, List.idxOf?_eq_none_iff]

theorem Registry.splitReference?_eq (part : String) : splitReference? part = qualified? part := by
  have hindex : part.toList.findIdx (fun c => !decide (c ≠ '.')) = part.toList.idxOf '.' :=
    congrArg (part.toList.findIdx ·) (funext fun c => by simp [Bool.beq_eq_decide_eq])
  rw [splitReference?, List.takeWhile_eq_take_findIdx_not,
    List.dropWhile_eq_drop_findIdx_not, hindex]
  cases hfound : part.toList.idxOf? '.' with
  | none =>
      have hlength : part.toList.idxOf '.' = part.toList.length :=
        List.idxOf_eq_length (List.idxOf?_eq_none_iff.1 hfound)
      rw [qualified?, hfound, hlength, List.drop_length]
      rfl
  | some i =>
      obtain ⟨hlt, hi⟩ : i < part.toList.length ∧ part.toList.idxOf '.' = i :=
        List.findIdx?_eq_some_iff_findIdx_eq.1 hfound
      rw [qualified?, hfound, hi, List.drop_eq_getElem_cons hlt]
      rfl

/-- A specification refers to the type that it derives from, and to the types of which its
combinations name variants. -/
inductive NamedSpec.RefersTo (spec : NamedSpec) : String → Prop where
  | base {derivation : DerivationSpec} (hderivation : spec.derivation = some derivation) :
      RefersTo spec derivation.base
  | combination {variant : VariantSpec} {part type name : String}
      (hvariant : variant ∈ spec.variants) (hpart : part ∈ variant.combine)
      (hqualifies : Qualifies part type name) : RefersTo spec type

theorem NamedSpec.mem_references_iff {spec : NamedSpec} {other : String} :
    other ∈ Registry.references spec ↔ spec.RefersTo other := by
  rw [Registry.references, List.mem_append, List.mem_flatMap]
  simp only [List.mem_filterMap, Registry.splitReference?_eq, Option.map_eq_some_iff,
    Option.mem_toList, Prod.exists, exists_and_right, exists_eq_right]
  constructor
  · rintro (⟨derivation, hderivation, rfl⟩ | ⟨variant, hvariant, part, hpart, name, hname⟩)
    · exact .base hderivation
    · exact .combination hvariant hpart (qualified?_eq_some_iff.1 hname)
  · rintro (hderivation | ⟨hvariant, hpart, hqualifies⟩)
    · exact .inl ⟨_, hderivation, rfl⟩
    · exact .inr ⟨_, hvariant, _, hpart, _, qualified?_eq_some_iff.2 hqualifies⟩

instance (spec : NamedSpec) (other : String) : Decidable (spec.RefersTo other) :=
  decidable_of_iff _ NamedSpec.mem_references_iff

namespace Registry

open Relation

def DependsOn (specs : NameMap OpargSpec) (dependency name : String) : Prop :=
  ∃ spec, specs.get? name = some (.named spec) ∧ spec.RefersTo dependency

def IsNamed (specs : NameMap OpargSpec) (name : String) : Prop :=
  ∃ spec, specs.get? name = some (.named spec)

def Acyclic (specs : NameMap OpargSpec) : Prop := ∀ name, ¬ TransGen (DependsOn specs) name name

variable {specs : NameMap OpargSpec} {g g' : DependencyGraph} {names : List String}
  {a b dependency name : String} {e : BuildError}

/-! ### The graph -/

theorem edge_addEdge : (g.addEdge dependency name).Edge a b ↔
    g.Edge a b ∨ a = dependency ∧ b = name := by
  unfold DependencyGraph.addEdge DependencyGraph.Edge
  split
  · next hmem =>
      refine ⟨.inl, ?_⟩
      rintro (h | ⟨rfl, rfl⟩)
      · exact h
      · exact hmem
  · simp

theorem nodes_addEdge : (g.addEdge dependency name).nodes = g.nodes := by
  unfold DependencyGraph.addEdge
  split <;> rfl

theorem addReference_eq_ok (h : dependencyGraph.addReference specs name g dependency = .ok g') :
    IsNamed specs dependency ∧ g' = g.addEdge dependency name := by
  unfold dependencyGraph.addReference at h
  split at h
  · next spec hspec => exact ⟨⟨spec, hspec⟩, (Except.ok.inj h).symm⟩
  · cases h

theorem addReference_eq_error
    (h : dependencyGraph.addReference specs name g dependency = .error e) :
    ¬ IsNamed specs dependency ∧ e = .missingOpargType dependency name := by
  unfold dependencyGraph.addReference at h
  split at h
  · cases h
  · next hnot => exact ⟨fun ⟨spec, hspec⟩ => hnot spec hspec, (Except.error.inj h).symm⟩

def AddedTo (specs : NameMap OpargSpec) (name : String) (g : DependencyGraph) (front : List String)
    (g' : DependencyGraph) : Prop :=
  g'.nodes = g.nodes ∧ (∀ a b, g'.Edge a b ↔ g.Edge a b ∨ a ∈ front ∧ b = name) ∧
    ∀ a ∈ front, IsNamed specs a

theorem addedTo_nil (g : DependencyGraph) : AddedTo specs name g [] g :=
  ⟨rfl, by simp, fun _ h => absurd h List.not_mem_nil⟩

theorem AddedTo.step {front : List String} {t t' : DependencyGraph}
    (h : AddedTo specs name g front t)
    (hstep : dependencyGraph.addReference specs name t dependency = .ok t') :
    AddedTo specs name g (front ++ [dependency]) t' := by
  obtain ⟨hnodes, hedges, hnamed⟩ := h
  obtain ⟨hdep, rfl⟩ := addReference_eq_ok hstep
  refine ⟨nodes_addEdge.trans hnodes, fun a b => ?_, ?_⟩
  · rw [edge_addEdge, hedges, List.mem_append, List.mem_singleton]
    tauto
  · intro a ha
    rcases List.mem_append.1 ha with ha | ha
    · exact hnamed a ha
    · rwa [List.mem_singleton.1 ha]

def GraphOf (specs : NameMap OpargSpec) (front : List (String × OpargSpec)) (g : DependencyGraph) :
    Prop :=
  g.nodes = specs.names ∧
    (∀ a b, g.Edge a b ↔ ∃ spec, (b, .named spec) ∈ front ∧ a ∈ references spec) ∧
    ∀ a b, g.Edge a b → IsNamed specs a

theorem graphOf_nil : GraphOf specs [] { nodes := specs.names } :=
  ⟨rfl, by simp [DependencyGraph.Edge], by simp [DependencyGraph.Edge]⟩

theorem GraphOf.step {front : List (String × OpargSpec)} {entry : String × OpargSpec}
    (h : GraphOf specs front g) (hstep : dependencyGraph.addReferences specs g entry = .ok g') :
    GraphOf specs (front ++ [entry]) g' := by
  obtain ⟨hnodes, hedges, hnamed⟩ := h
  obtain ⟨name, spec⟩ := entry
  cases spec with
  | aliased spec =>
      cases hstep
      exact ⟨hnodes, fun a b => by simp [hedges], hnamed⟩
  | named spec =>
      obtain ⟨hnodes', hedges', hnamed'⟩ := foldlM_induction hstep (addedTo_nil g)
        fun _ _ _ _ _ _ ht h => ht.step h
      refine ⟨hnodes'.trans hnodes, fun a b => ?_, fun a b hedge => ?_⟩
      · rw [hedges', hedges]
        constructor
        · rintro (⟨spec', hmem, href⟩ | ⟨href, rfl⟩)
          · exact ⟨spec', List.mem_append_left _ hmem, href⟩
          · exact ⟨spec, by simp, href⟩
        · rintro ⟨spec', hmem, href⟩
          rcases List.mem_append.1 hmem with hmem | hmem
          · exact .inl ⟨spec', hmem, href⟩
          · obtain ⟨rfl, hspec⟩ := Prod.ext_iff.1 (List.mem_singleton.1 hmem)
            obtain rfl : spec' = spec := OpargSpec.named.inj hspec
            exact .inr ⟨href, rfl⟩
      · rcases (hedges' a b).1 hedge with hold | ⟨href, -⟩
        · exact hnamed a b hold
        · exact hnamed' a href

theorem graphOf_dependencyGraph (h : dependencyGraph specs = .ok g) :
    GraphOf specs specs.entries g :=
  foldlM_induction h graphOf_nil fun _ _ _ _ _ _ ht h => ht.step h

theorem edge_dependencyGraph (h : dependencyGraph specs = .ok g) : g.Edge = DependsOn specs := by
  funext a b
  simp [(graphOf_dependencyGraph h).2.1, DependsOn, NameMap.get?_eq_some_iff,
    NamedSpec.mem_references_iff]

theorem isNamed_of_dependencyGraph (h : dependencyGraph specs = .ok g)
    (hdep : DependsOn specs dependency name) : IsNamed specs dependency :=
  (graphOf_dependencyGraph h).2.2 dependency name (by rwa [edge_dependencyGraph h])

theorem wellFormed_dependencyGraph (h : dependencyGraph specs = .ok g) : g.WellFormed where
  nodup := by
    rw [(graphOf_dependencyGraph h).1]
    exact specs.nodup_names
  source_mem := by
    intro a b hedge
    obtain ⟨spec, hspec⟩ := (graphOf_dependencyGraph h).2.2 a b hedge
    rw [(graphOf_dependencyGraph h).1]
    exact NameMap.mem_names_iff.2 ⟨_, hspec⟩
  target_mem := by
    intro a b hedge
    rw [edge_dependencyGraph h] at hedge
    obtain ⟨spec, hspec, -⟩ := hedge
    rw [(graphOf_dependencyGraph h).1]
    exact NameMap.mem_names_iff.2 ⟨_, hspec⟩

/-- The graph is refused for a reference that does not name a named type. -/
theorem dependencyGraph_eq_error (h : dependencyGraph specs = .error e) :
    ∃ dependency name, DependsOn specs dependency name ∧ ¬ IsNamed specs dependency ∧
      e = .missingOpargType dependency name := by
  obtain ⟨_, ⟨name, spec⟩, _, g, hsplit, -, hstep⟩ :=
    exists_of_foldlM_eq_error h graphOf_nil fun _ _ _ _ _ _ ht h => ht.step h
  cases spec with
  | aliased spec => cases hstep
  | named spec =>
      obtain ⟨_, dependency, _, t, hsplit', -, hstep'⟩ :=
        exists_of_foldlM_eq_error hstep (addedTo_nil g) fun _ _ _ _ _ _ ht h => ht.step h
      obtain ⟨hnot, rfl⟩ := addReference_eq_error hstep'
      refine ⟨dependency, name, ⟨spec, ?_, ?_⟩, hnot, rfl⟩
      · rw [NameMap.get?_eq_some_iff, hsplit]
        simp
      · rw [← NamedSpec.mem_references_iff, hsplit']
        simp

/-! ### The order -/

/-- Every type stands in the list once, behind all types that it refers to. -/
structure Finishing (specs : NameMap OpargSpec) (names : List String) : Prop where
  named : ∀ dependency name, DependsOn specs dependency name → IsNamed specs dependency
  acyclic : Acyclic specs
  perm : names.Perm specs.names
  mem_front : ∀ {front back dependency name}, names = front ++ name :: back →
    DependsOn specs dependency name → dependency ∈ front
  idxOf_lt : ∀ {dependency name}, DependsOn specs dependency name →
    names.idxOf dependency < names.idxOf name

theorem Finishing.exists_spec (h : Finishing specs names) {front back : List String}
    (hsplit : names = front ++ name :: back) : ∃ spec, specs.get? name = some spec :=
  NameMap.mem_names_iff.1 (h.perm.subset (by simp [hsplit]))

theorem Finishing.notMem_front (h : Finishing specs names) {front back : List String}
    (hsplit : names = front ++ name :: back) : name ∉ front := by
  have hnodup : names.Nodup := h.perm.nodup_iff.2 specs.nodup_names
  rw [hsplit] at hnodup
  intro hmem
  exact (List.nodup_append.1 hnodup).2.2 name hmem name List.mem_cons_self rfl

theorem finishing_of_finishingOrder (h : finishingOrder specs = .ok names) :
    Finishing specs names := by
  rw [finishingOrder, bind_eq_ok_iff] at h
  obtain ⟨g, hg, h⟩ := h
  have hnames : g.order = .ok names := by
    cases horder : g.order with
    | error node => simp [horder] at h
    | ok names' => simpa [horder] using h
  have wf := wellFormed_dependencyGraph hg
  have hordered := DependencyGraph.ordered_of_order wf hnames
  have hedge := edge_dependencyGraph hg
  exact {
    named := fun _ _ => isNamed_of_dependencyGraph hg
    acyclic := by
      intro name
      rw [← hedge]
      exact hordered.acyclic wf
    perm := (graphOf_dependencyGraph hg).1 ▸ hordered.perm
    mem_front := by
      intro front back dependency name hsplit hdep
      rw [← hedge] at hdep
      exact hordered.mem_front wf hsplit hdep
    idxOf_lt := by
      intro dependency name hdep
      rw [← hedge] at hdep
      exact hordered.idxOf_lt wf hdep }

/-- Where there is no order, a type is named that is no named type, or that depends on itself
through the type that it is reported for. -/
theorem finishingOrder_eq_error (h : finishingOrder specs = .error e) :
    ∃ dependency name, DependsOn specs dependency name ∧
      e = .missingOpargType dependency name ∧
      (¬ IsNamed specs dependency ∨ ReflTransGen (DependsOn specs) name dependency) := by
  cases hg : dependencyGraph specs with
  | error e' =>
      obtain ⟨dependency, name, hdep, hnot, rfl⟩ := dependencyGraph_eq_error hg
      rw [finishingOrder, hg] at h
      exact ⟨dependency, name, hdep, (Except.error.inj h).symm, .inl hnot⟩
  | ok g =>
      have wf := wellFormed_dependencyGraph hg
      cases horder : g.order with
      | ok names => simp [finishingOrder, hg, horder] at h
      | error node =>
          have hcycle := DependencyGraph.cycle_of_order_eq_error wf horder
          obtain ⟨hdep, hreach⟩ := DependencyGraph.wayBack_spec wf hcycle
          rw [edge_dependencyGraph hg] at hdep hreach
          have he : e = .missingOpargType node (g.wayBack node) := by
            simpa [finishingOrder, hg, horder, eq_comm] using h
          exact ⟨node, g.wayBack node, hdep, he, .inr hreach⟩

/-- No type depends on itself, and only on named types: then there is an order. -/
theorem exists_finishing (hnamed : ∀ dependency name, DependsOn specs dependency name →
    IsNamed specs dependency) (hacyclic : Acyclic specs) :
    ∃ names, finishingOrder specs = .ok names ∧ Finishing specs names := by
  cases h : finishingOrder specs with
  | ok names => exact ⟨names, rfl, finishing_of_finishingOrder h⟩
  | error e =>
      obtain ⟨dependency, name, hdep, -, hnot | hreach⟩ := finishingOrder_eq_error h
      · exact absurd (hnamed dependency name hdep) hnot
      · exact absurd (.head' hdep hreach) (hacyclic dependency)

end Registry

end Bytecode

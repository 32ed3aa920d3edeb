import Bytecode.Proofs.Dependency.Search

/-!
# The order of a dependency graph

The second search finds an edge against the order of the first one exactly when there is one, and
then names a node of a cycle. Where it finds none, every node stands behind all its dependencies.
-/

namespace Bytecode

namespace DependencyGraph

open Relation

variable {g : DependencyGraph} {fresh list names : List String} {a b n d : String}

/-! ### The search over dependencies -/

theorem stepBack?_cons_of_mem {rest : List String} (h : n ∈ fresh) :
    g.stepBack? fresh (n :: rest) = some (n, fresh.erase n,
      ((g.dependencies n).filter fun d => d ∈ fresh.erase n).reverse ++ rest) := by
  rw [stepBack?, if_pos h]

/-- The second node of a search from a fresh node is its last dependency that is still fresh. -/
theorem secondNode?_cons {rest : List String} (h : n ∈ fresh) :
    g.secondNode? fresh (n :: rest) =
      match ((g.dependencies n).filter fun d => d ∈ fresh.erase n).reverse with
      | [] => g.secondNode? (fresh.erase n) rest
      | d :: _ => some d := by
  rw [secondNode?, stepBack?_cons_of_mem h, List.append_nil]
  cases hpushed : ((g.dependencies n).filter fun d => d ∈ fresh.erase n).reverse with
  | nil => simp [stepBack?]
  | cons d pushed =>
      have hd : d ∈ ((g.dependencies n).filter fun d => d ∈ fresh.erase n).reverse := by
        rw [hpushed]
        exact List.mem_cons_self
      have hfresh : d ∈ fresh.erase n := by
        simpa using (List.mem_filter.1 (List.mem_reverse.1 hd)).2
      simp [stepBack?_cons_of_mem hfresh]

theorem mem_pushedBack : d ∈ ((g.dependencies n).filter fun d => d ∈ fresh.erase n).reverse ↔
    g.Edge d n ∧ d ∈ fresh.erase n := by
  simp [mem_dependencies]

theorem secondNode?_eq_some (hperm : fresh.Perm list) (hnodup : list.Nodup)
    (h : g.secondNode? fresh list = some d) :
    ∃ front n back, list = front ++ n :: back ∧ d ∈ back ∧ g.Edge d n := by
  induction list generalizing fresh with
  | nil => cases h
  | cons n rest ih =>
      have hfresh : n ∈ fresh := hperm.mem_iff.2 List.mem_cons_self
      have hrest : (fresh.erase n).Perm rest := by simpa using hperm.erase n
      rw [secondNode?_cons hfresh] at h
      cases hpushed : ((g.dependencies n).filter fun d => d ∈ fresh.erase n).reverse with
      | nil =>
          rw [hpushed] at h
          obtain ⟨front, n', back, hsplit, hback, hedge⟩ := ih hrest (List.nodup_cons.1 hnodup).2 h
          exact ⟨n :: front, n', back, by rw [hsplit, List.cons_append], hback, hedge⟩
      | cons d' pushed =>
          rw [hpushed] at h
          obtain rfl : d' = d := Option.some.inj h
          obtain ⟨hedge, hd⟩ := mem_pushedBack.1 (hpushed ▸ List.mem_cons_self)
          exact ⟨[], n, rest, rfl, hrest.mem_iff.1 hd, hedge⟩

theorem pairwise_of_secondNode?_eq_none (hperm : fresh.Perm list)
    (h : g.secondNode? fresh list = none) : list.Pairwise fun a b => ¬ g.Edge b a := by
  induction list generalizing fresh with
  | nil => exact .nil
  | cons n rest ih =>
      have hfresh : n ∈ fresh := hperm.mem_iff.2 List.mem_cons_self
      have hrest : (fresh.erase n).Perm rest := by simpa using hperm.erase n
      rw [secondNode?_cons hfresh] at h
      cases hpushed : ((g.dependencies n).filter fun d => d ∈ fresh.erase n).reverse with
      | nil =>
          rw [hpushed] at h
          refine List.pairwise_cons.2 ⟨fun d hd hedge => ?_, ih hrest h⟩
          have hmem := mem_pushedBack.2 ⟨hedge, hrest.mem_iff.2 hd⟩
          rw [hpushed] at hmem
          exact List.not_mem_nil hmem
      | cons d pushed =>
          rw [hpushed] at h
          cases h

/-! ### Orders -/

/-- Every node stands in the list once, behind all nodes that it depends on. -/
structure Ordered (g : DependencyGraph) (names : List String) : Prop where
  perm : names.Perm g.nodes
  forward : names.Pairwise fun a b => ¬ g.Edge b a
  loopless : ∀ n, ¬ g.Edge n n

theorem Ordered.mem_front (h : g.Ordered names) (wf : g.WellFormed) {front back : List String}
    (hsplit : names = front ++ n :: back) (hedge : g.Edge d n) : d ∈ front := by
  have hd : d ∈ front ++ n :: back := hsplit ▸ h.perm.mem_iff.2 (wf.source_mem hedge)
  rcases List.mem_append.1 hd with hd | hd
  · exact hd
  · have hforward := hsplit ▸ h.forward
    rcases List.mem_cons.1 hd with rfl | hd
    · exact absurd hedge (h.loopless d)
    · have hback := (List.pairwise_cons.1 (List.pairwise_append.1 hforward).2.1).1
      exact absurd hedge (hback d hd)

theorem Ordered.idxOf_lt (h : g.Ordered names) (wf : g.WellFormed) (hedge : g.Edge a b) :
    names.idxOf a < names.idxOf b := by
  have hb : b ∈ names := h.perm.mem_iff.2 (wf.target_mem hedge)
  obtain ⟨front, back, hsplit⟩ := List.append_of_mem hb
  have ha : a ∈ front := h.mem_front wf hsplit hedge
  have hnodup : (front ++ b :: back).Nodup := hsplit ▸ h.perm.nodup_iff.2 wf.nodup
  have hnot : b ∉ front := fun hmem =>
    (List.nodup_append.1 hnodup).2.2 b hmem b List.mem_cons_self rfl
  rw [hsplit, List.idxOf_append_of_mem ha, List.idxOf_append_of_notMem hnot, List.idxOf_cons_self]
  exact List.idxOf_lt_length_of_mem ha

theorem Ordered.acyclic (h : g.Ordered names) (wf : g.WellFormed) : ¬ TransGen g.Edge n n := by
  have hlt : ∀ m, TransGen g.Edge n m → names.idxOf n < names.idxOf m := by
    intro m hm
    induction hm with
    | single hedge => exact h.idxOf_lt wf hedge
    | tail _ hedge ih => exact Nat.lt_trans ih (h.idxOf_lt wf hedge)
  exact fun hcycle => Nat.lt_irrefl _ (hlt n hcycle)

theorem ordered_of_order (wf : g.WellFormed) (h : g.order = .ok names) : g.Ordered names := by
  rw [order, bind_eq_ok_iff] at h
  obtain ⟨after, hsearch, h⟩ := h
  have hperm := (settled_of_search wf hsearch).1
  cases hsecond : g.secondNode? g.nodes after.finished with
  | some node => simp [hsecond] at h
  | none =>
      obtain rfl : after.finished = names := by simpa [hsecond] using h
      refine ⟨hperm, pairwise_of_secondNode?_eq_none hperm.symm hsecond, fun n hedge => ?_⟩
      obtain ⟨hvalid, -, hentered⟩ := searched_of_search wf hsearch
      have hn := wf.source_mem hedge
      exact hvalid.loopless n hn (hentered n hn) hedge

/-- The node that is named where there is no order lies on a cycle. An edge against the order of
the first search comes from a node that was left while its dependent was open. -/
theorem cycle_of_order_eq_error (wf : g.WellFormed) (h : g.order = .error n) :
    TransGen g.Edge n n := by
  cases hsearch : g.search with
  | error node =>
      simp only [order, hsearch] at h
      obtain rfl : node = n := Except.error.inj h
      exact .single (edge_of_search_eq_error hsearch)
  | ok after =>
      obtain ⟨hperm, hsettled⟩ := settled_of_search wf hsearch
      have hnodup : after.finished.Nodup := hperm.nodup_iff.2 wf.nodup
      have hsecond : g.secondNode? g.nodes after.finished = some n := by
        simp only [order, hsearch, ok_bind] at h
        split at h
        · next hnode => rwa [Except.error.inj h] at hnode
        · cases h
      obtain ⟨front, b, back, hsplit, hback, hedge⟩ :=
        secondNode?_eq_some hperm.symm hnodup hsecond
      rw [hsplit] at hsettled hnodup
      have hb : b ∉ back := (List.nodup_cons.1 (List.nodup_append.1 hnodup).2.1).1
      have hreach : ReflTransGen g.Edge b n := hsettled.back.2.reaches hback hedge hb
      exact .head' hedge hreach

/-! ### Ways -/

theorem mem_widen {nodes : List String} :
    n ∈ g.widen nodes ↔ n ∈ nodes ∨ ∃ m ∈ nodes, g.Edge m n := by
  rw [widen, List.mem_append, List.mem_eraseDups, List.mem_filter, List.mem_flatMap]
  simp only [mem_dependents, decide_eq_true_eq]
  constructor
  · rintro (h | ⟨h, -⟩)
    · exact .inl h
    · exact .inr h
  · intro h
    by_cases hn : n ∈ nodes
    · exact .inl hn
    · exact .inr ⟨h.resolve_left hn, hn⟩

theorem subset_reachWithin (steps : Nat) (nodes : List String) :
    nodes ⊆ g.reachWithin steps nodes := by
  induction steps generalizing nodes with
  | zero => exact fun _ h => h
  | succ steps ih => exact fun m hm => ih (g.widen nodes) (mem_widen.2 (.inl hm))

theorem reach_of_mem_reachWithin {steps : Nat} {nodes : List String}
    (h : n ∈ g.reachWithin steps nodes) : ∃ m ∈ nodes, ReflTransGen g.Edge m n := by
  induction steps generalizing nodes with
  | zero => exact ⟨n, h, .refl⟩
  | succ steps ih =>
      obtain ⟨k, hk, hreach⟩ := ih h
      rcases mem_widen.1 hk with hk | ⟨m, hm, hedge⟩
      · exact ⟨k, hk, hreach⟩
      · exact ⟨m, hm, .head hedge hreach⟩

def Closed (g : DependencyGraph) (nodes : List String) : Prop :=
  ∀ m ∈ nodes, ∀ n, g.Edge m n → n ∈ nodes

theorem Closed.widen {nodes : List String} (h : g.Closed nodes) : g.Closed (g.widen nodes) := by
  have hsub : ∀ m ∈ g.widen nodes, m ∈ nodes := by
    intro m hm
    rcases mem_widen.1 hm with hm | ⟨k, hk, hedge⟩
    · exact hm
    · exact h k hk m hedge
  exact fun m hm n hedge => mem_widen.2 (.inl (h m (hsub m hm) n hedge))

theorem Closed.reachWithin {nodes : List String} (h : g.Closed nodes) (steps : Nat) :
    g.Closed (g.reachWithin steps nodes) := by
  induction steps generalizing nodes with
  | zero => exact h
  | succ steps ih => exact ih h.widen

/-- As long as an edge leads out of the list, a step adds a node. -/
theorem length_missing_widen_lt (wf : g.WellFormed) {nodes : List String}
    (h : ¬ g.Closed nodes) :
    (g.nodes.filter fun n => n ∉ g.widen nodes).length <
      (g.nodes.filter fun n => n ∉ nodes).length := by
  simp only [Closed, not_forall] at h
  obtain ⟨m, hm, n, hedge, hn⟩ := h
  have heq : (g.nodes.filter fun n => n ∉ g.widen nodes) =
      (g.nodes.filter fun n => n ∉ nodes).filter fun n => n ∉ g.widen nodes := by
    rw [List.filter_filter]
    refine List.filter_congr fun k _ => ?_
    by_cases hk : k ∈ nodes <;> simp [hk, mem_widen]
  rw [heq, List.length_filter_lt_length_iff_exists]
  refine ⟨n, List.mem_filter.2 ⟨wf.target_mem hedge, by simpa using hn⟩, ?_⟩
  simpa using mem_widen.2 (.inr ⟨m, hm, hedge⟩)

theorem closed_reachWithin (wf : g.WellFormed) {steps : Nat} {nodes : List String}
    (h : (g.nodes.filter fun n => n ∉ nodes).length ≤ steps) :
    g.Closed (g.reachWithin steps nodes) := by
  -- While an edge leads out, a step leaves fewer nodes missing, so the bound goes down with it.
  induction steps generalizing nodes with
  | zero =>
      have hnil := List.filter_eq_nil_iff.1 (List.eq_nil_of_length_eq_zero (Nat.le_zero.1 h))
      intro m _ n hedge
      have hn : n ∈ nodes := by simpa using hnil n (wf.target_mem hedge)
      exact hn
  | succ steps ih =>
      by_cases hclosed : g.Closed nodes
      · exact hclosed.reachWithin (steps + 1)
      · have hlt := length_missing_widen_lt wf hclosed
        exact ih (by omega)

theorem reaches_iff (wf : g.WellFormed) : g.reaches a b = true ↔ ReflTransGen g.Edge a b := by
  rw [reaches, List.contains_iff_mem]
  constructor
  · intro h
    obtain ⟨m, hm, hreach⟩ := reach_of_mem_reachWithin h
    rwa [List.mem_singleton.1 hm] at hreach
  · intro h
    have hclosed : g.Closed (g.reachWithin g.nodes.length [a]) :=
      closed_reachWithin wf (List.length_filter_le _ _)
    induction h with
    | refl => exact subset_reachWithin _ _ List.mem_cons_self
    | tail _ hedge ih => exact hclosed _ ih _ hedge

/-- The dependent that is named together with a node of a cycle leads back to it. -/
theorem wayBack_spec (wf : g.WellFormed) (h : TransGen g.Edge n n) :
    g.Edge n (g.wayBack n) ∧ ReflTransGen g.Edge (g.wayBack n) n := by
  obtain ⟨m, hedge, hreach⟩ := TransGen.head'_iff.1 h
  cases hfind : (g.dependents n).find? fun next => g.reaches next n with
  | none =>
      have hnot := List.find?_eq_none.1 hfind m (mem_dependents.2 hedge)
      exact absurd ((reaches_iff wf).2 hreach) hnot
  | some next =>
      have hnext := List.find?_some hfind
      rw [wayBack, hfind]
      exact ⟨mem_dependents.1 (List.mem_of_find?_eq_some hfind), (reaches_iff wf).1 hnext⟩

end DependencyGraph

end Bytecode

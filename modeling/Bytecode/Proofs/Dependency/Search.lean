import Bytecode.Operand.Dependency
import Bytecode.Proofs.Failing
import Mathlib.Logic.Relation
import Mathlib.Data.List.Nodup

/-!
# The search over dependents

What one step of the depth-first search preserves, and from it what a whole search establishes. The
order in which nodes are left settles every edge: it leads to a node that was left earlier, or to
one that was still open, and then both ends lie on a cycle.
-/

namespace Bytecode

namespace DependencyGraph

open Relation

/-- `b` depends on `a`. -/
def Edge (g : DependencyGraph) (a b : String) : Prop := (a, b) ∈ g.edges

theorem mem_dependents {g : DependencyGraph} {a b : String} : b ∈ g.dependents a ↔ g.Edge a b := by
  simp [dependents, Edge]

theorem mem_dependencies {g : DependencyGraph} {a b : String} :
    a ∈ g.dependencies b ↔ g.Edge a b := by
  simp [dependencies, Edge]

structure WellFormed (g : DependencyGraph) : Prop where
  nodup : g.nodes.Nodup
  source_mem : ∀ {a b}, g.Edge a b → a ∈ g.nodes
  target_mem : ∀ {a b}, g.Edge a b → b ∈ g.nodes

/-- Every edge out of a node of the list leads to a later node of the list, or to a node from which
it can be reached. -/
def Settled (g : DependencyGraph) : List String → Prop
  | [] => True
  | n :: rest => (∀ m, g.Edge n m → m ∈ rest ∨ ReflTransGen g.Edge m n) ∧ g.Settled rest

/-- An open node stands in the stack. Above it are only nodes that can be reached from it, with all
its fresh dependents among them. -/
def OpenIn (g : DependencyGraph) (search : Search) (n : String) : Prop :=
  ∃ above below, search.stack = above ++ n :: below ∧ n ∉ above ∧
    (∀ m ∈ above, ReflTransGen g.Edge n m) ∧ ∀ m, g.Edge n m → m ∈ search.fresh → m ∈ above

/-- What holds of a search after every step. -/
structure Valid (g : DependencyGraph) (search : Search) : Prop where
  fresh_nodup : search.fresh.Nodup
  fresh_mem : ∀ n ∈ search.fresh, n ∈ g.nodes
  stack_mem : ∀ n ∈ search.stack, n ∈ g.nodes
  finished_nodup : search.finished.Nodup
  finished_mem : ∀ n ∈ search.finished, n ∈ g.nodes ∧ n ∉ search.fresh
  loopless : ∀ n ∈ g.nodes, n ∉ search.fresh → ¬ g.Edge n n
  opened : ∀ n ∈ g.nodes, n ∉ search.fresh → n ∉ search.finished → g.OpenIn search n
  settled : g.Settled search.finished

variable {g : DependencyGraph} {search after : Search} {n m node : String} {rest : List String}

theorem valid_init (wf : g.WellFormed) : g.Valid { fresh := g.nodes } where
  fresh_nodup := wf.nodup
  fresh_mem := fun _ h => h
  stack_mem := fun _ h => absurd h List.not_mem_nil
  finished_nodup := List.nodup_nil
  finished_mem := fun _ h => absurd h List.not_mem_nil
  loopless := fun _ hn hf => absurd hn hf
  opened := fun _ hn hf => absurd hn hf
  settled := trivial

/-- A node pushed on an empty stack keeps the search valid: no node is open. -/
theorem Valid.start (h : g.Valid search) (hstack : search.stack = []) (hn : n ∈ g.nodes) :
    g.Valid { search with stack := n :: search.stack } := by
  have hclosed : ∀ m ∈ g.nodes, m ∉ search.fresh → m ∈ search.finished := by
    intro m hm hfresh
    by_contra hopen
    obtain ⟨above, below, hsplit, -⟩ := h.opened m hm hfresh hopen
    simp [hstack] at hsplit
  exact { h with
    stack_mem := by simpa [hstack] using hn
    opened := fun m hm hfresh hopen => absurd (hclosed m hm hfresh) hopen }

/-! ### Entering a node -/

theorem enter_stack : (g.enter search n).stack =
    ((g.dependents n).filter fun m => m ∈ search.fresh.erase n).reverse ++ search.stack := rfl

theorem mem_pushed : m ∈ ((g.dependents n).filter fun m => m ∈ search.fresh.erase n).reverse ↔
    g.Edge n m ∧ m ∈ search.fresh.erase n := by
  simp [mem_dependents]

theorem openIn_enter_self (hstack : search.stack = n :: rest) (hloop : ¬ g.Edge n n) :
    g.OpenIn (g.enter search n) n := by
  refine ⟨_, rest, by rw [enter_stack, hstack], ?_, ?_, ?_⟩
  · intro hn
    exact hloop (mem_pushed.1 hn).1
  · intro m hm
    exact .single (mem_pushed.1 hm).1
  · intro m hedge hfresh
    exact mem_pushed.2 ⟨hedge, hfresh⟩

/-- The stack above an open node that is not on top starts with the node on top. -/
theorem OpenIn.above_eq_cons (h : g.OpenIn search m) (hstack : search.stack = n :: rest)
    (hne : m ≠ n) :
    ∃ above below, rest = above ++ m :: below ∧ m ∉ above ∧
      (∀ k ∈ n :: above, ReflTransGen g.Edge m k) ∧
      ∀ k, g.Edge m k → k ∈ search.fresh → k ∈ n :: above := by
  obtain ⟨above, below, hsplit, hnot, hreach, hfresh⟩ := h
  rw [hstack] at hsplit
  cases above with
  | nil => exact absurd (List.cons.inj hsplit).1.symm hne
  | cons top above =>
      obtain ⟨rfl, hrest⟩ := List.cons.inj hsplit
      exact ⟨above, below, hrest, fun hm => hnot (List.mem_cons_of_mem _ hm), hreach, hfresh⟩

theorem OpenIn.enter (h : g.OpenIn search m) (hstack : search.stack = n :: rest) (hne : m ≠ n)
    (hm : m ∉ search.fresh) : g.OpenIn (g.enter search n) m := by
  obtain ⟨above, below, hrest, hnot, hreach, hfresh⟩ := h.above_eq_cons hstack hne
  -- What is pushed can be reached from the top, and the top from the open node below it.
  refine ⟨((g.dependents n).filter fun k => k ∈ search.fresh.erase n).reverse ++ n :: above, below,
    by simp [enter_stack, hstack, hrest], ?_, ?_, ?_⟩
  · intro hmem
    rcases List.mem_append.1 hmem with hpushed | habove
    · exact hm (List.mem_of_mem_erase (mem_pushed.1 hpushed).2)
    · rcases List.mem_cons.1 habove with heq | habove
      · exact hne heq
      · exact hnot habove
  · intro k hk
    rcases List.mem_append.1 hk with hpushed | habove
    · exact (hreach n List.mem_cons_self).tail (mem_pushed.1 hpushed).1
    · exact hreach k habove
  · intro k hedge hk
    exact List.mem_append_right _ (hfresh k hedge (List.mem_of_mem_erase hk))

theorem Valid.enter (h : g.Valid search) (wf : g.WellFormed) (hstack : search.stack = n :: rest)
    (hloop : ¬ g.Edge n n) : g.Valid (g.enter search n) where
  fresh_nodup := h.fresh_nodup.erase n
  fresh_mem := fun m hm => h.fresh_mem m (List.mem_of_mem_erase hm)
  stack_mem := by
    intro m hm
    rcases List.mem_append.1 hm with hpushed | hold
    · exact wf.target_mem (mem_pushed.1 hpushed).1
    · exact h.stack_mem m hold
  finished_nodup := h.finished_nodup
  finished_mem := fun m hm =>
    ⟨(h.finished_mem m hm).1, fun hf => (h.finished_mem m hm).2 (List.mem_of_mem_erase hf)⟩
  loopless := by
    intro m hm hfresh
    by_cases heq : m = n
    · rwa [heq]
    · exact h.loopless m hm fun hf => hfresh ((List.mem_erase_of_ne heq).2 hf)
  opened := by
    intro m hm hfresh hopen
    by_cases heq : m = n
    · rw [heq]
      exact openIn_enter_self hstack hloop
    · have hold : m ∉ search.fresh := fun hf => hfresh ((List.mem_erase_of_ne heq).2 hf)
      exact (h.opened m hm hold hopen).enter hstack heq hold
  settled := h.settled

/-! ### Taking a node off the stack -/

theorem OpenIn.pop (h : g.OpenIn search m) (hstack : search.stack = n :: rest) (hne : m ≠ n)
    (hn : n ∉ search.fresh) : g.OpenIn (search.pop n rest) m := by
  obtain ⟨above, below, hrest, hnot, hreach, hfresh⟩ := h.above_eq_cons hstack hne
  refine ⟨above, below, hrest, hnot, fun k hk => hreach k (List.mem_cons_of_mem _ hk), ?_⟩
  intro k hedge hk
  rcases List.mem_cons.1 (hfresh k hedge hk) with heq | habove
  · exact absurd (heq ▸ hk) hn
  · exact habove

/-- Every edge out of an open node on top of the stack leads to a finished node, or to an open one,
from which the node on top can be reached. -/
theorem Valid.edge_of_top (h : g.Valid search) (wf : g.WellFormed)
    (hstack : search.stack = n :: rest) (hfresh : n ∉ search.fresh)
    (hopen : n ∉ search.finished) (hedge : g.Edge n m) :
    m ∈ search.finished ∨ ReflTransGen g.Edge m n := by
  have hn : n ∈ g.nodes := wf.source_mem hedge
  have hm : m ∉ search.fresh := by
    obtain ⟨above, below, hsplit, hnot, -, hpending⟩ := h.opened n hn hfresh hopen
    intro hf
    have habove : m ∈ above := hpending m hedge hf
    rw [hstack] at hsplit
    cases above with
    | nil => exact List.not_mem_nil habove
    | cons top above =>
        rw [(List.cons.inj hsplit).1] at hnot
        exact hnot List.mem_cons_self
  by_cases hfin : m ∈ search.finished
  · exact .inl hfin
  · have hne : m ≠ n := by
      rintro rfl
      exact h.loopless m hn hfresh hedge
    obtain ⟨_, _, -, -, hreach, -⟩ :=
      (h.opened m (wf.target_mem hedge) hm hfin).above_eq_cons hstack hne
    exact .inr (hreach n List.mem_cons_self)

theorem mem_pop_finished :
    m ∈ (search.pop n rest).finished ↔ m = n ∨ m ∈ search.finished := by
  by_cases hfin : n ∈ search.finished
  · simp only [Search.pop, if_pos hfin]
    refine ⟨.inr, ?_⟩
    rintro (rfl | hm)
    · exact hfin
    · exact hm
  · simp only [Search.pop, if_neg hfin, List.mem_cons]

theorem Valid.pop (h : g.Valid search) (wf : g.WellFormed) (hstack : search.stack = n :: rest)
    (hfresh : n ∉ search.fresh) : g.Valid (search.pop n rest) where
  fresh_nodup := h.fresh_nodup
  fresh_mem := h.fresh_mem
  stack_mem := fun m hm => h.stack_mem m (by rw [hstack]; exact List.mem_cons_of_mem n hm)
  finished_nodup := by
    rw [Search.pop]
    split
    · exact h.finished_nodup
    · next hfin => exact List.nodup_cons.2 ⟨hfin, h.finished_nodup⟩
  finished_mem := by
    intro m hm
    rcases mem_pop_finished.1 hm with rfl | hm
    · exact ⟨h.stack_mem m (by rw [hstack]; exact List.mem_cons_self), hfresh⟩
    · exact h.finished_mem m hm
  loopless := h.loopless
  opened := by
    intro m hm hf hopen
    rw [mem_pop_finished, not_or] at hopen
    exact (h.opened m hm hf hopen.2).pop hstack hopen.1 hfresh
  settled := by
    rw [Search.pop]
    split
    · exact h.settled
    · next hfin => exact ⟨fun m => h.edge_of_top wf hstack hfresh hfin, h.settled⟩

/-! ### Runs -/

theorem mem_enter_stack (h : m ∈ search.stack) : m ∈ (g.enter search n).stack :=
  List.mem_append_right _ h

/-- A run empties the stack, and every node that stood in it has then been entered. -/
theorem Valid.run (h : g.Valid search) (wf : g.WellFormed) (hrun : g.run search = .ok after) :
    g.Valid after ∧ after.stack = [] ∧ ∀ m ∈ after.fresh, m ∈ search.fresh ∧ m ∉ search.stack := by
  -- By the recursion of the run. A node below the top is in the stack of the next state as well, so
  -- that it has been entered follows from the induction hypothesis; the top itself is not fresh.
  fun_induction g.run search with
  | case1 search hstack =>
      cases hrun
      exact ⟨h, hstack, fun m hm => ⟨hm, by simp [hstack]⟩⟩
  | case2 => cases hrun
  | case3 search n rest hstack hfresh hloop ih =>
      have hentered := h.enter wf hstack (mt mem_dependents.2 hloop)
      obtain ⟨hvalid, hempty, hleft⟩ := ih hentered hrun
      refine ⟨hvalid, hempty, fun m hm => ?_⟩
      obtain ⟨hmem, hnot⟩ := hleft m hm
      exact ⟨List.mem_of_mem_erase hmem, fun hs => hnot (mem_enter_stack hs)⟩
  | case4 search n rest hstack hfresh ih =>
      obtain ⟨hvalid, hempty, hleft⟩ := ih (h.pop wf hstack hfresh) hrun
      refine ⟨hvalid, hempty, fun m hm => ?_⟩
      obtain ⟨hmem, hnot⟩ := hleft m hm
      refine ⟨hmem, fun hs => ?_⟩
      rw [hstack] at hs
      rcases List.mem_cons.1 hs with rfl | hs
      · exact hfresh hmem
      · exact hnot hs

theorem edge_of_run_eq_error (hrun : g.run search = .error node) : g.Edge node node := by
  fun_induction g.run search with
  | case1 => cases hrun
  | case2 search n rest hstack hfresh hloop =>
      cases hrun
      exact mem_dependents.1 hloop
  | case3 search n rest hstack hfresh hloop ih => exact ih hrun
  | case4 search n rest hstack hfresh ih => exact ih hrun

/-- Between the searches the stack is empty, and the nodes searched from have been entered. -/
def Searched (g : DependencyGraph) (front : List String) (search : Search) : Prop :=
  g.Valid search ∧ search.stack = [] ∧ ∀ m ∈ front, m ∉ search.fresh

theorem Searched.searchFrom {front : List String} (h : g.Searched front search)
    (wf : g.WellFormed) (hn : n ∈ g.nodes) (hfrom : g.searchFrom search n = .ok after) :
    g.Searched (front ++ [n]) after := by
  obtain ⟨hvalid, hempty, hfront⟩ := h
  rw [DependencyGraph.searchFrom] at hfrom
  split at hfrom
  · obtain ⟨hvalid', hempty', hleft⟩ := (hvalid.start hempty hn).run wf hfrom
    refine ⟨hvalid', hempty', fun m hm hf => ?_⟩
    obtain ⟨hold, hnot⟩ := hleft m hf
    rcases List.mem_append.1 hm with hm | hm
    · exact hfront m hm hold
    · rw [List.mem_singleton.1 hm] at hnot
      exact hnot List.mem_cons_self
  · next hn =>
      cases hfrom
      refine ⟨hvalid, hempty, fun m hm => ?_⟩
      rcases List.mem_append.1 hm with hm | hm
      · exact hfront m hm
      · rwa [List.mem_singleton.1 hm]

theorem searched_of_search (wf : g.WellFormed) (h : g.search = .ok after) :
    g.Searched g.nodes after := by
  refine foldlM_induction h ⟨valid_init wf, rfl, fun m hm => absurd hm List.not_mem_nil⟩ ?_
  intro front n back t t' hsplit ht hstep
  have hn : n ∈ g.nodes := by rw [hsplit]; simp
  exact ht.searchFrom wf hn hstep

/-- After all searches every node has been left, once, and every edge is settled. -/
theorem settled_of_search (wf : g.WellFormed) (h : g.search = .ok after) :
    after.finished.Perm g.nodes ∧ g.Settled after.finished := by
  obtain ⟨hvalid, hempty, hentered⟩ := searched_of_search wf h
  refine ⟨(List.perm_ext_iff_of_nodup hvalid.finished_nodup wf.nodup).2 fun n => ?_, hvalid.settled⟩
  refine ⟨fun hn => (hvalid.finished_mem n hn).1, fun hn => ?_⟩
  by_contra hopen
  obtain ⟨above, below, hsplit, -⟩ := hvalid.opened n hn (hentered n hn) hopen
  simp [hempty] at hsplit

theorem edge_of_search_eq_error (h : g.search = .error node) : g.Edge node node := by
  obtain ⟨_, n, _, search, -, -, hstep⟩ :=
    exists_of_foldlM_eq_error (P := fun _ _ => True) h trivial fun _ _ _ _ _ _ _ _ => trivial
  rw [DependencyGraph.searchFrom] at hstep
  split at hstep
  · exact edge_of_run_eq_error hstep
  · cases hstep

theorem Settled.back {front back : List String} (h : g.Settled (front ++ back)) :
    g.Settled back := by
  induction front with
  | nil => exact h
  | cons n front ih => exact ih h.2

/-- An edge into a node that is not in the list comes from a node that can be reached from it. -/
theorem Settled.reaches {list : List String} {a b : String} (h : g.Settled list) (ha : a ∈ list)
    (hedge : g.Edge a b) (hb : b ∉ list) : ReflTransGen g.Edge b a := by
  induction list with
  | nil => exact absurd ha List.not_mem_nil
  | cons n rest ih =>
      rw [List.mem_cons, not_or] at hb
      rcases List.mem_cons.1 ha with rfl | ha
      · exact (h.1 b hedge).resolve_left hb.2
      · exact ih h.2 ha hb.2

end DependencyGraph

end Bytecode

/-!
# Dependency order

A directed graph on names, with its nodes and edges in the order in which they were added, and an
order of its nodes in which every edge points forward. The order is the reverse of the one in which
a depth-first search leaves the nodes. A second search, against the edges, checks the order; where
the graph has a cycle, one of the two names a node of it.
-/

namespace Bytecode

/-- An edge `(a, b)` says that `b` depends on `a`. -/
structure DependencyGraph where
  nodes : List String
  edges : List (String × String) := []
  deriving DecidableEq, Repr

namespace DependencyGraph

/-- An edge that is already there keeps its place. -/
def addEdge (g : DependencyGraph) (dependency dependent : String) : DependencyGraph :=
  if (dependency, dependent) ∈ g.edges then g
  else { g with edges := g.edges ++ [(dependency, dependent)] }

def dependents (g : DependencyGraph) (n : String) : List String :=
  (g.edges.filter fun e => e.1 = n).map Prod.snd

def dependencies (g : DependencyGraph) (n : String) : List String :=
  (g.edges.filter fun e => e.2 = n).map Prod.fst

structure Search where
  /-- The nodes that it has not entered. -/
  fresh : List String
  /-- The nodes to look at, the next one first; a node may stand here more than once. -/
  stack : List String := []
  /-- The nodes that it has left, the last first. -/
  finished : List String := []
  deriving DecidableEq, Repr

/-- Entering a node pushes its fresh dependents above it. -/
def enter (g : DependencyGraph) (search : Search) (n : String) : Search :=
  let fresh := search.fresh.erase n
  { search with
    fresh
    stack := ((g.dependents n).filter fun m => m ∈ fresh).reverse ++ search.stack }

/-- The node on top is taken off the stack. The first time, the search leaves it. -/
def Search.pop (search : Search) (n : String) (rest : List String) : Search :=
  { search with
    stack := rest
    finished := if n ∈ search.finished then search.finished else n :: search.finished }

/-- Searches over dependents until the stack is empty, and stops at a node that depends on
itself. -/
def run (g : DependencyGraph) (search : Search) : Except String Search :=
  match _hstack : search.stack with
  | [] => .ok search
  | n :: rest =>
      if _hfresh : n ∈ search.fresh then
        if n ∈ g.dependents n then .error n else g.run (g.enter search n)
      else g.run (search.pop n rest)
termination_by (search.fresh.length, search.stack.length)
decreasing_by
  · rw [enter, List.length_erase_of_mem _hfresh]
    exact Prod.Lex.left _ _ (Nat.sub_lt (List.length_pos_of_mem _hfresh) Nat.one_pos)
  · rw [Search.pop, _hstack]
    exact Prod.Lex.right _ (Nat.lt_succ_self _)

def searchFrom (g : DependencyGraph) (search : Search) (n : String) : Except String Search :=
  if n ∈ search.fresh then g.run { search with stack := n :: search.stack } else .ok search

def search (g : DependencyGraph) : Except String Search :=
  g.nodes.foldlM g.searchFrom { fresh := g.nodes }

/-- One step of a search over dependencies: the first fresh node of a stack, with what is fresh and
the stack after it. -/
def stepBack? (g : DependencyGraph) (fresh : List String) :
    List String → Option (String × List String × List String)
  | [] => none
  | n :: rest =>
      if n ∈ fresh then
        let fresh := fresh.erase n
        some (n, fresh, ((g.dependencies n).filter fun d => d ∈ fresh).reverse ++ rest)
      else g.stepBack? fresh rest

/-- Searches over dependencies from each node of a list in turn, and gives the second node of the
first search that has one. -/
def secondNode? (g : DependencyGraph) (fresh : List String) : List String → Option String
  | [] => none
  | n :: rest =>
      match g.stepBack? fresh [n] with
      | none => g.secondNode? fresh rest
      | some (_, fresh, stack) =>
          match g.stepBack? fresh stack with
          | some (node, _) => some node
          | none => g.secondNode? fresh rest

/-- The nodes in an order in which dependencies stand before their dependents, or a node of a
cycle. In such an order every dependency of a node has been met before it. -/
def order (g : DependencyGraph) : Except String (List String) := do
  let search ← g.search
  match g.secondNode? g.nodes search.finished with
  | some node => .error node
  | none => .ok search.finished

def widen (g : DependencyGraph) (nodes : List String) : List String :=
  nodes ++ ((nodes.flatMap g.dependents).filter fun n => n ∉ nodes).eraseDups

/-- The nodes within `steps` edges of a list of nodes. -/
def reachWithin (g : DependencyGraph) : Nat → List String → List String
  | 0, nodes => nodes
  | steps + 1, nodes => g.reachWithin steps (g.widen nodes)

/-- Whether a path, perhaps of no edge, leads from `a` to `b`. -/
def reaches (g : DependencyGraph) (a b : String) : Bool :=
  (g.reachWithin g.nodes.length [a]).contains b

/-- The first dependent of `n` from which a path leads back to it. -/
def wayBack (g : DependencyGraph) (n : String) : String :=
  ((g.dependents n).find? fun next => g.reaches next n).getD n

end DependencyGraph

end Bytecode

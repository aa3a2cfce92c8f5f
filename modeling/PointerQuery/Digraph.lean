/-!
Directed graphs whose nodes and edges keep the order in which they came, with reachability by a depth-first
visit and the strongly connected components.
-/

namespace PointerQuery

structure Digraph (α : Type) where
  nodes : List α := []
  edges : List (α × α) := []

namespace Digraph

variable {α : Type} [DecidableEq α]

def addNode (g : Digraph α) (n : α) : Digraph α :=
  if n ∈ g.nodes then g else { g with nodes := g.nodes ++ [n] }

/-- Adds an edge, and its ends as far as they are new, the source first. -/
def addEdge (g : Digraph α) (a b : α) : Digraph α :=
  let g := (g.addNode a).addNode b
  if (a, b) ∈ g.edges then g else { g with edges := g.edges ++ [(a, b)] }

def successors (g : Digraph α) (n : α) : List α :=
  (g.edges.filter fun e => e.1 = n).map Prod.snd

def reverse (g : Digraph α) : Digraph α :=
  { g with edges := g.edges.map Prod.swap }

/-- The number of edges that do not start at a seen node. -/
def unfollowed (g : Digraph α) (seen : List α) : Nat :=
  g.edges.countP fun e => e.1 ∉ seen

theorem unfollowed_cons (g : Digraph α) {seen : List α} {n : α} (h : n ∉ seen) :
    (g.successors n).length + g.unfollowed (n :: seen) = g.unfollowed seen := by
  simp only [successors, unfollowed, List.length_map, ← List.countP_eq_length_filter]
  induction g.edges with
  | nil => rfl
  | cons e es ih =>
    simp only [List.countP_cons, ← ih, decide_eq_true_eq, List.mem_cons, not_or]
    by_cases he : e.1 = n
    · simp [he, h]; omega
    · by_cases hs : e.1 ∈ seen
      · simp [he, hs]
      · simp [he, hs]; omega

/-- A node that is seen for the first time costs its place on the stack and its edges. -/
theorem visit_measure_lt (g : Digraph α) {seen : List α} {n : α} (stack : List α) (h : n ∉ seen) :
    (g.successors n ++ stack).length + g.unfollowed (n :: seen) <
      (n :: stack).length + g.unfollowed seen := by
  have := g.unfollowed_cons h
  simp only [List.length_append, List.length_cons]
  omega

/-- Visits what can be reached from the nodes on the stack, without going through seen nodes. Every step takes
a node off the stack or follows the edges of a new one. -/
def visit (g : Digraph α) (seen : List α) : List α → List α
  | [] => seen
  | n :: stack =>
    if n ∈ seen then g.visit seen stack
    else g.visit (n :: seen) (g.successors n ++ stack)
termination_by stack => stack.length + g.unfollowed seen
decreasing_by
  · simp
  · rename_i h
    exact g.visit_measure_lt stack h

/-- The nodes that can be reached from `start`, itself included. -/
def reachable (g : Digraph α) (start : α) : List α :=
  g.visit [] [start]

/-- The same visit in search of one node. It ends where the node is found. -/
def finds (g : Digraph α) (goal : α) (seen : List α) : List α → Bool
  | [] => false
  | n :: stack =>
    if n ∈ seen then g.finds goal seen stack
    else if n = goal then true
    else g.finds goal (n :: seen) (g.successors n ++ stack)
termination_by stack => stack.length + g.unfollowed seen
decreasing_by
  · simp
  · rename_i h _
    exact g.visit_measure_lt stack h

/-- The nodes that are reached from `n` and reach it. -/
def component (g : Digraph α) (n : α) : List α :=
  let back := g.reverse.reachable n
  (g.reachable n).filter fun m => m ∈ back

/-- Parts the given nodes by the components they are in. -/
def componentsOf (g : Digraph α) : List α → List (List α)
  | [] => []
  | n :: ns =>
    let c := g.component n
    c :: g.componentsOf (ns.removeAll c)
termination_by ns => ns.length
decreasing_by
  exact Nat.lt_succ_of_le (List.length_filter_le ..)

def components (g : Digraph α) : List (List α) :=
  g.componentsOf g.nodes

/-- A component has a cycle unless it is a single node without an edge to itself. -/
def isCyclic (g : Digraph α) : List α → Bool
  | [] => false
  | [n] => (n, n) ∈ g.edges
  | _ :: _ :: _ => true

/-- The nodes that lie on a cycle. -/
def cyclicNodes (g : Digraph α) : List α :=
  (g.components.filter g.isCyclic).flatten

/-- The graph in the dot language: nodes numbered in order of arrival, with a label, then the edges. -/
def dot (label : α → String) (g : Digraph α) : String :=
  let number (n : α) := Nat.repr (g.nodes.idxOf n)
  let node (n : α) := "    " ++ number n ++ " [ label = \"" ++ label n ++ "\" ]\n"
  let edge (e : α × α) := "    " ++ number e.1 ++ " -> " ++ number e.2 ++ " [ ]\n"
  "digraph \x7b\n" ++ String.join (g.nodes.map node) ++ String.join (g.edges.map edge) ++ "\x7d\n"

end Digraph

end PointerQuery

import Mathlib.Data.List.Nodup
import Mathlib.Logic.Relation
import PointerQuery.Digraph

/-!
What the depth-first visit and the components of a digraph compute, in terms of paths: a visit finds what its
start reaches, a component is a class of mutual reachability, and the cyclic nodes are those on a closed path.
-/

namespace PointerQuery.Digraph

open Relation (ReflTransGen TransGen)

variable {α : Type}

def Edge (g : Digraph α) (a b : α) : Prop :=
  (a, b) ∈ g.edges

/-- Every edge joins two nodes. -/
def Closed (g : Digraph α) : Prop :=
  ∀ a b, g.Edge a b → a ∈ g.nodes ∧ b ∈ g.nodes

/-- The edges from seen nodes lead to seen nodes or to nodes that wait on the stack. -/
def Followed (g : Digraph α) (seen stack : List α) : Prop :=
  ∀ a ∈ seen, ∀ b, g.Edge a b → b ∈ seen ∨ b ∈ stack

theorem Followed.skip {g : Digraph α} {seen stack : List α} {n : α} (h : g.Followed seen (n :: stack))
    (hn : n ∈ seen) : g.Followed seen stack := by
  intro a ha b hab
  rcases h a ha b hab with hb | hb
  · exact Or.inl hb
  · rcases List.mem_cons.mp hb with rfl | hb
    · exact Or.inl hn
    · exact Or.inr hb

theorem edge_reverse_iff (g : Digraph α) (a b : α) : g.reverse.Edge a b ↔ g.Edge b a := by
  simp only [reverse, Edge, List.mem_map, Prod.exists, Prod.swap_prod_mk, Prod.mk.injEq]
  constructor
  · intro h
    obtain ⟨x, y, hxy, rfl, rfl⟩ := h
    exact hxy
  · intro h
    exact ⟨b, a, h, rfl, rfl⟩

theorem reflTransGen_reverse_iff (g : Digraph α) (a b : α) :
    ReflTransGen g.reverse.Edge a b ↔ ReflTransGen g.Edge b a := by
  have hflip : g.reverse.Edge = Function.swap g.Edge := by
    funext a b
    exact propext (g.edge_reverse_iff a b)
  rw [hflip, Relation.reflTransGen_swap]

/-- A path between different nodes starts and ends with an edge, so both of them are nodes of the graph. -/
theorem Closed.eq_of_path {g : Digraph α} (hg : g.Closed) {a b : α} (habsent : a ∉ g.nodes ∨ b ∉ g.nodes)
    (hpath : ReflTransGen g.Edge a b) : b = a := by
  rcases Relation.reflTransGen_iff_eq_or_transGen.mp hpath with heq | htrans
  · exact heq
  · obtain ⟨x, hax, _⟩ := TransGen.head'_iff.mp htrans
    obtain ⟨y, _, hyb⟩ := TransGen.tail'_iff.mp htrans
    rcases habsent with ha | hb
    · exact absurd (hg a x hax).1 ha
    · exact absurd (hg y b hyb).2 hb

variable [DecidableEq α]

theorem mem_successors_iff (g : Digraph α) (a b : α) : b ∈ g.successors a ↔ g.Edge a b := by
  simp [successors, Edge]

@[simp]
theorem edge_addNode_iff (g : Digraph α) (n a b : α) : (g.addNode n).Edge a b ↔ g.Edge a b := by
  unfold addNode
  split <;> rfl

theorem mem_nodes_addNode (g : Digraph α) (n m : α) :
    m ∈ (g.addNode n).nodes ↔ m ∈ g.nodes ∨ m = n := by
  unfold addNode
  split
  · rename_i hn
    constructor
    · exact Or.inl
    · intro h
      rcases h with hm | rfl
      · exact hm
      · exact hn
  · simp

theorem edge_addEdge_iff (g : Digraph α) (s t a b : α) :
    (g.addEdge s t).Edge a b ↔ g.Edge a b ∨ (a, b) = (s, t) := by
  have hends : ∀ x y, (x, y) ∈ ((g.addNode s).addNode t).edges ↔ g.Edge x y := by
    intro x y
    exact ((g.addNode s).edge_addNode_iff t x y).trans (g.edge_addNode_iff s x y)
  simp only [addEdge]
  split
  · rename_i hst
    constructor
    · exact fun h => Or.inl ((hends a b).mp h)
    · intro h
      rcases h with h | h
      · exact (hends a b).mpr h
      · obtain ⟨rfl, rfl⟩ := Prod.mk.inj h
        exact hst
  · simp only [Edge, List.mem_append, List.mem_singleton]
    exact or_congr_left (hends a b)

theorem mem_nodes_addEdge (g : Digraph α) (s t m : α) :
    m ∈ (g.addEdge s t).nodes ↔ m ∈ g.nodes ∨ m = s ∨ m = t := by
  simp only [addEdge]
  split <;> simp only [mem_nodes_addNode, or_assoc]

theorem Closed.addNode {g : Digraph α} (h : g.Closed) (n : α) : (g.addNode n).Closed := by
  intro a b hab
  obtain ⟨ha, hb⟩ := h a b ((g.edge_addNode_iff n a b).mp hab)
  exact ⟨(g.mem_nodes_addNode n a).mpr (Or.inl ha), (g.mem_nodes_addNode n b).mpr (Or.inl hb)⟩

theorem Closed.addEdge {g : Digraph α} (h : g.Closed) (s t : α) : (g.addEdge s t).Closed := by
  intro a b hab
  rw [mem_nodes_addEdge, mem_nodes_addEdge]
  rcases (g.edge_addEdge_iff s t a b).mp hab with hab | hab
  · exact ⟨Or.inl (h a b hab).1, Or.inl (h a b hab).2⟩
  · obtain ⟨rfl, rfl⟩ := Prod.mk.inj hab
    exact ⟨Or.inr (Or.inl rfl), Or.inr (Or.inr rfl)⟩

theorem foldl_addNode_spec (nodes : List α) (g : Digraph α) (h : g.Closed) :
    (nodes.foldl addNode g).Closed ∧ ∀ a b, (nodes.foldl addNode g).Edge a b ↔ g.Edge a b := by
  induction nodes generalizing g with
  | nil => exact ⟨h, fun a b => Iff.rfl⟩
  | cons n nodes ih =>
    obtain ⟨hclosed, hedge⟩ := ih (g.addNode n) (h.addNode n)
    exact ⟨hclosed, fun a b => (hedge a b).trans (g.edge_addNode_iff n a b)⟩

theorem foldl_addEdge_spec (edges : List (α × α)) (g : Digraph α) (h : g.Closed) :
    (edges.foldl (fun g e => g.addEdge e.1 e.2) g).Closed ∧
      ∀ a b, (edges.foldl (fun g e => g.addEdge e.1 e.2) g).Edge a b ↔ g.Edge a b ∨ (a, b) ∈ edges := by
  induction edges generalizing g with
  | nil => exact ⟨h, fun a b => by simp⟩
  | cons e edges ih =>
    obtain ⟨hclosed, hedge⟩ := ih (g.addEdge e.1 e.2) (h.addEdge e.1 e.2)
    refine ⟨hclosed, fun a b => ?_⟩
    rw [List.foldl_cons, hedge, edge_addEdge_iff, List.mem_cons, or_assoc]

theorem mem_nodes_foldl_addNode (nodes : List α) (g : Digraph α) (m : α) :
    m ∈ (nodes.foldl addNode g).nodes ↔ m ∈ g.nodes ∨ m ∈ nodes := by
  induction nodes generalizing g with
  | nil => simp
  | cons n nodes ih => rw [List.foldl_cons, ih, mem_nodes_addNode, List.mem_cons, or_assoc]

theorem mem_nodes_foldl_addEdge (edges : List (α × α)) (g : Digraph α) (m : α) :
    m ∈ (edges.foldl (fun g e => g.addEdge e.1 e.2) g).nodes ↔
      m ∈ g.nodes ∨ ∃ e ∈ edges, m = e.1 ∨ m = e.2 := by
  induction edges generalizing g with
  | nil => simp
  | cons e edges ih =>
    rw [List.foldl_cons, ih, mem_nodes_addEdge, List.exists_mem_cons_iff]
    exact or_assoc

/-- No node and no edge is listed twice. -/
structure Simple (g : Digraph α) : Prop where
  nodes_nodup : g.nodes.Nodup
  edges_nodup : g.edges.Nodup

theorem Simple.addNode {g : Digraph α} (h : g.Simple) (n : α) : (g.addNode n).Simple := by
  unfold Digraph.addNode
  split
  · exact h
  · rename_i hn
    refine ⟨?_, h.edges_nodup⟩
    rw [← List.concat_eq_append]
    exact h.nodes_nodup.concat hn

theorem Simple.addEdge {g : Digraph α} (h : g.Simple) (s t : α) : (g.addEdge s t).Simple := by
  have hends : ((g.addNode s).addNode t).Simple := (h.addNode s).addNode t
  simp only [Digraph.addEdge]
  split
  · exact hends
  · rename_i hst
    refine ⟨hends.nodes_nodup, ?_⟩
    rw [← List.concat_eq_append]
    exact hends.edges_nodup.concat hst

theorem Simple.foldl_addNode {g : Digraph α} (h : g.Simple) (nodes : List α) :
    (nodes.foldl Digraph.addNode g).Simple := by
  induction nodes generalizing g with
  | nil => exact h
  | cons n nodes ih => exact ih (h.addNode n)

theorem Simple.foldl_addEdge {g : Digraph α} (h : g.Simple) (edges : List (α × α)) :
    (edges.foldl (fun g e => g.addEdge e.1 e.2) g).Simple := by
  induction edges generalizing g with
  | nil => exact h
  | cons e edges ih => exact ih (h.addEdge e.1 e.2)

theorem Followed.expand {g : Digraph α} {seen stack : List α} {n : α}
    (h : g.Followed seen (n :: stack)) : g.Followed (n :: seen) (g.successors n ++ stack) := by
  intro a ha b hab
  rcases List.mem_cons.mp ha with rfl | ha
  · exact Or.inr (List.mem_append_left _ ((g.mem_successors_iff a b).mpr hab))
  · rcases h a ha b hab with hb | hb
    · exact Or.inl (List.mem_cons_of_mem n hb)
    · rcases List.mem_cons.mp hb with rfl | hb
      · exact Or.inl List.mem_cons_self
      · exact Or.inr (List.mem_append_right _ hb)

theorem mem_visit_of_mem (g : Digraph α) (seen stack : List α) {m : α} (h : m ∈ seen ∨ m ∈ stack) :
    m ∈ g.visit seen stack := by
  fun_induction visit g seen stack with
  | case1 seen =>
    rcases h with h | h
    · exact h
    · exact absurd h List.not_mem_nil
  | case2 seen n stack hn ih =>
    apply ih
    rcases h with h | h
    · exact Or.inl h
    · rcases List.mem_cons.mp h with rfl | h
      · exact Or.inl hn
      · exact Or.inr h
  | case3 seen n stack hn ih =>
    apply ih
    rcases h with h | h
    · exact Or.inl (List.mem_cons_of_mem n h)
    · rcases List.mem_cons.mp h with rfl | h
      · exact Or.inl List.mem_cons_self
      · exact Or.inr (List.mem_append_right _ h)

theorem visit_sound (g : Digraph α) (seen stack : List α) {m : α} (h : m ∈ g.visit seen stack) :
    m ∈ seen ∨ ∃ n ∈ stack, ReflTransGen g.Edge n m := by
  fun_induction visit g seen stack with
  | case1 seen => exact Or.inl h
  | case2 seen n stack hn ih =>
    rcases ih h with hm | ⟨k, hk, hpath⟩
    · exact Or.inl hm
    · exact Or.inr ⟨k, List.mem_cons_of_mem n hk, hpath⟩
  | case3 seen n stack hn ih =>
    rcases ih h with hm | ⟨k, hk, hpath⟩
    · rcases List.mem_cons.mp hm with rfl | hm
      · exact Or.inr ⟨m, List.mem_cons_self, ReflTransGen.refl⟩
      · exact Or.inl hm
    · rcases List.mem_append.mp hk with hk | hk
      · exact Or.inr ⟨n, List.mem_cons_self, ReflTransGen.head ((g.mem_successors_iff n k).mp hk) hpath⟩
      · exact Or.inr ⟨k, List.mem_cons_of_mem n hk, hpath⟩

theorem visit_closed (g : Digraph α) (seen stack : List α) (h : g.Followed seen stack) {a b : α}
    (ha : a ∈ g.visit seen stack) (hab : g.Edge a b) : b ∈ g.visit seen stack := by
  fun_induction visit g seen stack with
  | case1 seen =>
    rcases h a ha b hab with hb | hb
    · exact hb
    · exact absurd hb List.not_mem_nil
  | case2 seen n stack hn ih => exact ih (h.skip hn) ha
  | case3 seen n stack hn ih => exact ih h.expand ha

theorem visit_nodup (g : Digraph α) (seen stack : List α) (h : seen.Nodup) :
    (g.visit seen stack).Nodup := by
  fun_induction visit g seen stack with
  | case1 seen => exact h
  | case2 seen n stack hn ih => exact ih h
  | case3 seen n stack hn ih => exact ih (List.nodup_cons.mpr ⟨hn, h⟩)

theorem mem_reachable_iff (g : Digraph α) (a b : α) : b ∈ g.reachable a ↔ ReflTransGen g.Edge a b := by
  constructor
  · intro h
    rcases g.visit_sound [] [a] h with hb | ⟨n, hn, hpath⟩
    · exact absurd hb List.not_mem_nil
    · rwa [List.mem_singleton.mp hn] at hpath
  · intro h
    induction h with
    | refl => exact g.mem_visit_of_mem [] [a] (Or.inr List.mem_cons_self)
    | tail _ hbc ih => exact g.visit_closed [] [a] (by intro n hn; exact absurd hn List.not_mem_nil) ih hbc

/-- Ending the visit where a node is found does not change whether it is found. -/
theorem finds_iff_mem_visit (g : Digraph α) (goal : α) (seen stack : List α) (h : goal ∉ seen) :
    g.finds goal seen stack = true ↔ goal ∈ g.visit seen stack := by
  fun_induction finds g goal seen stack with
  | case1 seen => simp [visit, h]
  | case2 seen n stack hn ih =>
    rw [visit, if_pos hn]
    exact ih h
  | case3 seen stack hn =>
    rw [visit, if_neg hn]
    simp only [true_iff]
    exact g.mem_visit_of_mem _ _ (Or.inl List.mem_cons_self)
  | case4 seen n stack hn hne ih =>
    rw [visit, if_neg hn]
    apply ih
    intro hgoal
    rcases List.mem_cons.mp hgoal with heq | hgoal
    · exact hne heq.symm
    · exact h hgoal

theorem finds_iff (g : Digraph α) (a b : α) : g.finds b [] [a] = true ↔ ReflTransGen g.Edge a b := by
  rw [g.finds_iff_mem_visit b [] [a] List.not_mem_nil]
  exact g.mem_reachable_iff a b

theorem mem_component_iff (g : Digraph α) (n m : α) :
    m ∈ g.component n ↔ ReflTransGen g.Edge n m ∧ ReflTransGen g.Edge m n := by
  simp only [component, List.mem_filter, decide_eq_true_eq, mem_reachable_iff, reflTransGen_reverse_iff]

theorem component_nodup (g : Digraph α) (n : α) : (g.component n).Nodup :=
  (g.visit_nodup [] [n] List.nodup_nil).filter _

theorem eq_component_of_mem_componentsOf (g : Digraph α) (ns : List α) {c : List α}
    (h : c ∈ g.componentsOf ns) : ∃ n, c = g.component n := by
  fun_induction componentsOf g ns with
  | case1 => exact absurd h List.not_mem_nil
  | case2 n ns comp ih =>
    rcases List.mem_cons.mp h with rfl | h
    · exact ⟨n, rfl⟩
    · exact ih h

/-- A component has at least the node that it was found from. -/
theorem ne_nil_of_mem_components (g : Digraph α) {c : List α} (h : c ∈ g.components) : c ≠ [] := by
  obtain ⟨n, rfl⟩ := g.eq_component_of_mem_componentsOf g.nodes h
  have hn : n ∈ g.component n := (g.mem_component_iff n n).mpr ⟨ReflTransGen.refl, ReflTransGen.refl⟩
  exact List.ne_nil_of_mem hn

theorem exists_component_of_mem (g : Digraph α) (ns : List α) {m : α} (h : m ∈ ns) :
    ∃ c ∈ g.componentsOf ns, m ∈ c := by
  fun_induction componentsOf g ns with
  | case1 => exact absurd h List.not_mem_nil
  | case2 n ns comp ih =>
    by_cases hm : m ∈ comp
    · exact ⟨comp, List.mem_cons_self, hm⟩
    · have hrest : m ∈ ns.removeAll comp := by
        rcases List.mem_cons.mp h with rfl | h
        · exact absurd ((g.mem_component_iff m m).mpr ⟨ReflTransGen.refl, ReflTransGen.refl⟩) hm
        · simpa [List.removeAll] using And.intro h hm
      obtain ⟨c, hc, hmc⟩ := ih hrest
      exact ⟨c, List.mem_cons_of_mem _ hc, hmc⟩

theorem transGen_of_mem_component (g : Digraph α) (n : α) {a b : α} (ha : a ∈ g.component n)
    (hb : b ∈ g.component n) (hne : a ≠ b) : TransGen g.Edge a a := by
  obtain ⟨hna, han⟩ := (g.mem_component_iff n a).mp ha
  obtain ⟨hnb, hbn⟩ := (g.mem_component_iff n b).mp hb
  rcases Relation.reflTransGen_iff_eq_or_transGen.mp (han.trans hnb) with heq | hpath
  · exact absurd heq.symm hne
  · exact hpath.trans_left (hbn.trans hna)

theorem isCyclic_component_iff (g : Digraph α) (n : α) {m : α} (hm : m ∈ g.component n) :
    g.isCyclic (g.component n) = true ↔ TransGen g.Edge m m := by
  have hnodup := g.component_nodup n
  cases hc : g.component n with
  | nil =>
    rw [hc] at hm
    exact absurd hm List.not_mem_nil
  | cons a rest =>
    cases rest with
    | nil =>
      -- a path that leaves the only member stays in the component, so its first edge is a loop
      have honly : ∀ b, b ∈ g.component n → b = a := by
        intro b hb
        rw [hc] at hb
        exact List.mem_singleton.mp hb
      obtain rfl := honly m hm
      simp only [isCyclic, decide_eq_true_eq]
      constructor
      · intro hloop
        exact TransGen.single hloop
      · intro hpath
        obtain ⟨b, hmb, hbm⟩ := TransGen.head'_iff.mp hpath
        obtain ⟨hnm, hmn⟩ := (g.mem_component_iff n m).mp hm
        have hb : b = m := honly b ((g.mem_component_iff n b).mpr ⟨hnm.tail hmb, hbm.trans hmn⟩)
        rwa [hb] at hmb
    | cons b rest =>
      rw [hc] at hnodup
      have hab : a ≠ b := by
        rintro rfl
        exact (List.nodup_cons.mp hnodup).1 List.mem_cons_self
      have ha : a ∈ g.component n := by rw [hc]; exact List.mem_cons_self
      have hb : b ∈ g.component n := by
        rw [hc]
        exact List.mem_cons_of_mem a List.mem_cons_self
      simp only [isCyclic, true_iff]
      by_cases hma : m = a
      · rw [hma]
        exact g.transGen_of_mem_component n ha hb hab
      · exact g.transGen_of_mem_component n hm ha hma

/-- Parting the nodes into components, with the single node without a loop left out, finds the nodes on
closed paths and no others. -/
theorem mem_cyclicNodes_iff (g : Digraph α) (hg : g.Closed) (n : α) :
    n ∈ g.cyclicNodes ↔ TransGen g.Edge n n := by
  simp only [cyclicNodes, List.mem_flatten, List.mem_filter]
  constructor
  · intro h
    obtain ⟨c, ⟨hc, hcyclic⟩, hn⟩ := h
    obtain ⟨m, rfl⟩ := g.eq_component_of_mem_componentsOf g.nodes hc
    exact (g.isCyclic_component_iff m hn).mp hcyclic
  · intro hpath
    obtain ⟨b, hnb, _⟩ := TransGen.head'_iff.mp hpath
    obtain ⟨c, hc, hn⟩ := g.exists_component_of_mem g.nodes (hg n b hnb).1
    obtain ⟨m, rfl⟩ := g.eq_component_of_mem_componentsOf g.nodes hc
    exact ⟨g.component m, ⟨hc, (g.isCyclic_component_iff m hn).mpr hpath⟩, hn⟩

end PointerQuery.Digraph

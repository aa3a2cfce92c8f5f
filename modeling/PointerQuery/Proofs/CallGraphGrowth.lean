import PointerQuery.Proofs.CallGraphExact

namespace PointerQuery

open Relation (ReflTransGen TransGen)

namespace CallGraph

/-- The graph after edges were added one by one. -/
def addEdges (cg : CallGraph) (edges : List (ProcId × ProcId)) : CallGraph :=
  edges.foldl (fun cg e => (cg.addEdge e.1 e.2).value) cg

/-- The graphs that there can be: the empty one, those built for programs, and what additions make of them. -/
inductive Grown : CallGraph → Prop where
  | empty : Grown {}
  | built (P : Program) (facts? : Option PointsTo) (strict : Bool) (cg : CallGraph) :
      (build P facts? strict).outcome = .ok cg → Grown cg
  | addEdge (cg : CallGraph) (caller callee : ProcId) : Grown cg → Grown (cg.addEdge caller callee).value

/-- Two graphs that cannot be told apart by what is asked about procedures and edges. -/
structure SameAnswers (cg cg' : CallGraph) : Prop where
  isReachable : ∀ p q, cg.isReachable p q = cg'.isReachable p q
  reachableFrom : ∀ p, cg.reachableFrom p = cg'.reachableFrom p
  callees : ∀ p, cg.callees p = cg'.callees p
  numProcedures : cg.numProcedures = cg'.numProcedures
  numEdges : cg.numEdges = cg'.numEdges

theorem ofCalls_of_outcome_build {P : Program} {facts? : Option PointsTo} {strict : Bool} {cg : CallGraph}
    (h : (build P facts? strict).outcome = .ok cg) : ∃ procs calls, cg = ofCalls strict procs calls := by
  simp only [build, Checked.outcome_bind, Checked.outcome_ofExcept] at h
  cases hcalls : P.calls facts? with
  | error e =>
    rw [hcalls] at h
    cases h
  | ok calls =>
    rw [hcalls] at h
    exact ⟨_, calls, (Except.ok.inj h).symm⟩

theorem Grown.closed {cg : CallGraph} (h : cg.Grown) : cg.graph.Closed := by
  induction h with
  | empty =>
    intro p q hpq
    exact absurd hpq List.not_mem_nil
  | built P facts? strict cg hcg =>
    obtain ⟨procs, calls, rfl⟩ := ofCalls_of_outcome_build hcg
    exact (graph_ofCalls_spec strict procs calls).1
  | addEdge cg caller callee _ ih => exact ih.addEdge caller callee

theorem Grown.simple {cg : CallGraph} (h : cg.Grown) : cg.graph.Simple := by
  induction h with
  | empty => exact ⟨List.nodup_nil, List.nodup_nil⟩
  | built P facts? strict cg hcg =>
    obtain ⟨procs, calls, rfl⟩ := ofCalls_of_outcome_build hcg
    exact simple_ofCalls strict procs calls
  | addEdge cg caller callee _ ih => exact ih.addEdge caller callee

theorem Grown.addEdges {cg : CallGraph} (h : cg.Grown) (edges : List (ProcId × ProcId)) :
    (cg.addEdges edges).Grown := by
  induction edges generalizing cg with
  | nil => exact h
  | cons e edges ih => exact ih (h.addEdge cg e.1 e.2)

theorem graph_addEdges (cg : CallGraph) (edges : List (ProcId × ProcId)) :
    (cg.addEdges edges).graph = edges.foldl (fun g e => g.addEdge e.1 e.2) cg.graph := by
  induction edges generalizing cg with
  | nil => rfl
  | cons e edges ih => exact ih (cg.addEdge e.1 e.2).value

theorem edge_addEdges_iff {cg : CallGraph} (h : cg.Grown) (edges : List (ProcId × ProcId)) (p q : ProcId) :
    (cg.addEdges edges).graph.Edge p q ↔ cg.graph.Edge p q ∨ (p, q) ∈ edges := by
  rw [graph_addEdges]
  exact (Digraph.foldl_addEdge_spec edges cg.graph h.closed).2 p q

theorem mem_nodes_addEdges_iff (cg : CallGraph) (edges : List (ProcId × ProcId)) (p : ProcId) :
    p ∈ (cg.addEdges edges).graph.nodes ↔ p ∈ cg.graph.nodes ∨ ∃ e ∈ edges, p = e.1 ∨ p = e.2 := by
  rw [graph_addEdges]
  exact Digraph.mem_nodes_foldl_addEdge edges cg.graph p

/-- Nodes and edges are listed once, so their sets settle the counts, and paths are made of edges. -/
theorem Grown.sameAnswers {cg cg' : CallGraph} (h : cg.Grown) (h' : cg'.Grown)
    (hnodes : ∀ p, p ∈ cg.graph.nodes ↔ p ∈ cg'.graph.nodes)
    (hedges : ∀ p q, cg.graph.Edge p q ↔ cg'.graph.Edge p q) : SameAnswers cg cg' := by
  have hrel : cg.graph.Edge = cg'.graph.Edge := by
    funext p q
    exact propext (hedges p q)
  constructor
  · intro p q
    rw [Bool.eq_iff_iff, isReachable_iff h.closed, isReachable_iff h'.closed, hrel]
  · intro p
    apply Std.ExtTreeSet.ext_mem
    intro q
    rw [mem_reachableFrom_iff h.closed, mem_reachableFrom_iff h'.closed, hrel]
  · intro p
    apply Std.ExtTreeSet.ext_mem
    intro q
    rw [mem_callees_iff, mem_callees_iff, hrel]
  · have hperm : cg.graph.nodes.Perm cg'.graph.nodes :=
      (List.perm_ext_iff_of_nodup h.simple.nodes_nodup h'.simple.nodes_nodup).mpr hnodes
    exact hperm.length_eq
  · have hperm : cg.graph.edges.Perm cg'.graph.edges :=
      (List.perm_ext_iff_of_nodup h.simple.edges_nodup h'.simple.edges_nodup).mpr fun e => hedges e.1 e.2
    exact hperm.length_eq

end CallGraph

/-- Reachability in every call graph that there can be. What is reached from a procedure is the procedure itself
and all to which a path of edges leads; the search that ends at its goal finds exactly that, also from or for what
is no node, which is reached from itself alone. Edges that are added join those that are there, with their ends
as nodes, and graphs with the same nodes and edges give the same answers, so it does not matter in which order and
how often edges were added. -/
theorem reachability_is_closure (cg : CallGraph) (hcg : cg.Grown) :
    (∀ p q, q ∈ cg.reachableFrom p ↔ q = p ∨ TransGen cg.graph.Edge p q) ∧
      (∀ p q, cg.isReachable p q = true ↔ q ∈ cg.reachableFrom p) ∧
      (∀ p q, p ∉ cg.graph.nodes ∨ q ∉ cg.graph.nodes → (cg.isReachable p q = true ↔ q = p)) ∧
      (∀ edges p q, (cg.addEdges edges).graph.Edge p q ↔ cg.graph.Edge p q ∨ (p, q) ∈ edges) ∧
      (∀ edges p, p ∈ (cg.addEdges edges).graph.nodes ↔
        p ∈ cg.graph.nodes ∨ ∃ e ∈ edges, p = e.1 ∨ p = e.2) ∧
      (∀ edges edges', (∀ e, e ∈ edges ↔ e ∈ edges') →
        CallGraph.SameAnswers (cg.addEdges edges) (cg.addEdges edges')) ∧
      ∀ cg' : CallGraph, cg'.Grown → (∀ p, p ∈ cg.graph.nodes ↔ p ∈ cg'.graph.nodes) →
        (∀ p q, cg.graph.Edge p q ↔ cg'.graph.Edge p q) → CallGraph.SameAnswers cg cg' := by
  refine ⟨?_, ?_, ?_, CallGraph.edge_addEdges_iff hcg, cg.mem_nodes_addEdges_iff, ?_,
    fun cg' hcg' => hcg.sameAnswers hcg'⟩
  · intro p q
    rw [CallGraph.mem_reachableFrom_iff hcg.closed, Relation.reflTransGen_iff_eq_or_transGen]
  · intro p q
    rw [CallGraph.isReachable_iff hcg.closed, CallGraph.mem_reachableFrom_iff hcg.closed]
  · intro p q habsent
    rw [CallGraph.isReachable_iff hcg.closed]
    constructor
    · exact hcg.closed.eq_of_path habsent
    · rintro rfl
      exact ReflTransGen.refl
  · intro edges edges' hsame
    apply (hcg.addEdges edges).sameAnswers (hcg.addEdges edges')
    · intro p
      simp only [CallGraph.mem_nodes_addEdges_iff, hsame]
    · intro p q
      rw [CallGraph.edge_addEdges_iff hcg, CallGraph.edge_addEdges_iff hcg, hsame]

/-- An edge to a procedure that the program does not have, twice, and the call of that procedure of itself. -/
def strayEdges : List (ProcId × ProcId) :=
  [(3, 20), (20, 20), (3, 20)]

/-- `main` reaches the new procedure through `idle`, and neither order nor repetition of the edges matters. -/
theorem reachability_is_closure_hook :
    ∃ cg, (CallGraph.build hookProgram (some hookTargets) false).outcome = .ok cg ∧
      (cg.addEdges strayEdges).Grown ∧ 20 ∈ (cg.addEdges strayEdges).reachableFrom 1 ∧
      (cg.addEdges strayEdges).isReachable 1 20 = true ∧
      CallGraph.SameAnswers (cg.addEdges strayEdges) (cg.addEdges [(20, 20), (3, 20)]) := by
  have hP : hookProgram.Built := ⟨"hook", .standard, hookAdditions, rfl⟩
  have hbuild := hP.wellFormed.outcome_buildCallGraph (some hookTargets) false
  have hgrown : (hookProgram.callGraph (some hookTargets) false).Grown := .built _ _ _ _ hbuild
  have hrun : (CallGraph.build hookProgram (some hookTargets) false).outcome.toOption.map (fun cg =>
      cg.graph.edges) = some [(1, 2), (1, 3)] := by decide +kernel
  rw [hbuild] at hrun
  have hedges : (hookProgram.callGraph (some hookTargets) false).graph.edges = [(1, 2), (1, 3)] :=
    Option.some.inj hrun
  have hcall : (hookProgram.callGraph (some hookTargets) false).graph.Edge 1 3 := by
    rw [Digraph.Edge, hedges]
    exact List.mem_cons_of_mem _ List.mem_cons_self
  obtain ⟨_, _, _, hedge, _, hsame, _⟩ := reachability_is_closure _ hgrown
  obtain ⟨hfrom, hfinds, _⟩ := reachability_is_closure _ (hgrown.addEdges strayEdges)
  have hfirst := (hedge strayEdges 1 3).mpr (Or.inl hcall)
  have hsecond := (hedge strayEdges 3 20).mpr (Or.inr List.mem_cons_self)
  have hreach := (hfrom 1 20).mpr (Or.inr (TransGen.head hfirst (TransGen.single hsecond)))
  exact ⟨_, hbuild, hgrown.addEdges strayEdges, hreach, (hfinds 1 20).mpr hreach,
    hsame _ _ (by simp [strayEdges])⟩

end PointerQuery

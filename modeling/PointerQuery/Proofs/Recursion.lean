import Mathlib.Data.Set.Insert
import PointerQuery.Proofs.CallRelation

namespace PointerQuery

open Relation (ReflTransGen TransGen)

/-- Recursion detection is exact: recursive are the procedures that reach themselves over one or more edges,
which some callee of theirs does too, and in the strict reading those with an unresolved call besides. -/
theorem recursive_iff_on_cycle (P : Program) (hP : P.Built) (facts? : Option PointsTo) (strict : Bool) :
    ∃ cg, (CallGraph.build P facts? strict).outcome = .ok cg ∧ ∀ p,
      (cg.isRecursive p = true ↔
        TransGen cg.graph.Edge p p ∨ strict = true ∧ P.HasUnresolvedCall facts? p) ∧
      (TransGen cg.graph.Edge p p ↔ ∃ q ∈ cg.callees p, cg.isReachable q p = true) := by
  have hwf := hP.wellFormed
  refine ⟨P.callGraph facts? strict, hwf.outcome_buildCallGraph facts? strict, fun p => ⟨?_, ?_⟩⟩
  · rw [hwf.edge_callGraph facts? strict]
    exact hwf.isRecursive_callGraph_iff facts? strict p
  · simp only [CallGraph.mem_callees_iff, CallGraph.isReachable_iff (CallGraph.closed_callGraph P facts? strict)]
    exact TransGen.head'_iff

/-- `main` calls `walk`, which calls `step`, which may go on with `walk` through the pointer `next`. -/
def walkAdditions : List Addition :=
  [.procedure "main", .procedure "walk", .procedure "step", .global "next", .call 1 "a" .void 2 [],
    .call 2 "b" .void 3 [], .call 3 "c" .void 4 []]

def walkProgram : Program :=
  ((Draft.empty "walk" .standard).addAll walkAdditions).build.value

/-- The facts about `next`: it holds the address of `walk`. -/
def walkFacts : PointsTo := fun a =>
  if a = 4 then some (Std.ExtTreeSet.ofList [Target.atSite 2 .unknown none none]) else none

/-- The cycle through the indirect call is found, and the caller of the cycle is not on it. -/
theorem recursive_iff_on_cycle_walk : walkProgram.Built ∧
    ∃ cg, (CallGraph.build walkProgram (some walkFacts) false).outcome = .ok cg ∧
      TransGen cg.graph.Edge 2 2 ∧ TransGen cg.graph.Edge 3 3 ∧ ¬TransGen cg.graph.Edge 1 1 := by
  have hP : walkProgram.Built := ⟨"walk", .standard, walkAdditions, rfl⟩
  obtain ⟨cg, hcg, hrec⟩ := recursive_iff_on_cycle walkProgram hP (some walkFacts) false
  have hcyclic : (CallGraph.build walkProgram (some walkFacts) false).outcome.toOption.map
      (fun cg => [1, 2, 3].map cg.isRecursive) = some [false, true, true] := by decide +kernel
  rw [hcg] at hcyclic
  simp only [Except.toOption, Option.map_some, Option.some.injEq, List.map_cons, List.map_nil,
    List.cons.injEq] at hcyclic
  obtain ⟨h1, h2, h3, _⟩ := hcyclic
  refine ⟨hP, cg, hcg, ?_, ?_, fun h => ?_⟩
  · simpa using (hrec 2).1.mp h2
  · simpa using (hrec 3).1.mp h3
  · rw [(hrec 1).1.mpr (Or.inl h)] at h1
    cases h1

namespace CallGraph

/-- The calls that may really take place if `targets` tells what the unresolved calls enter: the edges of the
graph, and an edge from the caller of each unresolved call to each target chosen for that call. -/
def Completed (cg : CallGraph) (targets : ValueId → Set ProcId) (p q : ProcId) : Prop :=
  cg.graph.Edge p q ∨ ∃ c ∈ cg.unresolved, c.caller.id = p ∧ q ∈ targets c.call.id

theorem reflTransGen_completed (cg : CallGraph) (targets : ValueId → Set ProcId) {p q : ProcId}
    (h : ReflTransGen cg.graph.Edge p q) : ReflTransGen (cg.Completed targets) p q :=
  ReflTransGen.mono (fun _ _ hab => Or.inl hab) p q h

/-- A path of a completion uses edges of the graph only, or it starts with such edges and comes to the caller
of an unresolved call. -/
theorem transGen_completed_cases (cg : CallGraph) (targets : ValueId → Set ProcId) {p q : ProcId}
    (h : TransGen (cg.Completed targets) p q) :
    TransGen cg.graph.Edge p q ∨ ∃ c ∈ cg.unresolved, ReflTransGen cg.graph.Edge p c.caller.id ∧
      ReflTransGen (cg.Completed targets) c.caller.id q := by
  -- from the far end of the path, so that the edge met last in the induction is the first of the path
  induction h using TransGen.head_induction_on with
  | single hedge =>
    rcases hedge with hedge | ⟨c, hc, rfl, hq⟩
    · exact Or.inl (TransGen.single hedge)
    · exact Or.inr ⟨c, hc, ReflTransGen.refl, ReflTransGen.single (Or.inr ⟨c, hc, rfl, hq⟩)⟩
  | head hedge hpath ih =>
    rcases hedge with hedge | ⟨c, hc, rfl, hq⟩
    · rcases ih with hbuilt | ⟨c, hc, hto, hfrom⟩
      · exact Or.inl (TransGen.head hedge hbuilt)
      · exact Or.inr ⟨c, hc, ReflTransGen.head hedge hto, hfrom⟩
    · exact Or.inr ⟨c, hc, ReflTransGen.refl,
        ReflTransGen.head (Or.inr ⟨c, hc, rfl, hq⟩) hpath.to_reflTransGen⟩

theorem mem_unresolved_ofCalls_iff (strict : Bool) (procs : List ProcId) (calls : List Call) (c : Call) :
    c ∈ (ofCalls strict procs calls).unresolved ↔ c ∈ calls ∧ c.targets = [] := by
  simp [ofCalls, Call.isUnresolved]

theorem isRecursive_strict_iff (procs : List ProcId) (calls : List Call) (p : ProcId) :
    (ofCalls true procs calls).isRecursive p = true ↔ TransGen (ofCalls true procs calls).graph.Edge p p ∨
      ∃ c ∈ (ofCalls true procs calls).unresolved, c.caller.id = p := by
  simp only [isRecursive_ofCalls_iff, mem_unresolved_ofCalls_iff, true_and]
  refine or_congr_right ⟨?_, ?_⟩
  · intro h
    obtain ⟨c, hc, hp, htargets⟩ := h
    exact ⟨c, ⟨hc, htargets⟩, hp⟩
  · intro h
    obtain ⟨c, ⟨hc, htargets⟩, hp⟩ := h
    exact ⟨c, hc, hp, htargets⟩

end CallGraph

namespace Program

variable {P : Program} (hP : P.WellFormed) (facts? : Option PointsTo)

include hP

theorem WellFormed.procedure?_of_hasCall {proc : ProcId} {callee : ValueId} (h : P.HasCall proc callee) :
    (P.procedure? proc).isSome = true := by
  obtain ⟨i, v, args, hv, hkind⟩ := h
  obtain ⟨p, hp⟩ := hP.inst_proc_known i v proc _ hv hkind
  rw [hp]
  rfl

/-- Whatever leads to the caller of an unresolved call is a procedure of the program. -/
theorem WellFormed.procedure?_of_reaches_unresolved (strict : Bool) {p : ProcId} {c : Call}
    (hc : c ∈ (P.callGraph facts? strict).unresolved)
    (h : ReflTransGen (P.callGraph facts? strict).graph.Edge p c.caller.id) :
    (P.procedure? p).isSome = true := by
  rcases h.cases_head with hp | ⟨q, hpq, _⟩
  · have hcall := ((CallGraph.mem_unresolved_ofCalls_iff ..).mp hc).1
    rw [hp, ((hP.mem_allCalls_iff facts? c).mp hcall).1]
    rfl
  · obtain ⟨callee, hcall, _⟩ := (hP.edge_callGraph_iff facts? strict p q).mp hpq
    exact hP.procedure?_of_hasCall hcall

end Program

/-- How far the strict reading covers recursion through unresolved calls. A procedure is reported for every
choice of targets that puts it on a cycle exactly if it is reported in case it reaches the caller of an
unresolved call. What holds without condition is that each procedure on a cycle comes, over edges of the graph
and on that cycle, to one that is reported. -/
theorem strict_recursion_covers_iff (P : Program) (hP : P.Built) (facts? : Option PointsTo) :
    ∃ cg, (CallGraph.build P facts? true).outcome = .ok cg ∧ ∀ p,
      ((∀ targets : ValueId → Set ProcId, (∀ i, ∀ q ∈ targets i, (P.procedure? q).isSome = true) →
          TransGen (cg.Completed targets) p p → cg.isRecursive p = true) ↔
        ((∃ c ∈ cg.unresolved, cg.isReachable p c.caller.id = true) → cg.isRecursive p = true)) ∧
      ∀ targets : ValueId → Set ProcId, TransGen (cg.Completed targets) p p →
        ∃ q, cg.isReachable p q = true ∧ ReflTransGen (cg.Completed targets) q p ∧
          cg.isRecursive q = true := by
  have hwf := hP.wellFormed
  have hreachable := CallGraph.isReachable_iff (CallGraph.closed_callGraph P facts? true)
  refine ⟨P.callGraph facts? true, hwf.outcome_buildCallGraph facts? true, fun p => ⟨⟨?_, ?_⟩, ?_⟩⟩
  · intro hsound hreach
    obtain ⟨c, hc, hpc⟩ := hreach
    rw [hreachable] at hpc
    have hproc := hwf.procedure?_of_reaches_unresolved facts? true hc hpc
    apply hsound fun _ => {p}
    · intro i q hq
      rw [Set.mem_singleton_iff.mp hq]
      exact hproc
    · exact TransGen.tail' (CallGraph.reflTransGen_completed _ _ hpc) (Or.inr ⟨c, hc, rfl, rfl⟩)
  · intro hreported targets _ hcycle
    rcases CallGraph.transGen_completed_cases _ targets hcycle with hbuilt | ⟨c, hc, hpc, _⟩
    · exact (CallGraph.isRecursive_strict_iff ..).mpr (Or.inl hbuilt)
    · exact hreported ⟨c, hc, (hreachable _ _).mpr hpc⟩
  · intro targets hcycle
    rcases CallGraph.transGen_completed_cases _ targets hcycle with hbuilt | ⟨c, hc, hpc, hcp⟩
    · exact ⟨p, (hreachable _ _).mpr ReflTransGen.refl, ReflTransGen.refl,
        (CallGraph.isRecursive_strict_iff ..).mpr (Or.inl hbuilt)⟩
    · exact ⟨c.caller.id, (hreachable _ _).mpr hpc, hcp,
        (CallGraph.isRecursive_strict_iff ..).mpr (Or.inr ⟨c, hc, rfl⟩)⟩

/-- `main` calls `relay`, which calls through the pointer `next`. -/
def relayAdditions : List Addition :=
  [.procedure "main", .procedure "relay", .global "next", .call 1 "a" .void 2 [], .call 2 "b" .void 3 []]

def relayProgram : Program :=
  ((Draft.empty "relay" .standard).addAll relayAdditions).build.value

theorem relayProgram_built : relayProgram.Built :=
  ⟨"relay", .standard, relayAdditions, rfl⟩

/-- A solver that knows nothing. -/
def noFacts : PointsTo := fun _ => none

/-- The one edge of the graph, its one unresolved call, and what is reported. -/
theorem relayProgram_callGraph (cg : CallGraph)
    (h : (CallGraph.build relayProgram (some noFacts) true).outcome = .ok cg) :
    cg.graph.edges = [(1, 2)] ∧ (∃ c ∈ cg.unresolved, c.caller.id = 2) ∧ cg.isReachable 1 2 = true ∧
      cg.isRecursive 1 = false ∧ cg.isRecursive 2 = true := by
  have hrun : (CallGraph.build relayProgram (some noFacts) true).outcome.toOption.map (fun cg =>
      (cg.graph.edges, cg.unresolved.map fun c => c.caller.id, cg.isReachable 1 2,
        cg.isRecursive 1, cg.isRecursive 2)) = some ([(1, 2)], [2], true, false, true) := by decide +kernel
  rw [h] at hrun
  simp only [Except.toOption, Option.map_some, Option.some.injEq, Prod.mk.injEq] at hrun
  obtain ⟨hedges, hunresolved, hrest⟩ := hrun
  refine ⟨hedges, ?_, hrest⟩
  have hmem : 2 ∈ cg.unresolved.map fun c => c.caller.id := by rw [hunresolved]; exact List.mem_cons_self
  exact List.mem_map.mp hmem

/-- If the call through `next` enters `main`, then `main` is on a cycle, but only `relay` is reported. -/
theorem strict_recursion_misses_main : relayProgram.Built ∧
    ∃ cg, (CallGraph.build relayProgram (some noFacts) true).outcome = .ok cg ∧
      ∃ targets : ValueId → Set ProcId,
        (∀ i, ∀ q ∈ targets i, (relayProgram.procedure? q).isSome = true) ∧
        TransGen (cg.Completed targets) 1 1 ∧ ¬cg.isRecursive 1 = true := by
  have hbuild := relayProgram_built.wellFormed.outcome_buildCallGraph (some noFacts) true
  obtain ⟨hedges, ⟨c, hc, hcaller⟩, _, hmain, _⟩ := relayProgram_callGraph _ hbuild
  refine ⟨relayProgram_built, _, hbuild, fun _ => {1}, ?_, ?_, by rw [hmain]; decide⟩
  · intro i q hq
    rw [Set.mem_singleton_iff.mp hq]
    decide +kernel
  · have hcall : relayProgram.callGraph (some noFacts) true |>.graph.Edge 1 2 := by
      rw [Digraph.Edge, hedges]
      exact List.mem_cons_self
    exact TransGen.head (Or.inl hcall) (TransGen.single (Or.inr ⟨c, hc, hcaller, rfl⟩))

/-- The condition holds of `relay` and fails of `main`. -/
theorem strict_recursion_covers_iff_relay : relayProgram.Built ∧
    ∃ cg, (CallGraph.build relayProgram (some noFacts) true).outcome = .ok cg ∧
      (∀ targets : ValueId → Set ProcId,
        (∀ i, ∀ q ∈ targets i, (relayProgram.procedure? q).isSome = true) →
          TransGen (cg.Completed targets) 2 2 → cg.isRecursive 2 = true) ∧
      ¬∀ targets : ValueId → Set ProcId,
        (∀ i, ∀ q ∈ targets i, (relayProgram.procedure? q).isSome = true) →
          TransGen (cg.Completed targets) 1 1 → cg.isRecursive 1 = true := by
  obtain ⟨cg, hcg, hcovers⟩ := strict_recursion_covers_iff relayProgram relayProgram_built (some noFacts)
  obtain ⟨_, ⟨c, hc, hcaller⟩, hreach, hmain, hrelay⟩ := relayProgram_callGraph cg hcg
  refine ⟨relayProgram_built, cg, hcg, (hcovers 2).1.mpr fun _ => hrelay, fun hsound => ?_⟩
  have hreported := (hcovers 1).1.mp hsound ⟨c, hc, by rw [hcaller]; exact hreach⟩
  rw [hmain] at hreported
  cases hreported

end PointerQuery

import PointerQuery.Proofs.Ascending
import PointerQuery.Proofs.CallRelation
import PointerQuery.Proofs.Consistency

namespace PointerQuery

namespace Program

/-- The value `i` is an instruction of the procedure that calls through the value `callee`. -/
def IsCall (P : Program) (i : ValueId) (proc : ProcId) (callee : ValueId) : Prop :=
  ∃ v args, P.value? i = some v ∧ v.kind = .instruction proc (.call callee args)

/-- What a call through a value may enter: the procedure whose address the value is, and otherwise each procedure
whose address is the site of a target that is neither null nor unknown. -/
inductive Enters (P : Program) (facts? : Option PointsTo) (callee : ValueId) : ProcId → Prop where
  | direct : P.IsFunction callee → Enters P facts? callee callee
  | indirect (t : Target) (proc : ProcId) : ¬P.IsFunction callee → t ∈ targetsOf facts? callee →
      t.isNull = false → t.isUnknown = false → t.site? = some proc → P.IsFunction proc →
      Enters P facts? callee proc

/-- The pairs of a caller and a procedure that one of its calls may enter. -/
def callPairs (P : Program) (facts? : Option PointsTo) : Set (ProcId × ProcId) :=
  {e | ∃ i callee, P.IsCall i e.1 callee ∧ P.Enters facts? callee e.2}

/-- The calls through values that are no functions, as far as they may enter nothing. -/
def unresolvedCalls (P : Program) (facts? : Option PointsTo) : Set ValueId :=
  {i | ∃ proc callee, P.IsCall i proc callee ∧ ¬P.IsFunction callee ∧ ∀ q, ¬P.Enters facts? callee q}

theorem IsCall.unique {P : Program} {i : ValueId} {proc proc' : ProcId} {callee callee' : ValueId}
    (h : P.IsCall i proc callee) (h' : P.IsCall i proc' callee') : proc = proc' ∧ callee = callee' := by
  obtain ⟨v, args, hv, hkind⟩ := h
  obtain ⟨v', args', hv', hkind'⟩ := h'
  obtain rfl : v = v' := Option.some.inj (hv.symm.trans hv')
  rw [hkind] at hkind'
  cases hkind'
  exact ⟨rfl, rfl⟩

end Program

/-- The entries of a call graph for one call. -/
def CallGraph.entries (cg : CallGraph) (i : ValueId) : Nat :=
  (cg.unresolved.map fun c => c.call.id).count i

theorem Target.flags_of_site? {t : Target} {site : ValueId} (h : t.site? = some site) :
    t.isNull = false ∧ t.isUnknown = false := by
  obtain ⟨place, inv⟩ := t
  cases place <;> simp_all [Target.site?, Target.isNull, Target.isUnknown]

theorem CallGraph.simple_ofCalls (strict : Bool) (procs : List ProcId) (calls : List Call) :
    (ofCalls strict procs calls).graph.Simple := by
  have hempty : ({} : Digraph ProcId).Simple := ⟨List.nodup_nil, List.nodup_nil⟩
  exact (hempty.foldl_addNode procs).foldl_addEdge (calls.flatMap Call.edges)

theorem CallGraph.mem_nodes_ofCalls_iff (strict : Bool) (procs : List ProcId) (calls : List Call) (p : ProcId) :
    p ∈ (ofCalls strict procs calls).graph.nodes ↔
      p ∈ procs ∨ ∃ c ∈ calls, ∃ q ∈ c.targets, p = c.caller.id ∨ p = q := by
  simp only [ofCalls, Digraph.mem_nodes_foldl_addEdge, Digraph.mem_nodes_foldl_addNode, List.not_mem_nil,
    false_or, List.mem_flatMap, Call.edges, List.mem_map]
  refine or_congr_right ⟨?_, ?_⟩
  · intro h
    obtain ⟨_, ⟨c, hc, q, hq, rfl⟩, hend⟩ := h
    exact ⟨c, hc, q, hq, hend⟩
  · intro h
    obtain ⟨c, hc, q, hq, hend⟩ := h
    exact ⟨_, ⟨c, hc, q, hq, rfl⟩, hend⟩

namespace Program

section WellFormed

variable {P : Program} (hP : P.WellFormed) (facts? : Option PointsTo) (strict : Bool)

include hP

theorem WellFormed.mem_procedureIds_iff (id : ProcId) :
    id ∈ P.procedureList.map Procedure.id ↔ ∃ p, P.procedure? id = some p := by
  simp only [List.mem_map, hP.mem_procedureList_iff]
  constructor
  · intro h
    obtain ⟨p, hp, rfl⟩ := h
    exact ⟨p, hp⟩
  · intro h
    obtain ⟨p, hp⟩ := h
    obtain rfl := hP.procedure_id id p hp
    exact ⟨p, hp, rfl⟩

theorem WellFormed.nodup_procedureIds : (P.procedureList.map Procedure.id).Nodup := by
  have hkeys : P.procedureList.map Procedure.id = P.procedures.toList.map Prod.fst := by
    rw [procedureList, List.map_map]
    apply List.map_congr_left
    intro e he
    exact hP.procedure_id e.1 e.2 (Std.ExtTreeMap.mem_toList_iff_getElem?_eq_some.mp he)
  rw [hkeys, Std.ExtTreeMap.map_fst_toList_eq_keys]
  exact Std.ExtTreeMap.nodup_keys

theorem WellFormed.mem_callTargets_iff_enters (callee : ValueId) (q : ProcId) :
    q ∈ P.callTargets facts? callee ↔ P.Enters facts? callee q := by
  rw [hP.mem_callTargets_iff]
  constructor
  · intro h
    rcases h with ⟨hfun, rfl⟩ | ⟨hfun, hq, t, ht, hsite⟩
    · exact Enters.direct hfun
    · obtain ⟨hnull, hunknown⟩ := Target.flags_of_site? hsite
      exact Enters.indirect t q hfun ht hnull hunknown hsite hq
  · intro h
    cases h with
    | direct hfun => exact Or.inl ⟨hfun, rfl⟩
    | indirect t _ hfun ht _ _ hsite hq => exact Or.inr ⟨hfun, hq, t, ht, hsite⟩

theorem WellFormed.edge_iff_mem_callPairs (p q : ProcId) :
    (P.callGraph facts? strict).graph.Edge p q ↔ (p, q) ∈ P.callPairs facts? := by
  rw [callGraph, (CallGraph.graph_ofCalls_spec ..).2, hP.exists_mem_allCalls_iff facts? p (q ∈ ·)]
  simp only [hP.mem_callTargets_iff_enters]
  constructor
  · intro h
    obtain ⟨callee, ⟨i, hcall⟩, hq⟩ := h
    exact ⟨i, callee, hcall, hq⟩
  · intro h
    obtain ⟨i, callee, hcall, hq⟩ := h
    exact ⟨callee, ⟨i, hcall⟩, hq⟩

/-- Both ends of a call are procedures of the program. -/
theorem WellFormed.procedures_of_mem_callPairs {p q : ProcId} (h : (p, q) ∈ P.callPairs facts?) :
    (∃ r, P.procedure? p = some r) ∧ ∃ r, P.procedure? q = some r := by
  obtain ⟨i, callee, ⟨v, args, hv, hkind⟩, hq⟩ := h
  refine ⟨hP.inst_proc_known i v p _ hv hkind, (hP.procedure_iff q).mpr ?_⟩
  cases hq with
  | direct hfun => exact hfun
  | indirect _ _ _ _ _ _ _ hfun => exact hfun

theorem WellFormed.mem_nodes_callGraph_iff (p : ProcId) :
    p ∈ (P.callGraph facts? strict).graph.nodes ↔ ∃ r, P.procedure? p = some r := by
  rw [callGraph, CallGraph.mem_nodes_ofCalls_iff, hP.mem_procedureIds_iff]
  constructor
  · intro h
    rcases h with hp | ⟨c, hc, q, hq, hend⟩
    · exact hp
    · have hedge : (P.callGraph facts? strict).graph.Edge c.caller.id q :=
        ((CallGraph.graph_ofCalls_spec ..).2 _ _).mpr ⟨c, hc, rfl, hq⟩
      rw [hP.edge_iff_mem_callPairs] at hedge
      obtain ⟨hcaller, hcallee⟩ := hP.procedures_of_mem_callPairs facts? hedge
      rcases hend with rfl | rfl
      · exact hcaller
      · exact hcallee
  · exact Or.inl

theorem WellFormed.numProcedures_callGraph : (P.callGraph facts? strict).numProcedures = P.procedures.size := by
  have hnodup : (P.callGraph facts? strict).graph.nodes.Nodup := (CallGraph.simple_ofCalls ..).nodes_nodup
  have hperm : (P.callGraph facts? strict).graph.nodes.Perm (P.procedureList.map Procedure.id) := by
    rw [List.perm_ext_iff_of_nodup hnodup hP.nodup_procedureIds]
    intro p
    rw [hP.mem_nodes_callGraph_iff, hP.mem_procedureIds_iff]
  calc
    (P.callGraph facts? strict).numProcedures = (P.procedureList.map Procedure.id).length := hperm.length_eq
    _ = P.procedures.size := by rw [List.length_map, procedureList, List.length_map, Std.ExtTreeMap.length_toList]

theorem WellFormed.encard_callPairs : (P.callPairs facts?).encard = (P.callGraph facts? strict).numEdges := by
  apply encard_eq_length (CallGraph.simple_ofCalls ..).edges_nodup
  intro e
  exact (hP.edge_iff_mem_callPairs facts? strict e.1 e.2).symm

end WellFormed

end Program

namespace Draft

variable {d : Draft} (hd : d.Consistent) (facts? : Option PointsTo) (strict : Bool)

include hd

theorem Consistent.isCall_of_mem_allCalls {c : Call} (hc : c ∈ d.program.allCalls facts?) :
    ∃ callee, d.program.IsCall c.call.id c.caller.id callee ∧
      c.targets = d.program.callTargets facts? callee := by
  obtain ⟨_, i, callee, args, hv, hkind, htargets⟩ := (hd.program.mem_allCalls_iff facts? c).mp hc
  obtain rfl := hd.value_id i c.call hv
  exact ⟨callee, ⟨c.call, args, hv, hkind⟩, htargets⟩

/-- A body ascends, so no instruction of it is read twice. -/
theorem Consistent.nodup_callsIn {p : Procedure} (hp : d.program.procedure? p.id = some p) :
    ((d.program.callsIn facts? p).map fun c => c.call.id).Nodup := by
  rw [Program.callsIn, List.map_map, List.Nodup, List.pairwise_map, List.pairwise_filterMap,
    List.pairwise_filterMap]
  apply (hd.insts_ascending p.id p hp).imp
  intro i j hij v hv w hw s hs t ht
  obtain ⟨rfl, _⟩ := (v.callSite?_eq_some_iff s).mp hs
  obtain ⟨rfl, _⟩ := (w.callSite?_eq_some_iff t).mp ht
  change s.call.id ≠ t.call.id
  rw [hd.value_id i _ hv, hd.value_id j _ hw]
  exact Nat.ne_of_lt hij

/-- No instruction is in two bodies, so no call of the program is read twice. -/
theorem Consistent.nodup_allCalls : ((d.program.allCalls facts?).map fun c => c.call.id).Nodup := by
  rw [Program.allCalls, List.map_flatMap]
  apply List.pairwise_flatMap.mpr
  constructor
  · intro p hp
    exact hd.nodup_callsIn facts? ((hd.program.mem_procedureList_iff p).mp hp)
  · apply (List.pairwise_map.mp hd.program.nodup_procedureIds).imp_of_mem
    intro p q hp hq hne i hi j hj hij
    obtain ⟨c, hc, rfl⟩ := List.mem_map.mp hi
    obtain ⟨c', hc', rfl⟩ := List.mem_map.mp hj
    have hcaller : c.caller = p :=
      ((hd.program.mem_callsIn_iff facts? p ((hd.program.mem_procedureList_iff p).mp hp) c).mp hc).1
    have hcaller' : c'.caller = q :=
      ((hd.program.mem_callsIn_iff facts? q ((hd.program.mem_procedureList_iff q).mp hq) c').mp hc').1
    obtain ⟨_, hcall, _⟩ := hd.isCall_of_mem_allCalls facts? (List.mem_flatMap.mpr ⟨p, hp, hc⟩)
    obtain ⟨_, hcall', _⟩ := hd.isCall_of_mem_allCalls facts? (List.mem_flatMap.mpr ⟨q, hq, hc'⟩)
    rw [← hij] at hcall'
    rw [hcaller] at hcall
    rw [hcaller'] at hcall'
    exact hne (hcall.unique hcall').1

theorem Consistent.nodup_unresolved :
    ((d.program.callGraph facts? strict).unresolved.map fun c => c.call.id).Nodup :=
  (hd.nodup_allCalls facts?).sublist (List.filter_sublist.map _)

theorem Consistent.mem_unresolved_iff (i : ValueId) :
    i ∈ ((d.program.callGraph facts? strict).unresolved.map fun c => c.call.id) ↔
      i ∈ d.program.unresolvedCalls facts? := by
  have hwf := hd.program
  have hnil (callee : ValueId) : d.program.callTargets facts? callee = [] ↔
      ¬d.program.IsFunction callee ∧ ∀ q, ¬d.program.Enters facts? callee q := by
    simp only [List.eq_nil_iff_forall_not_mem, hwf.mem_callTargets_iff_enters]
    exact ⟨fun h => ⟨fun hfun => h callee (Program.Enters.direct hfun), h⟩, fun h => h.2⟩
  rw [List.mem_map]
  constructor
  · intro h
    obtain ⟨c, hc, rfl⟩ := h
    obtain ⟨hmem, hempty⟩ := List.mem_filter.mp hc
    obtain ⟨callee, hcall, htargets⟩ := hd.isCall_of_mem_allCalls facts? hmem
    refine ⟨c.caller.id, callee, hcall, (hnil callee).mp ?_⟩
    rw [← htargets]
    exact List.isEmpty_iff.mp hempty
  · intro h
    obtain ⟨proc, callee, ⟨v, args, hv, hkind⟩, hnone⟩ := h
    obtain ⟨p, hp⟩ := hwf.inst_proc_known i v proc _ hv hkind
    obtain rfl := hwf.procedure_id proc p hp
    refine ⟨⟨p, v, d.program.callTargets facts? callee⟩, List.mem_filter.mpr ⟨?_, ?_⟩, hd.value_id i v hv⟩
    · exact (hwf.mem_allCalls_iff facts? _).mpr ⟨hp, i, callee, args, hv, hkind, rfl⟩
    · exact List.isEmpty_iff.mpr ((hnil callee).mpr hnone)

theorem Consistent.encard_unresolvedCalls :
    (d.program.unresolvedCalls facts?).encard = (d.program.callGraph facts? strict).numUnresolved := by
  have hcount := encard_eq_length (hd.nodup_unresolved facts? strict) fun i =>
    (hd.mem_unresolved_iff facts? strict i).symm
  rw [List.length_map] at hcount
  exact hcount

/-- A call gives an edge for each procedure that it may enter, or one unresolved entry. -/
theorem Consistent.edge_or_entry {i callee : ValueId} {proc : ProcId} (hcall : d.program.IsCall i proc callee) :
    (∃ q ∈ (d.program.callGraph facts? strict).callees proc, d.program.Enters facts? callee q) ∧
        (d.program.callGraph facts? strict).entries i = 0 ∨
      (∀ q, ¬d.program.Enters facts? callee q) ∧ (d.program.callGraph facts? strict).entries i = 1 := by
  have hentry : i ∈ d.program.unresolvedCalls facts? ↔
      ¬d.program.IsFunction callee ∧ ∀ q, ¬d.program.Enters facts? callee q := by
    constructor
    · intro h
      obtain ⟨proc', callee', hcall', hnone⟩ := h
      obtain ⟨_, rfl⟩ := hcall.unique hcall'
      exact hnone
    · exact fun hnone => ⟨proc, callee, hcall, hnone⟩
  rw [← hd.mem_unresolved_iff facts? strict] at hentry
  by_cases hsome : ∃ q, d.program.Enters facts? callee q
  · obtain ⟨q, hq⟩ := hsome
    refine Or.inl ⟨⟨q, ?_, hq⟩, ?_⟩
    · rw [CallGraph.mem_callees_iff, hd.program.edge_iff_mem_callPairs]
      exact ⟨i, callee, hcall, hq⟩
    · apply List.count_eq_zero.mpr
      intro hi
      exact (hentry.mp hi).2 q hq
  · have hnone : ∀ q, ¬d.program.Enters facts? callee q := fun q hq => hsome ⟨q, hq⟩
    refine Or.inr ⟨hnone, ?_⟩
    apply List.count_eq_one_of_mem (hd.nodup_unresolved facts? strict)
    exact hentry.mpr ⟨fun hfun => hnone callee (Program.Enters.direct hfun), hnone⟩

end Draft

/-- The call graph that is built for a program is its call relation: the nodes are the procedures, the callees of a
procedure are what its calls may enter, and the counts are the numbers of procedures, of pairs of caller and
callee, and of calls that may enter nothing. Every call gives an edge or one unresolved entry, and never both. -/
theorem callGraph_is_call_relation (P : Program) (hP : P.Built) (facts? : Option PointsTo) (strict : Bool) :
    ∃ cg, (CallGraph.build P facts? strict).outcome = .ok cg ∧
      (∀ p, p ∈ cg.graph.nodes ↔ ∃ r, P.procedure? p = some r) ∧
      cg.numProcedures = P.procedures.size ∧
      (∀ p q, q ∈ cg.callees p ↔ (p, q) ∈ P.callPairs facts?) ∧
      (P.callPairs facts?).encard = cg.numEdges ∧
      (P.unresolvedCalls facts?).encard = cg.numUnresolved ∧
      ∀ i proc callee, P.IsCall i proc callee →
        (∃ q ∈ cg.callees proc, P.Enters facts? callee q) ∧ cg.entries i = 0 ∨
          (∀ q, ¬P.Enters facts? callee q) ∧ cg.entries i = 1 := by
  obtain ⟨d, hd, rfl⟩ := hP.exists_draft
  have hwf := hd.program
  refine ⟨_, hwf.outcome_buildCallGraph facts? strict, hwf.mem_nodes_callGraph_iff facts? strict,
    hwf.numProcedures_callGraph facts? strict, ?_, hwf.encard_callPairs facts? strict,
    hd.encard_unresolvedCalls facts? strict, ?_⟩
  · intro p q
    rw [CallGraph.mem_callees_iff, hwf.edge_iff_mem_callPairs]
  · intro i proc callee hcall
    exact hd.edge_or_entry facts? strict hcall

/-- `main` calls the declared `log` twice and once through `hook`; `idle` calls through `lost`. -/
def hookAdditions : List Addition :=
  [.procedure "main", .declaration "log", .procedure "idle", .global "hook", .global "lost",
    .call 1 "a" .void 2 [], .call 1 "b" .void 2 [], .call 1 "c" .void 4 [], .call 3 "d" .void 5 []]

def hookProgram : Program :=
  ((Draft.empty "hook" .standard).addAll hookAdditions).build.value

/-- `hook` may hold the address of `log`, of `idle` in memory that was freed, or null. -/
def hookTargets : PointsTo := fun a =>
  if a = 4 then some (Std.ExtTreeSet.ofList [Target.atSite 2 .unknown none none,
    (Target.atSite 3 (.known 0) none none).invalidated, Target.null]) else none

/-- Three calls of `main` make two edges, and the call of `idle` is the unresolved one. -/
theorem callGraph_is_call_relation_hook : hookProgram.Built ∧
    (hookProgram.callPairs (some hookTargets)).encard = (2 : Nat) ∧
    (hookProgram.unresolvedCalls (some hookTargets)).encard = (1 : Nat) ∧
    hookProgram.IsCall 9 3 5 ∧ ∀ q, ¬hookProgram.Enters (some hookTargets) 5 q := by
  have hP : hookProgram.Built := ⟨"hook", .standard, hookAdditions, rfl⟩
  obtain ⟨cg, hcg, _, _, _, hedges, hunresolved, hcalls⟩ :=
    callGraph_is_call_relation hookProgram hP (some hookTargets) false
  have hcall : hookProgram.IsCall 9 3 5 :=
    ⟨⟨9, "d", .void, .instruction 3 (.call 5 [])⟩, [], by decide +kernel, rfl⟩
  have hrun : (CallGraph.build hookProgram (some hookTargets) false).outcome.toOption.map (fun cg =>
      (cg.numEdges, cg.numUnresolved, cg.entries 9)) = some (2, 1, 1) := by decide +kernel
  rw [hcg] at hrun
  simp only [Except.toOption, Option.map_some, Option.some.injEq, Prod.mk.injEq] at hrun
  obtain ⟨hnumEdges, hnumUnresolved, hentry⟩ := hrun
  rw [hnumEdges] at hedges
  rw [hnumUnresolved] at hunresolved
  refine ⟨hP, hedges, hunresolved, hcall, ?_⟩
  rcases hcalls 9 3 5 hcall with ⟨_, hnone⟩ | ⟨hnone, _⟩
  · rw [hentry] at hnone
    cases hnone
  · exact hnone

end PointerQuery

import PointerQuery.CallGraph
import PointerQuery.Proofs.Reachability
import PointerQuery.Proofs.WellFormed

namespace PointerQuery

open Relation (ReflTransGen TransGen)

/-- The targets of a value. Without facts, without a set and with an empty set there are none. -/
def targetsOf (facts? : Option PointsTo) (a : ValueId) : TargetSet :=
  (facts?.bind fun facts => facts a).getD ∅

namespace Program

/-- The procedure has an instruction that calls through the value. -/
def HasCall (P : Program) (proc : ProcId) (callee : ValueId) : Prop :=
  ∃ i v args, P.value? i = some v ∧ v.kind = .instruction proc (.call callee args)

/-- A call through a value that is no function may enter the functions at the sites of its targets. -/
def Resolves (P : Program) (facts? : Option PointsTo) (callee : ValueId) (proc : ProcId) : Prop :=
  P.IsFunction proc ∧ ∃ t ∈ targetsOf facts? callee, t.site? = some proc

/-- One procedure may call another, directly or through a value. -/
def Calls (P : Program) (facts? : Option PointsTo) (caller proc : ProcId) : Prop :=
  ∃ callee, P.HasCall caller callee ∧
    (P.IsFunction callee ∧ proc = callee ∨ ¬P.IsFunction callee ∧ P.Resolves facts? callee proc)

/-- The procedure has a call through a value that is no function and resolves to none. -/
def HasUnresolvedCall (P : Program) (facts? : Option PointsTo) (proc : ProcId) : Prop :=
  ∃ callee, P.HasCall proc callee ∧ ¬P.IsFunction callee ∧ ∀ q, ¬P.Resolves facts? callee q

end Program

theorem mapM_eq_ok_filterMap {ε α β : Type} (f : α → Except ε β) (g : α → Option β) (xs : List α)
    (h : ∀ x ∈ xs, ∃ y, g x = some y ∧ f x = .ok y) : xs.mapM f = .ok (xs.filterMap g) := by
  induction xs with
  | nil => rfl
  | cons x xs ih =>
    obtain ⟨y, hg, hf⟩ := h x List.mem_cons_self
    have hrest := ih fun z hz => h z (List.mem_cons_of_mem x hz)
    rw [List.mapM_cons, hf, hrest, List.filterMap_cons_some hg]
    rfl

theorem Value.callSite?_eq_some_iff (v : Value) (s : CallSite) :
    v.callSite? = some s ↔ s.call = v ∧ ∃ proc args, v.kind = .instruction proc (.call s.callee args) := by
  obtain ⟨call, callee⟩ := s
  cases hkind : v.kind with
  | instruction proc op =>
    cases op <;> simp [Value.callSite?, Value.op?, hkind, eq_comm]
  | _ => simp [Value.callSite?, Value.op?, hkind]

namespace Program

/-- The calls of one procedure, for a program in which no look-up fails. -/
def callsIn (P : Program) (facts? : Option PointsTo) (p : Procedure) : List Call :=
  ((p.insts.filterMap P.value?).filterMap Value.callSite?).map fun s =>
    ⟨p, s.call, P.callTargets facts? s.callee⟩

/-- The calls of all procedures, for a program in which no look-up fails. -/
def allCalls (P : Program) (facts? : Option PointsTo) : List Call :=
  P.procedureList.flatMap (P.callsIn facts?)

/-- The call graph, for a program in which no look-up fails. -/
def callGraph (P : Program) (facts? : Option PointsTo) (strict : Bool) : CallGraph :=
  CallGraph.ofCalls strict (P.procedureList.map Procedure.id) (P.allCalls facts?)

variable {P : Program} (hP : P.WellFormed) (facts? : Option PointsTo)

include hP

theorem WellFormed.mem_procedureList_iff (p : Procedure) :
    p ∈ P.procedureList ↔ P.procedure? p.id = some p := by
  simp only [procedureList, List.mem_map, Prod.exists, exists_eq_right,
    Std.ExtTreeMap.mem_toList_iff_getElem?_eq_some]
  constructor
  · intro h
    obtain ⟨id, hid⟩ := h
    rw [hP.procedure_id id p hid]
    exact hid
  · exact fun h => ⟨p.id, h⟩

theorem WellFormed.asProcedure?_eq_some_iff (id proc : ProcId) :
    P.asProcedure? id = some proc ↔ P.IsFunction id ∧ proc = id := by
  have hcontains : P.procedures.contains id = true ↔ P.IsFunction id := by
    rw [Std.ExtTreeMap.contains_eq_isSome_getElem?, Option.isSome_iff_exists]
    exact hP.procedure_iff id
  unfold asProcedure?
  split
  · rw [← hcontains, Option.ite_none_right_eq_some, Option.some.injEq, eq_comm (a := id)]
  · rename_i hkind
    simp only [reduceCtorEq, false_iff, not_and]
    intro hfunction _
    obtain ⟨v, hv, hfun⟩ := hfunction
    exact hkind (by rw [hv]; exact congrArg some hfun)

theorem WellFormed.asProcedure?_eq_none_iff (id : ProcId) :
    P.asProcedure? id = none ↔ ¬P.IsFunction id := by
  rw [Option.eq_none_iff_forall_ne_some]
  simp only [ne_eq, hP.asProcedure?_eq_some_iff, not_and, forall_eq_apply_imp_iff]

theorem WellFormed.mem_indirectTargets_iff (callee : ValueId) (proc : ProcId) :
    proc ∈ P.indirectTargets facts? callee ↔ P.Resolves facts? callee proc := by
  unfold indirectTargets Resolves targetsOf
  split
  · rename_i hset
    simp [hset]
  · rename_i set hset
    simp only [hset, Option.getD_some, List.mem_filterMap, Std.ExtTreeSet.mem_toList,
      Option.bind_eq_some_iff, hP.asProcedure?_eq_some_iff]
    constructor
    · intro h
      obtain ⟨t, ht, site, hsite, hfun, rfl⟩ := h
      exact ⟨hfun, t, ht, hsite⟩
    · intro h
      obtain ⟨hfun, t, ht, hsite⟩ := h
      exact ⟨t, ht, proc, hsite, hfun, rfl⟩

/-- What a call through a value may enter. -/
theorem WellFormed.mem_callTargets_iff (callee : ValueId) (proc : ProcId) :
    proc ∈ P.callTargets facts? callee ↔
      P.IsFunction callee ∧ proc = callee ∨ ¬P.IsFunction callee ∧ P.Resolves facts? callee proc := by
  unfold callTargets
  split
  · rename_i q hq
    obtain ⟨hfun, rfl⟩ := (hP.asProcedure?_eq_some_iff callee q).mp hq
    simp [hfun]
  · rename_i hnone
    have hfun := (hP.asProcedure?_eq_none_iff callee).mp hnone
    simp [hfun, hP.mem_indirectTargets_iff]

theorem WellFormed.callTargets_eq_nil_iff (callee : ValueId) :
    P.callTargets facts? callee = [] ↔
      ¬P.IsFunction callee ∧ ∀ q, ¬P.Resolves facts? callee q := by
  simp only [List.eq_nil_iff_forall_not_mem, hP.mem_callTargets_iff]
  constructor
  · intro h
    have hfun : ¬P.IsFunction callee := fun hf => h callee (Or.inl ⟨hf, rfl⟩)
    exact ⟨hfun, fun q hq => h q (Or.inr ⟨hfun, hq⟩)⟩
  · intro h q hq
    obtain ⟨hfun, hnone⟩ := h
    rcases hq with ⟨hf, _⟩ | ⟨_, hq⟩
    · exact hfun hf
    · exact hnone q hq

theorem WellFormed.callSites_eq {proc : ProcId} {p : Procedure} (hp : P.procedure? proc = some p) :
    P.callSites proc = .ok ((p.insts.filterMap P.value?).filterMap Value.callSite?) := by
  have hvalues : p.insts.mapM P.value = .ok (p.insts.filterMap P.value?) := by
    apply mapM_eq_ok_filterMap
    intro i hi
    obtain ⟨v, _, hv, _⟩ := (hP.mem_insts_iff proc p hp i).mp hi
    exact ⟨v, hv, by simp only [value, hv]⟩
  simp only [callSites, hp, hvalues]
  rfl

theorem WellFormed.callsOf_eq (p : Procedure) (hp : P.procedure? p.id = some p) :
    P.callsOf facts? p = .ok (P.callsIn facts? p) := by
  rw [callsOf, hP.callSites_eq hp]
  rfl

theorem WellFormed.calls_eq : P.calls facts? = .ok (P.allCalls facts?) := by
  have hcalls : P.procedureList.mapM (P.callsOf facts?) =
      .ok (P.procedureList.filterMap (some ∘ P.callsIn facts?)) := by
    apply mapM_eq_ok_filterMap
    intro p hp
    exact ⟨_, rfl, hP.callsOf_eq facts? p ((hP.mem_procedureList_iff p).mp hp)⟩
  rw [calls, hcalls, List.filterMap_eq_map, allCalls, List.flatMap_def]
  rfl

theorem WellFormed.mem_callsIn_iff (p : Procedure) (hp : P.procedure? p.id = some p) (c : Call) :
    c ∈ P.callsIn facts? p ↔ c.caller = p ∧ ∃ i callee args, P.value? i = some c.call ∧
      c.call.kind = .instruction p.id (.call callee args) ∧ c.targets = P.callTargets facts? callee := by
  obtain ⟨caller, call, targets⟩ := c
  simp only [callsIn, List.mem_map, List.mem_filterMap, Value.callSite?_eq_some_iff, Call.mk.injEq]
  constructor
  · intro h
    obtain ⟨s, ⟨v, ⟨i, hi, hv⟩, rfl, proc, args, hkind⟩, rfl, rfl, rfl⟩ := h
    obtain ⟨w, op, hw, hop⟩ := (hP.mem_insts_iff p.id p hp i).mp hi
    obtain rfl : w = s.call := Option.some.inj (hw.symm.trans hv)
    rw [hkind] at hop
    cases hop
    exact ⟨rfl, i, s.callee, args, hv, hkind, rfl⟩
  · intro h
    obtain ⟨rfl, i, callee, args, hv, hkind, rfl⟩ := h
    have hi : i ∈ caller.insts := (hP.mem_insts_iff caller.id caller hp i).mpr ⟨call, _, hv, hkind⟩
    exact ⟨⟨call, callee⟩, ⟨call, ⟨i, hi, hv⟩, rfl, caller.id, args, hkind⟩, rfl, rfl, rfl⟩

/-- The calls that are read off a program are its call instructions, each with the procedure that it is in
and with what it may enter. -/
theorem WellFormed.mem_allCalls_iff (c : Call) :
    c ∈ P.allCalls facts? ↔ P.procedure? c.caller.id = some c.caller ∧
      ∃ i callee args, P.value? i = some c.call ∧
        c.call.kind = .instruction c.caller.id (.call callee args) ∧
        c.targets = P.callTargets facts? callee := by
  simp only [allCalls, List.mem_flatMap, hP.mem_procedureList_iff]
  constructor
  · intro h
    obtain ⟨p, hp, hc⟩ := h
    obtain ⟨rfl, hcall⟩ := (hP.mem_callsIn_iff facts? p hp c).mp hc
    exact ⟨hp, hcall⟩
  · intro h
    obtain ⟨hp, hcall⟩ := h
    exact ⟨c.caller, hp, (hP.mem_callsIn_iff facts? c.caller hp c).mpr ⟨rfl, hcall⟩⟩

theorem WellFormed.hasCall_iff (proc : ProcId) (callee : ValueId) :
    P.HasCall proc callee ↔ ∃ p i v args, P.procedure? p.id = some p ∧ p.id = proc ∧
      P.value? i = some v ∧ v.kind = .instruction p.id (.call callee args) := by
  constructor
  · intro h
    obtain ⟨i, v, args, hv, hkind⟩ := h
    obtain ⟨p, hp⟩ := hP.inst_proc_known i v proc _ hv hkind
    obtain rfl := hP.procedure_id proc p hp
    exact ⟨p, i, v, args, hp, rfl, hv, hkind⟩
  · intro h
    obtain ⟨p, i, v, args, _, rfl, hv, hkind⟩ := h
    exact ⟨i, v, args, hv, hkind⟩

/-- Statements about the calls read off a program are statements about its call instructions. -/
theorem WellFormed.exists_mem_allCalls_iff (proc : ProcId) (targets : List ProcId → Prop) :
    (∃ c ∈ P.allCalls facts?, c.caller.id = proc ∧ targets c.targets) ↔
      ∃ callee, P.HasCall proc callee ∧ targets (P.callTargets facts? callee) := by
  simp only [hP.mem_allCalls_iff, hP.hasCall_iff]
  constructor
  · intro h
    obtain ⟨c, ⟨hp, i, callee, args, hv, hkind, htargets⟩, hproc, h⟩ := h
    exact ⟨callee, ⟨c.caller, i, c.call, args, hp, hproc, hv, hkind⟩, htargets ▸ h⟩
  · intro h
    obtain ⟨callee, ⟨p, i, v, args, hp, hproc, hv, hkind⟩, h⟩ := h
    exact ⟨⟨p, v, P.callTargets facts? callee⟩, ⟨hp, i, callee, args, hv, hkind, rfl⟩, hproc, h⟩

end Program

namespace CallGraph

theorem graph_ofCalls_spec (strict : Bool) (procs : List ProcId) (calls : List Call) :
    (ofCalls strict procs calls).graph.Closed ∧ ∀ p q, (ofCalls strict procs calls).graph.Edge p q ↔
      ∃ c ∈ calls, c.caller.id = p ∧ q ∈ c.targets := by
  have hempty : ({} : Digraph ProcId).Closed := by
    intro a b hab
    exact absurd hab List.not_mem_nil
  obtain ⟨hnodes, hnone⟩ := Digraph.foldl_addNode_spec procs {} hempty
  obtain ⟨hclosed, hedge⟩ := Digraph.foldl_addEdge_spec (calls.flatMap Call.edges) _ hnodes
  refine ⟨hclosed, fun p q => ?_⟩
  have hno : ¬(procs.foldl Digraph.addNode {}).Edge p q := by
    rw [hnone]
    exact List.not_mem_nil
  simp only [ofCalls, hedge, hno, false_or, List.mem_flatMap, Call.edges, List.mem_map, Prod.mk.injEq]
  constructor
  · intro h
    obtain ⟨c, hc, t, ht, rfl, rfl⟩ := h
    exact ⟨c, hc, rfl, ht⟩
  · intro h
    obtain ⟨c, hc, rfl, hq⟩ := h
    exact ⟨c, hc, q, hq, rfl, rfl⟩

theorem isRecursive_ofCalls_iff (strict : Bool) (procs : List ProcId) (calls : List Call) (p : ProcId) :
    (ofCalls strict procs calls).isRecursive p = true ↔
      TransGen (ofCalls strict procs calls).graph.Edge p p ∨
        strict = true ∧ ∃ c ∈ calls, c.caller.id = p ∧ c.targets = [] := by
  rw [← Digraph.mem_cyclicNodes_iff _ (graph_ofCalls_spec strict procs calls).1]
  cases strict
  · simp [isRecursive, ofCalls]
  · simp [isRecursive, ofCalls, Call.isUnresolved, and_assoc, and_comm]

theorem mem_callees_iff (cg : CallGraph) (p q : ProcId) : q ∈ cg.callees p ↔ cg.graph.Edge p q := by
  simp [callees, Digraph.mem_successors_iff]

theorem isReachable_iff {cg : CallGraph} (hcg : cg.graph.Closed) (p q : ProcId) :
    cg.isReachable p q = true ↔ ReflTransGen cg.graph.Edge p q := by
  unfold isReachable
  split
  · rename_i heq
    rw [heq]
    exact iff_of_true rfl ReflTransGen.refl
  · rename_i hne
    split
    · rename_i habsent
      refine iff_of_false Bool.false_ne_true ?_
      intro hpath
      exact hne (hcg.eq_of_path (Or.inl habsent) hpath).symm
    · exact cg.graph.finds_iff p q

theorem mem_reachableFrom_iff {cg : CallGraph} (hcg : cg.graph.Closed) (p q : ProcId) :
    q ∈ cg.reachableFrom p ↔ ReflTransGen cg.graph.Edge p q := by
  have hstart : q ∈ (Std.ExtTreeSet.ofList [p] : Std.ExtTreeSet ProcId) ↔ q = p := by
    rw [Std.ExtTreeSet.mem_ofList, List.contains_iff_mem, List.mem_singleton]
  unfold reachableFrom
  split
  · rename_i habsent
    rw [hstart]
    constructor
    · rintro rfl
      exact ReflTransGen.refl
    · exact hcg.eq_of_path (Or.inl habsent)
  · rw [Std.ExtTreeSet.mem_insertMany_list, hstart, List.contains_iff_mem, Digraph.mem_reachable_iff]
    constructor
    · rintro (rfl | hpath)
      · exact ReflTransGen.refl
      · exact hpath
    · exact Or.inr

theorem closed_callGraph (P : Program) (facts? : Option PointsTo) (strict : Bool) :
    (P.callGraph facts? strict).graph.Closed :=
  (graph_ofCalls_spec ..).1

end CallGraph

namespace Program

variable {P : Program} (hP : P.WellFormed) (facts? : Option PointsTo) (strict : Bool)

include hP

theorem WellFormed.outcome_buildCallGraph :
    (CallGraph.build P facts? strict).outcome = .ok (P.callGraph facts? strict) := by
  simp only [CallGraph.build, Checked.outcome_bind, Checked.outcome_ofExcept, hP.calls_eq]
  rfl

theorem WellFormed.edge_callGraph_iff (p q : ProcId) :
    (P.callGraph facts? strict).graph.Edge p q ↔ P.Calls facts? p q := by
  rw [callGraph, (CallGraph.graph_ofCalls_spec ..).2, hP.exists_mem_allCalls_iff facts? p (q ∈ ·)]
  simp only [hP.mem_callTargets_iff]
  rfl

theorem WellFormed.edge_callGraph : (P.callGraph facts? strict).graph.Edge = P.Calls facts? := by
  funext p q
  exact propext (hP.edge_callGraph_iff facts? strict p q)

theorem WellFormed.hasUnresolvedCall_iff (p : ProcId) :
    (∃ c ∈ P.allCalls facts?, c.caller.id = p ∧ c.targets = []) ↔ P.HasUnresolvedCall facts? p := by
  rw [hP.exists_mem_allCalls_iff facts? p (· = [])]
  simp only [hP.callTargets_eq_nil_iff]
  rfl

theorem WellFormed.isRecursive_callGraph_iff (p : ProcId) :
    (P.callGraph facts? strict).isRecursive p = true ↔
      TransGen (P.Calls facts?) p p ∨ strict = true ∧ P.HasUnresolvedCall facts? p := by
  rw [← hP.edge_callGraph facts? strict, ← hP.hasUnresolvedCall_iff facts?]
  exact CallGraph.isRecursive_ofCalls_iff ..

end Program

end PointerQuery

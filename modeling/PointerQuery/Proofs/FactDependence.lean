import PointerQuery.Proofs.FactOrder

namespace PointerQuery

namespace PointsTo

/-- Two solvers say the same about a value. A missing set and an empty set are the same. -/
def Agree (F F' : PointsTo) (a : ValueId) : Prop :=
  targetsOf (some F) a = targetsOf (some F') a

/-- Two solvers say the same about the callees of all calls through values that are no functions. -/
def AgreeOnCalls (F F' : PointsTo) (P : Program) : Prop :=
  ∀ proc callee, P.HasCall proc callee → ¬P.IsFunction callee → F.Agree F' callee

/-- Two solvers that differ at most in where a set is missing and where it is there but empty. -/
def SameButEmpty (F F' : PointsTo) : Prop :=
  ∀ a, F a = F' a ∨ F a = none ∧ F' a = some ∅ ∨ F a = some ∅ ∧ F' a = none

theorem SameButEmpty.agree {F F' : PointsTo} (h : F.SameButEmpty F') (a : ValueId) : F.Agree F' a := by
  unfold Agree targetsOf
  rcases h a with hsame | ⟨hnone, hempty⟩ | ⟨hempty, hnone⟩
  · simp [hsame]
  · simp [hnone, hempty]
  · simp [hnone, hempty]

end PointsTo

namespace Program

/-- A missing set and an empty one lead a call to no procedure alike. -/
theorem indirectTargets_eq (P : Program) (facts? : Option PointsTo) (callee : ValueId) :
    P.indirectTargets facts? callee =
      (targetsOf facts? callee).toList.filterMap fun t => t.site?.bind P.asProcedure? := by
  unfold indirectTargets targetsOf
  cases facts?.bind fun facts => facts callee with
  | none => simp
  | some set => rfl

variable {P : Program} (hP : P.WellFormed) {F F' : PointsTo} (hcalls : F.AgreeOnCalls F' P)

include hP hcalls

theorem WellFormed.callTargets_congr {proc : ProcId} {callee : ValueId} (hcall : P.HasCall proc callee) :
    P.callTargets (some F) callee = P.callTargets (some F') callee := by
  unfold callTargets
  cases hfun : P.asProcedure? callee with
  | some q => rfl
  | none =>
    have hagree := hcalls proc callee hcall ((hP.asProcedure?_eq_none_iff callee).mp hfun)
    change P.indirectTargets (some F) callee = P.indirectTargets (some F') callee
    rw [indirectTargets_eq, indirectTargets_eq, hagree]

theorem WellFormed.allCalls_congr : P.allCalls (some F) = P.allCalls (some F') := by
  unfold allCalls
  apply List.flatMap_congr
  intro p hp
  apply List.map_congr_left
  intro s hs
  obtain ⟨v, hv, hsite⟩ := List.mem_filterMap.mp hs
  obtain ⟨i, _, hi⟩ := List.mem_filterMap.mp hv
  obtain ⟨_, proc, args, hkind⟩ := (v.callSite?_eq_some_iff s).mp hsite
  rw [hP.callTargets_congr hcalls ⟨i, v, args, hi, hkind⟩]

theorem WellFormed.callGraph_congr (strict : Bool) :
    P.callGraph (some F) strict = P.callGraph (some F') strict := by
  rw [callGraph, callGraph, hP.allCalls_congr hcalls]

end Program

theorem Checked.ofExcept_ok_bind {α β : Type} (a : α) (f : α → Checked β) : (ofExcept (.ok a) >>= f) = f a :=
  rfl

namespace Engine

/-- The engine with other facts and the same call graph. -/
def withFacts (E : Engine) (facts? : Option PointsTo) : Engine :=
  { E with facts? }

variable (E : Engine) (facts? : Option PointsTo)

/-- The check of an access reads no facts but those in the call graph. -/
theorem checkAll_withFacts (v : Value) (n : Word) (ts : List Target) :
    (E.withFacts facts?).checkAll v n ts = E.checkAll v n ts := by
  induction ts with
  | nil => rfl
  | cons t ts ih =>
    have hfirst : (E.withFacts facts?).checkAccess v n t = E.checkAccess v n t := rfl
    rw [checkAll, checkAll, ih, hfirst]

variable {E facts?} {a : ValueId} (h : (E.withFacts facts?).targets? a = E.targets? a)

include h

theorem isNull_withFacts : (E.withFacts facts?).isNull a = E.isNull a := by
  unfold isNull
  rw [h]
  rfl

theorem isValidPointer_withFacts (len : ValueId) :
    (E.withFacts facts?).isValidPointer a len = E.isValidPointer a len := by
  unfold isValidPointer
  simp only [h, checkAll_withFacts]
  rfl

theorem singleTarget?_withFacts : (E.withFacts facts?).singleTarget? a = E.singleTarget? a := by
  unfold singleTarget?
  rw [h]

theorem hasKnownSize_withFacts : (E.withFacts facts?).hasKnownSize a = E.hasKnownSize a := by
  unfold hasKnownSize
  rw [singleTarget?_withFacts h]
  rfl

theorem pointerInfo_withFacts : (E.withFacts facts?).pointerInfo a = E.pointerInfo a := by
  unfold pointerInfo
  rw [singleTarget?_withFacts h]
  rfl

/-- Of the operands of a question only the first is looked up in the facts. -/
theorem evaluate_withFacts (hpointsTo : ∀ b, (E.withFacts facts?).pointsTo a b = E.pointsTo a b) (q : Query)
    (rest : List ValueId) : (E.withFacts facts?).evaluate q (a :: rest) = E.evaluate q (a :: rest) := by
  have hfirst : operand (a :: rest) 0 = .ok a := rfl
  unfold evaluate
  simp only [hfirst, Checked.ofExcept_ok_bind]
  cases q with
  | isNull => rw [isNull_withFacts h]; rfl
  | isValidPointer => simp only [isValidPointer_withFacts h]; rfl
  | hasKnownSize => rw [hasKnownSize_withFacts h]; rfl
  | pointsTo => simp only [hpointsTo]; rfl
  | getPointerInfo => rw [pointerInfo_withFacts h]; rfl

end Engine

namespace PointsTo

variable {P : Program} {F F' : PointsTo} {strict : Bool}

theorem AgreeOnCalls.engine_eq (hP : P.WellFormed) (hcalls : F.AgreeOnCalls F' P) :
    Engine.of P (some F') strict = (Engine.of P (some F) strict).withFacts (some F') := by
  rw [Engine.of, ← hP.callGraph_congr hcalls]
  rfl

theorem Agree.targets?_withFacts {E : Engine} {a : ValueId} (ha : F.Agree F' a) (hE : E.facts? = some F) :
    (E.withFacts (some F')).targets? a = E.targets? a := by
  have hE' : (E.withFacts (some F')).facts? = some F' := rfl
  rw [Engine.targets?_eq hE, Engine.targets?_eq hE', ha]

theorem Agree.pointsTo_withFacts {E : Engine} {a : ValueId} (ha : F.Agree F' a) (hE : E.facts? = some F)
    (b : ValueId) : (E.withFacts (some F')).pointsTo a b = E.pointsTo a b := by
  have hE' : (E.withFacts (some F')).facts? = some F' := rfl
  rw [Bool.eq_iff_iff, Engine.pointsTo_iff hE, Engine.pointsTo_iff hE', ha]

end PointsTo

/-- Answers depend on no other facts than they should. If two solvers agree on the callees of the indirect calls,
then the call graphs are the same in all their parts; if they agree on a pointer as well, then every question about
it has the same answer or fault and gives the same reports. Where a set is missing and where it is empty makes no
difference to any question. -/
theorem answers_read_only_relevant_facts (P : Program) (hP : P.Built) (strict : Bool) (F F' : PointsTo) :
    ∃ E E', (Engine.build P (some F) strict).outcome = .ok E ∧
      (Engine.build P (some F') strict).outcome = .ok E' ∧
      (F.AgreeOnCalls F' P → E'.callGraph = E.callGraph ∧ ∀ a, F.Agree F' a →
        E'.isNull a = E.isNull a ∧ (∀ len, E'.isValidPointer a len = E.isValidPointer a len) ∧
        E'.hasKnownSize a = E.hasKnownSize a ∧ E'.pointerInfo a = E.pointerInfo a ∧
        ∀ b, E'.pointsTo a b = E.pointsTo a b) ∧
      (F.SameButEmpty F' → E'.callGraph = E.callGraph ∧
        ∀ q operands, E'.evaluate q operands = E.evaluate q operands) := by
  have hwf := hP.wellFormed
  refine ⟨Engine.of P (some F) strict, Engine.of P (some F') strict, Engine.outcome_build hwf _ _,
    Engine.outcome_build hwf _ _, ?_, ?_⟩
  · intro hcalls
    rw [hcalls.engine_eq hwf]
    refine ⟨rfl, fun a ha => ?_⟩
    have htargets := ha.targets?_withFacts (E := Engine.of P (some F) strict) rfl
    exact ⟨Engine.isNull_withFacts htargets, Engine.isValidPointer_withFacts htargets,
      Engine.hasKnownSize_withFacts htargets, Engine.pointerInfo_withFacts htargets, ha.pointsTo_withFacts rfl⟩
  · intro hsame
    have hcalls : F.AgreeOnCalls F' P := fun _ callee _ _ => hsame.agree callee
    rw [hcalls.engine_eq hwf]
    refine ⟨rfl, fun q operands => ?_⟩
    cases operands with
    | nil => rfl
    | cons a rest =>
      have htargets := (hsame.agree a).targets?_withFacts (E := Engine.of P (some F) strict) rfl
      exact Engine.evaluate_withFacts htargets ((hsame.agree a).pointsTo_withFacts rfl) q rest

/-- Other facts than `pollFacts`: the set of `hook` is empty and not missing, and the buffer has a target. -/
def strayFacts : PointsTo := fun a =>
  if a = 6 then some ∅ else if a = 3 then some (Std.ExtTreeSet.ofList [Target.unknown]) else pollFacts a

/-- The only call of `poll` is the one through `hook`. -/
theorem pollProgram_callee {proc : ProcId} {callee : ValueId} (h : pollProgram.HasCall proc callee) :
    callee = 6 := by
  have hvalues : pollProgram.values.toList.all (fun e =>
      (e.2.callSite?.map CallSite.callee).all (· = 6)) = true := by decide +kernel
  obtain ⟨i, v, args, hv, hkind⟩ := h
  have hmem : (i, v) ∈ pollProgram.values.toList := Std.ExtTreeMap.mem_toList_iff_getElem?_eq_some.mpr hv
  have hsite : v.callSite? = some ⟨v, callee⟩ := (v.callSite?_eq_some_iff _).mpr ⟨rfl, proc, args, hkind⟩
  simpa [hsite] using List.all_eq_true.mp hvalues (i, v) hmem

/-- The pointer into the buffer is as good with the other facts, and they do differ. -/
theorem answers_read_only_relevant_facts_poll : pollProgram.Built ∧
    pollFacts.AgreeOnCalls strayFacts pollProgram ∧ pollFacts.Agree strayFacts 5 ∧
    ¬pollFacts.Agree strayFacts 3 ∧
    ∃ E E', (Engine.build pollProgram (some pollFacts) true).outcome = .ok E ∧
      (Engine.build pollProgram (some strayFacts) true).outcome = .ok E' ∧
      E'.callGraph = E.callGraph ∧ E'.isValidPointer 5 4 = E.isValidPointer 5 4 := by
  have hP : pollProgram.Built := ⟨"poll", .standard, pollAdditions, rfl⟩
  have hcalls : pollFacts.AgreeOnCalls strayFacts pollProgram := by
    intro proc callee hcall _
    rw [pollProgram_callee hcall]
    simp [PointsTo.Agree, targetsOf, pollFacts, strayFacts]
  have hagree : pollFacts.Agree strayFacts 5 := by
    simp [PointsTo.Agree, targetsOf, strayFacts]
  have hdiffer : ¬pollFacts.Agree strayFacts 3 := by
    intro h
    have hmem : Target.unknown ∈ targetsOf (some strayFacts) 3 := by simp [targetsOf, strayFacts]
    rw [← h] at hmem
    simp [targetsOf, pollFacts] at hmem
  obtain ⟨E, E', hE, hE', hanswers, _⟩ :=
    answers_read_only_relevant_facts pollProgram hP true pollFacts strayFacts
  obtain ⟨hgraph, hpointers⟩ := hanswers hcalls
  exact ⟨hP, hcalls, hagree, hdiffer, E, E', hE, hE', hgraph, (hpointers 5 hagree).2.1 4⟩

end PointerQuery

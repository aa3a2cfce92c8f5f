import PointerQuery.Proofs.AccessValidity

/-!
The answers under more facts. A solver that is less precise finds more targets. Then there are more calls and more
recursion, and no answer about a pointer that had targets before gets more affirmative.
-/

namespace PointerQuery

open Relation (ReflTransGen TransGen)

/-- The facts `F'` have all targets that the facts `F` have. -/
def PointsTo.Extends (F' F : PointsTo) : Prop :=
  ∀ a t, t ∈ targetsOf (some F) a → t ∈ targetsOf (some F') a

/-- Two outcomes of one question: both fail in the same way, or the first verdict is no better. -/
inductive NoBetter : Except Fault Verdict → Except Fault Verdict → Prop where
  | fault (e : Fault) : NoBetter (.error e) (.error e)
  | verdict {verdict' verdict : Verdict} : verdict' ≤ verdict → NoBetter (.ok verdict') (.ok verdict)

theorem NoBetter.refl (x : Except Fault Verdict) : NoBetter x x := by
  cases x with
  | error e => exact NoBetter.fault e
  | ok verdict => exact NoBetter.verdict (Verdict.le_refl verdict)

/-- The stages that do not read the facts keep the order. -/
theorem NoBetter.accessStages {P : Program} {a len : ValueId} {f' f : Value → Word → Except Fault Verdict}
    (h : ∀ v n, NoBetter (f' v n) (f v n)) :
    NoBetter (P.accessStages a len f') (P.accessStages a len f) := by
  unfold Program.accessStages
  cases P.value a with
  | error e => exact NoBetter.fault e
  | ok v =>
    rw [ok_bind, ok_bind]
    split
    · exact NoBetter.refl _
    · cases P.value len with
      | error e => exact NoBetter.fault e
      | ok w =>
        rw [ok_bind, ok_bind]
        cases P.lengthOf? w with
        | none => exact NoBetter.refl _
        | some n =>
          change NoBetter (if n = 0 then _ else _) (if n = 0 then _ else _)
          split
          · exact NoBetter.fault _
          · exact h v n

namespace PointsTo.Extends

variable {F' F : PointsTo} (hF : F'.Extends F) {P : Program}

include hF

theorem calls_le : P.Calls (some F) ≤ P.Calls (some F') := by
  intro caller proc hcall
  obtain ⟨callee, hcallee, htarget⟩ := hcall
  refine ⟨callee, hcallee, ?_⟩
  rcases htarget with hdirect | ⟨hfun, hproc, t, ht, hsite⟩
  · exact Or.inl hdirect
  · exact Or.inr ⟨hfun, hproc, t, hF callee t ht, hsite⟩

theorem mayRecur {proc : ProcId} (h : P.MayRecur (some F) false proc) : P.MayRecur (some F') false proc := by
  rcases h with hcycle | ⟨hstrict, _⟩
  · exact Or.inl (TransGen.mono hF.calls_le proc proc hcycle)
  -- in the strict reading this would fail: with more facts fewer calls are unresolved
  · cases hstrict

theorem guarded {v : Value} {t : Target} (h : P.Guarded (some F) false v t) :
    P.Guarded (some F') false v t :=
  h.imp fun _ => hF.mayRecur

theorem isNull {a : ValueId} (h : ((Engine.of P (some F) false).isNull a).outcome = .ok .yes) :
    ((Engine.of P (some F') false).isNull a).outcome = .ok .yes := by
  rw [Engine.isNull_eq_yes_iff rfl] at h ⊢
  obtain ⟨v, hv, hptr, t, ht, hnull⟩ := h
  exact ⟨v, hv, hptr, t, hF a t ht, hnull⟩

theorem pointsTo {a b : ValueId} (h : (Engine.of P (some F) false).pointsTo a b = true) :
    (Engine.of P (some F') false).pointsTo a b = true := by
  rw [Engine.pointsTo_iff rfl] at h ⊢
  obtain ⟨t, ht, hsite⟩ := h
  exact ⟨t, hF a t ht, hsite⟩

theorem targets? {a : ValueId} (hne : ∃ t, t ∈ targetsOf (some F) a) :
    (Engine.of P (some F) false).targets? a = .ok (some (targetsOf (some F) a)) ∧
      (Engine.of P (some F') false).targets? a = .ok (some (targetsOf (some F') a)) :=
  ⟨Engine.targets?_eq_some rfl hne, Engine.targets?_eq_some rfl (hne.imp (hF a))⟩

/-- A value that has targets and under more facts only one has the same one. -/
theorem singleTarget? {a : ValueId} {t : Target} (hne : ∃ t, t ∈ targetsOf (some F) a)
    (h : (Engine.of P (some F') false).singleTarget? a = .ok (some t)) :
    (Engine.of P (some F) false).singleTarget? a = .ok (some t) := by
  obtain ⟨htargets, htargets'⟩ := hF.targets? (P := P) hne
  have honly (x : Target) (hx : x ∈ targetsOf (some F') a) : x = t := by
    rw [← Std.ExtTreeSet.mem_toList, Engine.toList_of_singleTarget? htargets' h] at hx
    exact List.mem_singleton.mp hx
  have hsame : targetsOf (some F) a = targetsOf (some F') a := by
    apply Std.ExtTreeSet.ext_mem
    intro u
    constructor
    · exact hF a u
    · intro hu
      obtain ⟨w, hw⟩ := hne
      rw [honly u hu, ← honly w (hF a w hw)]
      exact hw
  rw [Engine.singleTarget?, htargets, hsame, ← htargets']
  exact h

/-- An answer that is read off the only target, and is not the one without such a target, was there before. -/
theorem answer_of_singleTarget? {α : Type} {f : Option Target → α} {r : α} {a : ValueId}
    (hne : ∃ t, t ∈ targetsOf (some F) a) (hnone : f none ≠ r)
    (h : ((Engine.of P (some F') false).singleTarget? a >>= fun t? => .ok (f t?)) = .ok r) :
    ((Engine.of P (some F) false).singleTarget? a >>= fun t? => .ok (f t?)) = .ok r := by
  cases hsingle : (Engine.of P (some F') false).singleTarget? a with
  | error e =>
    rw [hsingle] at h
    cases h
  | ok t? =>
    rw [hsingle] at h
    cases t? with
    | none => exact absurd (Except.ok.inj h) hnone
    | some t =>
      rw [hF.singleTarget? hne hsingle]
      exact h

variable (hP : P.WellFormed)

include hP

theorem isRecursive {proc : ProcId} (h : (P.callGraph (some F) false).isRecursive proc = true) :
    (P.callGraph (some F') false).isRecursive proc = true := by
  rw [hP.isRecursive_callGraph_iff] at h ⊢
  exact hF.mayRecur h

theorem reachableFrom {p q : ProcId} (h : q ∈ (P.callGraph (some F) false).reachableFrom p) :
    q ∈ (P.callGraph (some F') false).reachableFrom p := by
  rw [CallGraph.mem_reachableFrom_iff (CallGraph.closed_callGraph P _ false), hP.edge_callGraph] at h ⊢
  exact ReflTransGen.mono hF.calls_le p q h

/-- On one target only the guard reads the facts. -/
theorem accessVerdict_le (v : Value) (n : Word) (t : Target) :
    (Engine.of P (some F') false).accessVerdict v n t ≤ (Engine.of P (some F) false).accessVerdict v n t := by
  have hguard : (Engine.of P (some F') false).guard v t = true →
      (Engine.of P (some F) false).guard v t = true := by
    rw [guard_iff_not_guarded hP, guard_iff_not_guarded hP]
    exact mt hF.guarded
  unfold Engine.accessVerdict
  split
  · exact Verdict.le_refl _
  · cases t.offset with
    | unknown => exact Verdict.le_refl _
    | known offset =>
      apply Verdict.ofBool_le_ofBool
      rw [Bool.and_eq_true, Bool.and_eq_true]
      exact And.imp_right hguard

/-- There are more targets to hit, and each is no better. -/
theorem worst_le (v : Value) (n : Word) (a : ValueId) :
    Verdict.worst ((targetsOf (some F') a).toList.map ((Engine.of P (some F') false).accessVerdict v n)) ≤
      Verdict.worst ((targetsOf (some F) a).toList.map ((Engine.of P (some F) false).accessVerdict v n)) := by
  rw [Verdict.le_worst_iff, List.forall_mem_map]
  intro t ht
  have ht' : t ∈ (targetsOf (some F') a).toList :=
    Std.ExtTreeSet.mem_toList.mpr (hF a t (Std.ExtTreeSet.mem_toList.mp ht))
  calc
    _ ≤ (Engine.of P (some F') false).accessVerdict v n t := Verdict.worst_le_of_mem (List.mem_map_of_mem ht')
    _ ≤ (Engine.of P (some F) false).accessVerdict v n t := hF.accessVerdict_le hP v n t

theorem isValidPointer (a len : ValueId) (hne : ∃ t, t ∈ targetsOf (some F) a) :
    NoBetter ((Engine.of P (some F') false).isValidPointer a len).outcome
      ((Engine.of P (some F) false).isValidPointer a len).outcome := by
  obtain ⟨htargets, htargets'⟩ := hF.targets? (P := P) hne
  rw [Engine.outcome_isValidPointer_of_targets hP len htargets,
    Engine.outcome_isValidPointer_of_targets hP len htargets']
  apply NoBetter.accessStages
  intro v n
  exact NoBetter.verdict (hF.worst_le hP v n a)

theorem hasKnownSize {a : ValueId} (hne : ∃ t, t ∈ targetsOf (some F) a)
    (h : ((Engine.of P (some F') false).hasKnownSize a).outcome = .ok .yes) :
    ((Engine.of P (some F) false).hasKnownSize a).outcome = .ok .yes := by
  rw [Engine.outcome_hasKnownSize hP] at h ⊢
  exact hF.answer_of_singleTarget? hne (by simp [Program.sizeVerdict]) h

theorem pointerInfo {a : ValueId} {i : PointerInfo} (hne : ∃ t, t ∈ targetsOf (some F) a)
    (h : ((Engine.of P (some F') false).pointerInfo a).outcome = .ok (some i)) :
    ((Engine.of P (some F) false).pointerInfo a).outcome = .ok (some i) := by
  rw [Engine.outcome_pointerInfo hP] at h ⊢
  exact hF.answer_of_singleTarget? hne (by simp [Program.infoBehind?]) h

end PointsTo.Extends

/-- More facts never make an answer more affirmative: validity and known sizes are only lost, null and shared
targets, recursion and reachable procedures only gained. -/
theorem more_facts_no_more_affirmative (P : Program) (hP : P.Built) (F F' : PointsTo) (hF : F'.Extends F) :
    ∃ E E', (Engine.build P (some F) false).outcome = .ok E ∧
      (Engine.build P (some F') false).outcome = .ok E' ∧
      (∀ a, (∃ t, t ∈ targetsOf (some F) a) →
        (∀ len, NoBetter (E'.isValidPointer a len).outcome (E.isValidPointer a len).outcome) ∧
        ((E.isNull a).outcome = .ok .yes → (E'.isNull a).outcome = .ok .yes) ∧
        ((E'.hasKnownSize a).outcome = .ok .yes → (E.hasKnownSize a).outcome = .ok .yes) ∧
        ∀ i, (E'.pointerInfo a).outcome = .ok (some i) → (E.pointerInfo a).outcome = .ok (some i)) ∧
      (∀ a b, E.pointsTo a b = true → E'.pointsTo a b = true) ∧
      (∀ p, E.callGraph.isRecursive p = true → E'.callGraph.isRecursive p = true) ∧
      ∀ p q, q ∈ E.callGraph.reachableFrom p → q ∈ E'.callGraph.reachableFrom p := by
  have hwf := hP.wellFormed
  refine ⟨Engine.of P (some F) false, Engine.of P (some F') false, Engine.outcome_build hwf _ _,
    Engine.outcome_build hwf _ _, ?_, ?_, ?_, ?_⟩
  · intro a hne
    exact ⟨fun len => hF.isValidPointer hwf a len hne, hF.isNull, hF.hasKnownSize hwf hne,
      fun i => hF.pointerInfo hwf hne⟩
  · intro a b h
    exact hF.pointsTo h
  · intro p h
    exact hF.isRecursive hwf h
  · intro p q h
    exact hF.reachableFrom hwf h

/-- `poll` has a buffer of sixteen bytes, a pointer into it, and a call through `hook`. -/
def pollAdditions : List Addition :=
  [.procedure "poll", .constInt 16 64, .alloca 1 "buf" (.int 8) 2, .constInt 10 64, .gep 1 "p" 3 4,
    .global "hook", .call 1 "r" .void 6 []]

def pollProgram : Program :=
  ((Draft.empty "poll" .standard).addAll pollAdditions).build.value

def pollFacts : PointsTo := fun a =>
  if a = 5 then some (Std.ExtTreeSet.ofList [Target.atSite 3 (.known 4) none none]) else none

/-- In addition, `hook` holds the address of `poll`. -/
def hookFacts : PointsTo := fun a =>
  if a = 6 then some (Std.ExtTreeSet.ofList [Target.atSite 1 (.known 0) none none]) else pollFacts a

/-- With the call through `hook` resolved, `poll` may have two frames and its buffer is not safe any more. -/
theorem more_facts_no_more_affirmative_poll : pollProgram.Built ∧ hookFacts.Extends pollFacts ∧
    ∃ E E', (Engine.build pollProgram (some pollFacts) false).outcome = .ok E ∧
      (Engine.build pollProgram (some hookFacts) false).outcome = .ok E' ∧
      NoBetter (E'.isValidPointer 5 4).outcome (E.isValidPointer 5 4).outcome ∧
      (E.isValidPointer 5 4).outcome = .ok .yes ∧ (E'.isValidPointer 5 4).outcome = .ok .no := by
  have hP : pollProgram.Built := ⟨"poll", .standard, pollAdditions, rfl⟩
  have hF : hookFacts.Extends pollFacts := by
    intro a t ht
    by_cases ha : a = 6
    · simp [targetsOf, pollFacts, ha] at ht
    · simpa [targetsOf, hookFacts, ha] using ht
  have hne : ∃ t, t ∈ targetsOf (some pollFacts) 5 :=
    ⟨Target.atSite 3 (.known 4) none none, by simp [targetsOf, pollFacts]⟩
  obtain ⟨E, E', hE, hE', hpointers, _⟩ :=
    more_facts_no_more_affirmative pollProgram hP pollFacts hookFacts hF
  have hyes : ((Engine.build pollProgram (some pollFacts) false).outcome >>= fun E =>
      (E.isValidPointer 5 4).outcome) = .ok .yes := by decide +kernel
  have hno : ((Engine.build pollProgram (some hookFacts) false).outcome >>= fun E =>
      (E.isValidPointer 5 4).outcome) = .ok .no := by decide +kernel
  rw [hE] at hyes
  rw [hE'] at hno
  exact ⟨hP, hF, E, E', hE, hE', (hpointers 5 hne).1 4, hyes, hno⟩

end PointerQuery

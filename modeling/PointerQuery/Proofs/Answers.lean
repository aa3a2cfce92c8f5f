import PointerQuery.Engine
import PointerQuery.Proofs.CallRelation

namespace PointerQuery

instance decidableEqOutcome {α : Type} [DecidableEq α] : DecidableEq (Except Fault α)
  | .ok a, .ok b => decidable_of_iff (a = b) ⟨congrArg Except.ok, Except.ok.inj⟩
  | .error e, .error f => decidable_of_iff (e = f) ⟨congrArg Except.error, Except.error.inj⟩
  | .ok _, .error _ | .error _, .ok _ => isFalse nofun

theorem ok_bind {α β : Type} (a : α) (f : α → Except Fault β) : ((.ok a : Except Fault α) >>= f) = f a :=
  rfl

namespace Verdict

theorem le_refl (a : Verdict) : a ≤ a :=
  Nat.le_refl a.rank

theorem le_trans {a b c : Verdict} (hab : a ≤ b) (hbc : b ≤ c) : a ≤ c :=
  Nat.le_trans hab hbc

instance : @Trans Verdict Verdict Verdict LE.le LE.le LE.le :=
  ⟨le_trans⟩

theorem le_yes (a : Verdict) : a ≤ yes := by
  cases a <;> decide

theorem yes_le_iff {a : Verdict} : yes ≤ a ↔ a = yes := by
  cases a <;> decide

theorem unknown_le_iff {a : Verdict} : unknown ≤ a ↔ a ≠ no := by
  cases a <;> decide

theorem ofBool_eq_yes_iff {b : Bool} : ofBool b = yes ↔ b = true := by
  cases b <;> decide

theorem ofBool_ne_unknown (b : Bool) : ofBool b ≠ unknown := by
  cases b <;> decide

theorem ofBool_le_ofBool {a b : Bool} (h : a = true → b = true) : ofBool a ≤ ofBool b := by
  cases a with
  | false => exact Nat.zero_le _
  | true =>
    rw [h rfl]
    exact le_refl _

theorem le_meet_iff {a b c : Verdict} : a ≤ b.meet c ↔ a ≤ b ∧ a ≤ c := by
  cases a <;> cases b <;> cases c <;> decide

theorem no_meet (a : Verdict) : no.meet a = no := by
  cases a <;> rfl

/-- The worst of several verdicts. Of none it is yes. -/
def worst (vs : List Verdict) : Verdict :=
  vs.foldr meet yes

/-- The worst verdict is the greatest of those that are below all. -/
theorem le_worst_iff {a : Verdict} {vs : List Verdict} : a ≤ worst vs ↔ ∀ b ∈ vs, a ≤ b := by
  induction vs with
  | nil => simp [worst, le_yes]
  | cons b vs ih =>
    rw [List.forall_mem_cons, ← ih]
    exact le_meet_iff

theorem worst_le_of_mem {vs : List Verdict} {a : Verdict} (h : a ∈ vs) : worst vs ≤ a :=
  le_worst_iff.mp (le_refl (worst vs)) a h

theorem worst_eq_no_iff {vs : List Verdict} : worst vs = no ↔ no ∈ vs := by
  have hne : ¬worst vs = no ↔ ¬no ∈ vs := by
    rw [← ne_eq, ← unknown_le_iff, le_worst_iff]
    simp only [unknown_le_iff]
    exact ⟨fun h hmem => h no hmem rfl, fun h b hb hno => h (hno ▸ hb)⟩
  exact Decidable.not_iff_not.mp hne

theorem worst_eq_yes_iff {vs : List Verdict} : worst vs = yes ↔ ∀ b ∈ vs, b = yes := by
  rw [← yes_le_iff, le_worst_iff]
  simp only [yes_le_iff]

end Verdict

namespace Program

theorem value_eq_ok {P : Program} {id : ValueId} {v : Value} (h : P.value? id = some v) :
    P.value id = .ok v := by
  simp only [value, h]

theorem value?_eq_some {P : Program} {id : ValueId} {v : Value} (h : P.value id = .ok v) :
    P.value? id = some v := by
  cases hv : P.value? id <;> simp_all [value]

theorem value_eq_error {P : Program} {id : ValueId} (h : P.value? id = none) :
    P.value id = .error (.unknownValue id P.name) := by
  simp only [value, h]

/-- The allocation of a constant number of elements that a value makes. -/
def constAlloca? (P : Program) (site : ValueId) : Option Allocation :=
  match (P.value? site).bind Value.op? with
  | some (.alloca elem count) => ((P.value? count).bind Value.const?).map fun c => ⟨elem, c⟩
  | _ => none

/-- The size of the memory behind a target. -/
def sizeBehind? (P : Program) (t : Target) : Option Word :=
  t.size?.or (t.site?.bind fun site => (P.constAlloca? site).bind (Allocation.size? P.layout))

theorem constAlloca?_eq_some_iff (P : Program) (site : ValueId) (a : Allocation) :
    P.constAlloca? site = some a ↔ ∃ v count w, P.value? site = some v ∧
      v.op? = some (.alloca a.elem count) ∧ P.value? count = some w ∧ w.const? = some a.count := by
  obtain ⟨elem, c⟩ := a
  unfold constAlloca?
  split
  · rename_i elem' count hop
    obtain ⟨v, hv, hop⟩ := Option.bind_eq_some_iff.mp hop
    simp only [hv, Option.map_eq_some_iff, Option.bind_eq_some_iff, Option.some.injEq,
      Allocation.mk.injEq]
    constructor
    · intro h
      obtain ⟨c', ⟨w, hw, hc⟩, rfl, rfl⟩ := h
      exact ⟨v, count, w, rfl, hop, hw, hc⟩
    · intro h
      obtain ⟨v', count', w, rfl, hop', hw, hc⟩ := h
      rw [hop] at hop'
      cases hop'
      exact ⟨c, ⟨w, hw, hc⟩, rfl, rfl⟩
  · rename_i hno
    constructor
    · exact fun h => nomatch h
    · intro h
      obtain ⟨v, count, w, hv, hop, _⟩ := h
      exact absurd (Option.bind_eq_some_iff.mpr ⟨v, hv, hop⟩) (hno elem count)

variable {P : Program} (hP : P.WellFormed)

include hP

theorem WellFormed.allocation?_eq (site : ValueId) : P.allocation? site = .ok (P.constAlloca? site) := by
  cases hop : (P.value? site).bind Value.op? with
  | none => simp only [allocation?, constAlloca?, hop]
  | some op =>
    cases op with
    | alloca elem count =>
      obtain ⟨v, hv, hv'⟩ := Option.bind_eq_some_iff.mp hop
      obtain ⟨w, hw⟩ := hP.operand_known site v _ hv hv' count List.mem_cons_self
      simp only [allocation?, constAlloca?, hop, value_eq_ok hw, hw]
      rfl
    | _ => simp only [allocation?, constAlloca?, hop]

theorem WellFormed.outcome_allocaSize (site : ValueId) :
    (P.allocaSize site).outcome = .ok ((P.constAlloca? site).bind (Allocation.size? P.layout)) := by
  simp only [allocaSize, Checked.outcome_bind, Checked.outcome_ofExcept, hP.allocation?_eq]
  cases ha : P.constAlloca? site with
  | none => rfl
  | some a =>
    obtain ⟨v, _, _, hv, _⟩ := (P.constAlloca?_eq_some_iff site a).mp ha
    change Checked.outcome (Checked.ofExcept (P.value site) >>= _) = _
    rw [Checked.outcome_bind, Checked.outcome_ofExcept, value_eq_ok hv]
    change Checked.outcome _ = _
    split <;> rfl

theorem WellFormed.outcome_targetSize (t : Target) : (P.targetSize t).outcome = .ok (P.sizeBehind? t) := by
  unfold targetSize sizeBehind?
  cases hsize : t.size? with
  | some size => rfl
  | none =>
    cases hsite : t.site? with
    | some site => exact hP.outcome_allocaSize site
    | none => rfl

end Program

/-- The length that a value gives to an access. -/
def Program.lengthOf? (P : Program) (w : Value) : Option Word :=
  w.const?.bind fun c => if c.saturated < P.layout.nativeMax then some c.saturated else none

/-- The stages of the question for validity that do not read the facts. An access of a length above zero through
a pointer is left to `onAccess`. -/
def Program.accessStages (P : Program) (a len : ValueId) (onAccess : Value → Word → Except Fault Verdict) :
    Except Fault Verdict := do
  let v ← P.value a
  if !v.isPointer then .ok .no
  else
    match P.lengthOf? (← P.value len) with
    | none => .ok .unknown
    | some n => if n = 0 then .error (.emptyAccess v.render) else onAccess v n

theorem Program.accessStages_eq {P : Program} {a len : ValueId} {v w : Value} {n : Word}
    (onAccess : Value → Word → Except Fault Verdict) (hv : P.value? a = some v) (hptr : v.isPointer = true)
    (hw : P.value? len = some w) (hlen : P.lengthOf? w = some n) (hn : n ≠ 0) :
    P.accessStages a len onAccess = onAccess v n := by
  simp [accessStages, value_eq_ok hv, value_eq_ok hw, hptr, hlen, hn, bind, Except.bind]

/-- The stages end before the access, in the same way for all that could be done there and never with yes, or they
come to an access of a length above zero through a pointer. -/
theorem Program.accessStages_cases (P : Program) (a len : ValueId) :
    (∃ r, r ≠ .ok .yes ∧ ∀ onAccess, P.accessStages a len onAccess = r) ∨
      ∃ v w n, P.value? a = some v ∧ v.isPointer = true ∧ P.value? len = some w ∧
        P.lengthOf? w = some n ∧ n ≠ 0 ∧ ∀ onAccess, P.accessStages a len onAccess = onAccess v n := by
  cases hv : P.value? a with
  | none =>
    refine Or.inl ⟨.error (.unknownValue a P.name), nofun, fun onAccess => ?_⟩
    rw [accessStages, value_eq_error hv]
    rfl
  | some v =>
    cases hptr : v.isPointer with
    | false =>
      refine Or.inl ⟨.ok .no, by decide, fun onAccess => ?_⟩
      simp [accessStages, value_eq_ok hv, ok_bind, hptr]
    | true =>
      cases hw : P.value? len with
      | none =>
        refine Or.inl ⟨.error (.unknownValue len P.name), nofun, fun onAccess => ?_⟩
        simp only [accessStages, value_eq_ok hv, value_eq_error hw, ok_bind, hptr]
        rfl
      | some w =>
        cases hlen : P.lengthOf? w with
        | none =>
          refine Or.inl ⟨.ok .unknown, by decide, fun onAccess => ?_⟩
          simp [accessStages, value_eq_ok hv, value_eq_ok hw, ok_bind, hptr, hlen]
        | some n =>
          by_cases hn : n = 0
          · refine Or.inl ⟨.error (.emptyAccess v.render), nofun, fun onAccess => ?_⟩
            simp [accessStages, value_eq_ok hv, value_eq_ok hw, ok_bind, hptr, hlen, hn]
          · exact Or.inr ⟨v, w, n, rfl, hptr, rfl, hlen, hn, fun onAccess =>
              accessStages_eq onAccess hv hptr hw hlen hn⟩

/-- Whether a value allocates a constant number of elements in the procedure in which `a` is an instruction. -/
def Program.isLocal (P : Program) (a site : ValueId) : Bool :=
  (P.constAlloca? site).isSome && match P.definingProc? a, P.definingProc? site with
    | some p, some q => p == q
    | _, _ => false

/-- Whether the size of the memory behind the pointer `a` with the given only target is known. -/
def Program.sizeVerdict (P : Program) (a : ValueId) : Option Target → Verdict
  | none => .unknown
  | some t =>
    match t.site? with
    | none => .no
    | some site => .ofBool (P.isLocal a site)

/-- The allocation behind the pointer `a` with the given only target, and its size. -/
def Program.infoBehind? (P : Program) (a : ValueId) (t? : Option Target) : Option PointerInfo :=
  (t?.bind Target.site?).bind fun site =>
    if P.isLocal a site then
      ((P.constAlloca? site).bind (Allocation.size? P.layout)).map fun size => ⟨site, size⟩
    else none

namespace Engine

/-- The engine of a program in which no look-up fails. -/
def of (P : Program) (facts? : Option PointsTo) (strict : Bool) : Engine :=
  ⟨P, facts?, P.callGraph facts? strict⟩

theorem outcome_build {P : Program} (hP : P.WellFormed) (facts? : Option PointsTo) (strict : Bool) :
    (build P facts? strict).outcome = .ok (of P facts? strict) := by
  have hgraph := hP.outcome_buildCallGraph facts? strict
  unfold build
  split <;> simp only [Checked.outcome_bind, Checked.outcome_report, hgraph] <;> rfl

/-- Memory in the frame of a procedure may only be used there, and only if that procedure has no second
frame. Other memory may be used everywhere, and what is in no procedure may use all memory. -/
def guard (E : Engine) (v : Value) (t : Target) : Bool :=
  match v.enclosingProc?, E.owner? t with
  | some user, some owner => owner == user && !E.callGraph.isRecursive user
  | _, _ => true

/-- The verdict on an access that hits a target. -/
def accessVerdict (E : Engine) (v : Value) (len : Word) (t : Target) : Verdict :=
  if t.isNull || t.isUnknown || t.isInvalidated then .no
  else
    match t.offset with
    | .unknown => .unknown
    | .known offset => .ofBool ((E.program.sizeBehind? t).any (inBounds offset len) && E.guard v t)

variable {E : Engine}

theorem outcome_accessLength (len : ValueId) :
    (E.accessLength len).outcome = E.program.value len >>= fun w => .ok (E.program.lengthOf? w) := by
  rw [accessLength, Checked.outcome_bind, Checked.outcome_ofExcept]
  cases E.program.value len with
  | error e => rfl
  | ok w =>
    change Checked.outcome _ = .ok (E.program.lengthOf? w)
    unfold Program.lengthOf?
    cases w.const? with
    | none => rfl
    | some c =>
      simp only [Option.bind_some]
      split <;> rfl

theorem targets?_eq {facts : PointsTo} (hfacts : E.facts? = some facts) (a : ValueId) :
    E.targets? a = .ok (if (targetsOf (some facts) a).isEmpty then none else some (targetsOf (some facts) a)) := by
  cases hset : facts a with
  | none => simp [targets?, targetsOf, hfacts, hset]
  | some set =>
    simp only [targets?, targetsOf, hfacts, hset, Option.bind_some, Option.getD_some, Option.filter_some]
    cases set.isEmpty <;> rfl

/-- Something is known about a value with targets. -/
theorem targets?_eq_some {facts : PointsTo} {a : ValueId} (hfacts : E.facts? = some facts)
    (hne : ∃ t, t ∈ targetsOf (some facts) a) : E.targets? a = .ok (some (targetsOf (some facts) a)) := by
  have hnonempty : (targetsOf (some facts) a).isEmpty = false := by
    rw [Std.ExtTreeSet.isEmpty_eq_false_iff, Std.ExtTreeSet.eq_empty_iff_forall_not_mem]
    intro hempty
    obtain ⟨t, ht⟩ := hne
    exact hempty t ht
  rw [targets?_eq hfacts, hnonempty]
  rfl

theorem targets?_eq_none {facts : PointsTo} {a : ValueId} (hfacts : E.facts? = some facts)
    (hnone : ∀ t, t ∉ targetsOf (some facts) a) : E.targets? a = .ok none := by
  rw [targets?_eq hfacts, Std.ExtTreeSet.eq_empty_iff_forall_not_mem.mpr hnone]
  rfl

theorem toList_of_singleTarget? {a : ValueId} {set : TargetSet} {t : Target}
    (hset : E.targets? a = .ok (some set)) (h : E.singleTarget? a = .ok (some t)) : set.toList = [t] := by
  rw [singleTarget?, hset, ok_bind] at h
  split at h
  · rename_i u hu
    cases h
    exact Option.some.inj hu
  · cases h

theorem outcome_isNull (a : ValueId) :
    (E.isNull a).outcome = E.program.value a >>= fun v =>
      if !v.isPointer then .ok .no
      else E.targets? a >>= fun set? => .ok (set?.elim .unknown fun set =>
        .ofBool (set.toList.any fun t => t.isNull || t.isUnknown)) := by
  rw [isNull, Checked.outcome_bind, Checked.outcome_ofExcept]
  cases E.program.value a with
  | error e => rfl
  | ok v =>
    change Checked.outcome (if (!v.isPointer) = true then _ else _) =
      if (!v.isPointer) = true then _ else _
    split
    · rfl
    · rw [Checked.outcome_bind, Checked.outcome_ofExcept]
      cases E.targets? a with
      | error e => rfl
      | ok set? => cases set? <;> rfl

theorem isNull_eq_yes_iff {facts : PointsTo} (hfacts : E.facts? = some facts) (a : ValueId) :
    (E.isNull a).outcome = .ok .yes ↔ ∃ v, E.program.value a = .ok v ∧ v.isPointer = true ∧
      ∃ t ∈ targetsOf (some facts) a, t.isNull = true ∨ t.isUnknown = true := by
  rw [outcome_isNull, targets?_eq hfacts]
  cases E.program.value a with
  | error e => simp [bind, Except.bind]
  | ok v =>
    cases hempty : (targetsOf (some facts) a).isEmpty with
    | true =>
      have hnone := Std.ExtTreeSet.eq_empty_iff_forall_not_mem.mp (Std.ExtTreeSet.isEmpty_iff.mp hempty)
      cases hptr : v.isPointer <;> simp [bind, Except.bind, hptr, hnone]
    | false =>
      cases hptr : v.isPointer <;> simp [bind, Except.bind, hptr, Verdict.ofBool_eq_yes_iff]

theorem pointsTo_iff {facts : PointsTo} (hfacts : E.facts? = some facts) (a b : ValueId) :
    E.pointsTo a b = true ↔ ∃ t ∈ targetsOf (some facts) a, t.site? = some b := by
  cases hset : facts a <;> simp [pointsTo, targetsOf, hfacts, hset]

variable (hP : E.program.WellFormed)

include hP

theorem outcome_checkAccess (v : Value) (len : Word) (t : Target) :
    (E.checkAccess v len t).outcome = .ok (E.accessVerdict v len t) := by
  unfold checkAccess accessVerdict
  split
  · rfl
  · cases hoffset : t.offset with
    | unknown => rfl
    | known offset =>
      simp only [Checked.outcome_bind, hP.outcome_targetSize]
      cases hsize : E.program.sizeBehind? t with
      | none => rfl
      | some size =>
        change Checked.outcome (if (!inBounds offset len size) = true then _ else _) =
          .ok (Verdict.ofBool (inBounds offset len size && E.guard v t))
        cases inBounds offset len size with
        | false => rfl
        | true =>
          unfold guard
          cases v.enclosingProc? with
          | none => rfl
          | some user => cases E.owner? t <;> rfl

/-- Stopping at the first target whose verdict is no does not change the worst verdict. -/
theorem outcome_checkAll (v : Value) (len : Word) (ts : List Target) :
    (E.checkAll v len ts).outcome = .ok (Verdict.worst (ts.map (E.accessVerdict v len))) := by
  induction ts with
  | nil => rfl
  | cons t ts ih =>
    rw [checkAll, Checked.outcome_bind, outcome_checkAccess hP]
    change Checked.outcome (if E.accessVerdict v len t = .no then _ else _) =
      .ok ((E.accessVerdict v len t).meet (Verdict.worst (ts.map (E.accessVerdict v len))))
    split
    · rename_i hno
      rw [hno, Verdict.no_meet]
      rfl
    · rw [Checked.outcome_bind, ih]
      rfl

theorem outcome_isValidPointer (a len : ValueId) :
    (E.isValidPointer a len).outcome = E.program.accessStages a len fun v n =>
      E.targets? a >>= fun set? => .ok (set?.elim .unknown fun set =>
        Verdict.worst (set.toList.map (E.accessVerdict v n))) := by
  rw [isValidPointer, Program.accessStages, Checked.outcome_bind, Checked.outcome_ofExcept]
  cases E.program.value a with
  | error e => rfl
  | ok v =>
    change Checked.outcome (if (!v.isPointer) = true then _ else _) =
      if (!v.isPointer) = true then _ else _
    split
    · rfl
    · rw [Checked.outcome_bind, outcome_accessLength]
      cases E.program.value len with
      | error e => rfl
      | ok w =>
        change (Except.ok (E.program.lengthOf? w) >>= fun n => Checked.outcome _) =
          match E.program.lengthOf? w with
          | none => _
          | some n => _
        cases E.program.lengthOf? w with
        | none => rfl
        | some n =>
          change Checked.outcome (if n = 0 then _ else _) = if n = 0 then _ else _
          split
          · rfl
          · rw [Checked.outcome_bind, Checked.outcome_ofExcept]
            cases E.targets? a with
            | error e => rfl
            | ok set? =>
              cases set? with
              | none => rfl
              | some set => exact outcome_checkAll hP v n set.toList

/-- The answer on a pointer with targets is the worst verdict on them. -/
theorem outcome_isValidPointer_of_targets {a : ValueId} (len : ValueId) {set : TargetSet}
    (hset : E.targets? a = .ok (some set)) :
    (E.isValidPointer a len).outcome = E.program.accessStages a len fun v n =>
      .ok (Verdict.worst (set.toList.map (E.accessVerdict v n))) := by
  rw [outcome_isValidPointer hP, hset]
  rfl

theorem isLocalAllocation_eq (a site : ValueId) :
    E.isLocalAllocation a site = .ok (E.program.isLocal a site) := by
  unfold isLocalAllocation Program.isLocal
  rw [hP.allocation?_eq]
  cases E.program.constAlloca? site with
  | none => rfl
  | some allocation =>
    cases E.program.definingProc? a with
    | none => rfl
    | some p => cases E.program.definingProc? site <;> rfl

/-- Whether the size is known depends on the facts through the only target alone. -/
theorem outcome_hasKnownSize (a : ValueId) :
    (E.hasKnownSize a).outcome = E.singleTarget? a >>= fun t? => .ok (E.program.sizeVerdict a t?) := by
  rw [hasKnownSize, Checked.outcome_bind, Checked.outcome_ofExcept]
  cases E.singleTarget? a with
  | error e => rfl
  | ok t? =>
    cases t? with
    | none => rfl
    | some t =>
      change Checked.outcome (match t.site? with
        | none => _
        | some site => _) = .ok (match t.site? with
        | none => _
        | some site => _)
      cases t.site? with
      | none => rfl
      | some site =>
        change Checked.outcome (Checked.ofExcept (E.isLocalAllocation a site) >>= _) = _
        rw [isLocalAllocation_eq hP]
        rfl

theorem outcome_pointerInfo (a : ValueId) :
    (E.pointerInfo a).outcome = E.singleTarget? a >>= fun t? => .ok (E.program.infoBehind? a t?) := by
  rw [pointerInfo, Checked.outcome_bind, Checked.outcome_ofExcept]
  cases E.singleTarget? a with
  | error e => rfl
  | ok t? =>
    change Checked.outcome (match t?.bind Target.site? with
      | none => _
      | some site => _) = .ok (E.program.infoBehind? a t?)
    unfold Program.infoBehind?
    cases t?.bind Target.site? with
    | none => rfl
    | some site =>
      change Checked.outcome (Checked.ofExcept (E.isLocalAllocation a site) >>= _) =
        .ok (if E.program.isLocal a site = true then _ else none)
      rw [isLocalAllocation_eq hP]
      change Checked.outcome (if E.program.isLocal a site = true then _ else _) = _
      split
      · rw [Checked.outcome_bind, hP.outcome_allocaSize]
        rfl
      · rfl

end Engine

end PointerQuery

import PointerQuery.Proofs.FactOrder
import PointerQuery.Proofs.QueryFaults
import PointerQuery.Proofs.SettingsValidity

namespace PointerQuery

open Relation (TransGen)

/-- An access to `n` bytes at the target is in bounds at a known offset, in the frame of a procedure that has an
unresolved call but is on no cycle of calls. -/
structure Program.InOpenFrame (P : Program) (facts? : Option PointsTo) (user : ProcId) (n : Nat) (t : Target) :
    Prop where
  unresolved : P.HasUnresolvedCall facts? user
  acyclic : ¬TransGen (P.Calls facts?) user user
  within : ∃ offset size, t.offset = .known offset ∧ P.HasSize t size ∧ offset.toNat + n ≤ size
  owned : P.OwnedBy t user

/-- An access of constant length through the pointer may hit such a frame of the procedure that uses the pointer. -/
def Program.AtStake (P : Program) (facts? : Option PointsTo) (a len : ValueId) : Prop :=
  ∃ v w c user t, P.value? a = some v ∧ v.isPointer = true ∧ v.enclosingProc? = some user ∧
    P.value? len = some w ∧ w.kind = .const c ∧ 0 < c.value ∧ c.value < P.layout.nativeMax.toNat ∧
    t ∈ targetsOf facts? a ∧ P.InOpenFrame facts? user c.value t

/-- Only the answer on validity reads the call graph. -/
theorem Engine.evaluate_callGraph (P : Program) (facts? : Option PointsTo) (cg cg' : CallGraph) {q : Query}
    (hq : q ≠ .isValidPointer) (operands : List ValueId) :
    (Engine.mk P facts? cg').evaluate q operands = (Engine.mk P facts? cg).evaluate q operands := by
  cases q with
  | isValidPointer => exact absurd rfl hq
  | isNull | hasKnownSize | pointsTo | getPointerInfo => rfl

/-- This holds of operands that are not in the program as well. -/
theorem Engine.answers_callGraph (P : Program) (facts? : Option PointsTo) (cg cg' : CallGraph) (a : ValueId) :
    (Engine.mk P facts? cg').isNull a = (Engine.mk P facts? cg).isNull a ∧
      (Engine.mk P facts? cg').hasKnownSize a = (Engine.mk P facts? cg).hasKnownSize a ∧
      (Engine.mk P facts? cg').pointerInfo a = (Engine.mk P facts? cg).pointerInfo a ∧
      ∀ b, (Engine.mk P facts? cg').pointsTo a b = (Engine.mk P facts? cg).pointsTo a b :=
  ⟨rfl, rfl, rfl, fun _ => rfl⟩

section Target

variable {P : Program} {facts? : Option PointsTo} {v : Value} {t : Target}

theorem Program.Guarded.strict (h : P.Guarded facts? false v t) : P.Guarded facts? true v t := by
  apply h.imp
  rintro p (hcycle | ⟨hstrict, _⟩)
  · exact Or.inl hcycle
  · cases hstrict

theorem Program.Safe.of_strict {n : Nat} (h : P.Safe facts? true v n t) : P.Safe facts? false v n t :=
  ⟨h.not_null, h.not_unknown, h.not_invalidated, h.within, fun hguard => h.not_guarded hguard.strict⟩

/-- A target is bad in the strict reading alone only by the guard, which then is about the frame of the user. -/
theorem frame_of_bad_strict {n : Word} (hstrict : P.Bad facts? true v n.toNat t)
    (hloose : ¬P.Bad facts? false v n.toNat t) :
    ∃ user, v.enclosingProc? = some user ∧ P.InOpenFrame facts? user n.toNat t := by
  have hsafe : P.Safe facts? false v n.toNat t := by
    rcases bad_or_safe_or_open P facts? false v n t with hbad | hsafe | hopen
    · exact absurd hbad hloose
    · exact hsafe
    · exact absurd hopen hstrict.not_open
  have hguard : P.Guarded facts? true v t := by
    apply Classical.byContradiction
    intro hfree
    exact hstrict.not_safe ⟨hsafe.not_null, hsafe.not_unknown, hsafe.not_invalidated, hsafe.within, hfree⟩
  obtain ⟨user, owner, huser, howner, hreason⟩ := hguard
  have hsame : owner = user := by
    apply Classical.byContradiction
    intro hne
    exact hsafe.not_guarded ⟨user, owner, huser, howner, Or.inl hne⟩
  have hcycle : ¬TransGen (P.Calls facts?) user user := by
    intro hcyc
    exact hsafe.not_guarded ⟨user, owner, huser, howner, Or.inr (Or.inl hcyc)⟩
  have hunresolved : P.HasUnresolvedCall facts? user := by
    rcases hreason with hne | hcyc | ⟨_, hcall⟩
    · exact absurd hsame hne
    · exact absurd hcyc hcycle
    · exact hcall
  exact ⟨user, huser, hunresolved, hcycle, hsafe.within, hsame ▸ howner⟩

theorem Program.InOpenFrame.bad_strict {user : ProcId} {n : Nat} (h : P.InOpenFrame facts? user n t)
    (huser : v.enclosingProc? = some user) : P.Bad facts? true v n t := by
  obtain ⟨offset, _, hoffset, _, _⟩ := h.within
  exact .guarded offset hoffset ⟨user, user, huser, h.owned, Or.inr (Or.inr ⟨rfl, h.unresolved⟩)⟩

variable (hP : P.WellFormed)

include hP

/-- Where a target is not bad in the strict reading, both readings give the same verdict. -/
theorem accessVerdict_strict_eq {n : Word} (h : ¬P.Bad facts? true v n.toNat t) :
    (Engine.of P facts? true).accessVerdict v n t = (Engine.of P facts? false).accessVerdict v n t := by
  rcases bad_or_safe_or_open P facts? true v n t with hbad | hsafe | hopen
  · exact absurd hbad h
  · rw [(accessVerdict_eq_yes_iff hP).mpr hsafe, (accessVerdict_eq_yes_iff hP).mpr hsafe.of_strict]
  · rw [accessVerdict_eq_unknown_iff.mpr hopen, accessVerdict_eq_unknown_iff.mpr hopen]

/-- If the worst verdicts differ, the strict one is no and comes from a target that is bad in that reading alone. -/
theorem worst_differs {n : Word} {set : TargetSet}
    (h : Verdict.worst (set.toList.map ((Engine.of P facts? true).accessVerdict v n)) ≠
      Verdict.worst (set.toList.map ((Engine.of P facts? false).accessVerdict v n))) :
    Verdict.worst (set.toList.map ((Engine.of P facts? true).accessVerdict v n)) = .no ∧
      Verdict.worst (set.toList.map ((Engine.of P facts? false).accessVerdict v n)) ≠ .no ∧
      ∃ t ∈ set, P.Bad facts? true v n.toNat t ∧ ¬P.Bad facts? false v n.toNat t := by
  have hbad : ∃ t ∈ set, P.Bad facts? true v n.toNat t := by
    apply Classical.byContradiction
    intro hnone
    apply h
    congr 1
    apply List.map_congr_left
    intro t ht
    exact accessVerdict_strict_eq hP fun hbad => hnone ⟨t, Std.ExtTreeSet.mem_toList.mp ht, hbad⟩
  have hno := (worst_eq_no_iff_bad hP).mpr hbad
  have hloose : Verdict.worst (set.toList.map ((Engine.of P facts? false).accessVerdict v n)) ≠ .no := by
    intro hloose
    exact h (hno.trans hloose.symm)
  obtain ⟨t, ht, hbad⟩ := hbad
  exact ⟨hno, hloose, t, ht, hbad, fun hb => hloose ((worst_eq_no_iff_bad hP).mpr ⟨t, ht, hb⟩)⟩

end Target

section Pointer

variable {P : Program} (hP : P.WellFormed) {facts? : Option PointsTo} {a len : ValueId}

include hP

/-- If the answers differ, the strict one is no, the other one is not, and the access is at stake. -/
theorem isValidPointer_differs
    (h : ((Engine.of P facts? true).isValidPointer a len).outcome ≠
      ((Engine.of P facts? false).isValidPointer a len).outcome) :
    ((Engine.of P facts? true).isValidPointer a len).outcome = .ok .no ∧
      (((Engine.of P facts? false).isValidPointer a len).outcome = .ok .yes ∨
        ((Engine.of P facts? false).isValidPointer a len).outcome = .ok .unknown) ∧
      P.AtStake facts? a len := by
  rcases isValidPointer_cases hP facts? a len with
    ⟨r, _, hearly⟩ | ⟨v, w, c, n, hv, hptr, hw, hc, hpos, hmax, hn, _, hanswer⟩
  · exact absurd ((hearly true).trans (hearly false).symm) h
  · rw [hanswer, hanswer] at h
    obtain ⟨hno, hloose, t, ht, hbad, hfine⟩ := worst_differs hP fun heq => h (congrArg Except.ok heq)
    obtain ⟨user, huser, hframe⟩ := frame_of_bad_strict hbad hfine
    rw [← hn] at hframe
    refine ⟨(hanswer true).trans (congrArg Except.ok hno), ?_,
      v, w, c, user, t, hv, hptr, huser, hw, hc, hpos, hmax, ht, hframe⟩
    rw [hanswer]
    cases hverdict : Verdict.worst ((targetsOf facts? a).toList.map
        ((Engine.of P facts? false).accessVerdict v n)) with
    | no => exact absurd hverdict hloose
    | unknown => exact Or.inr rfl
    | yes => exact Or.inl rfl

theorem Program.AtStake.isValidPointer_strict (h : P.AtStake facts? a len) :
    ((Engine.of P facts? true).isValidPointer a len).outcome = .ok .no := by
  obtain ⟨v, w, c, user, t, hv, hptr, huser, hw, hc, hpos, hmax, ht, hframe⟩ := h
  cases facts? with
  | none => exact absurd ht Std.ExtTreeSet.not_mem_empty
  | some facts => exact isValidPointer_eq_no hP hv hptr hw hc hpos hmax ⟨t, ht, hframe.bad_strict huser⟩

end Pointer

/-- A truth value that the setting is set to is the reading that the engine is loaded with. -/
theorem Settings.isStrict_set (st : Settings) {text : String} {b : Bool}
    (h : Text.Padded (Text.boolText b).toList text.toList) :
    (st.set Setting.strictRecursion.key text).value.2.isStrict = b := by
  rcases st.set_cases Setting.strictRecursion.key text with ⟨s, hs, _, hset⟩ | ⟨hinvalid, _⟩
  · obtain rfl := Setting.key_injective hs
    rw [hset]
    change (Text.bool? text).getD false = b
    rw [Text.bool?_eq_some_iff.mpr h, Option.getD_some]
  · exact absurd ⟨b, h⟩ (hinvalid .strictRecursion rfl)

theorem CallGraph.isReachable_congr {cg cg' : CallGraph} (h : cg'.graph = cg.graph) (p q : ProcId) :
    cg'.isReachable p q = cg.isReachable p q := by
  rw [isReachable, h, isReachable]

theorem CallGraph.reachableFrom_congr {cg cg' : CallGraph} (h : cg'.graph = cg.graph) (p : ProcId) :
    cg'.reachableFrom p = cg.reachableFrom p := by
  rw [reachableFrom, h, reachableFrom]

/-- The strict reading of recursion only turns answers on validity into no, and only where frames are at stake. The
engine is the one that the setting asks for; with both readings it has the same call graph up to recursion and answers
every other question in the same way. The answers on an access differ exactly if it is at stake and is not refused
without the strict reading, and then the strict answer is no. -/
theorem strict_reading_only_refuses (P : Program) (hP : P.Built) (facts? : Option PointsTo) :
    ∃ E E', (Engine.build P facts? false).outcome = .ok E ∧ (Engine.build P facts? true).outcome = .ok E' ∧
      (∀ (st : Settings) (text : String) (b : Bool), Text.Padded (Text.boolText b).toList text.toList →
        (Engine.load P facts? (st.set Setting.strictRecursion.key text).value.2).outcome =
          .ok (if b then E' else E)) ∧
      E'.callGraph.graph = E.callGraph.graph ∧ E'.callGraph.unresolved = E.callGraph.unresolved ∧
      (∀ p q, E'.callGraph.isReachable p q = E.callGraph.isReachable p q) ∧
      (∀ p, E'.callGraph.reachableFrom p = E.callGraph.reachableFrom p) ∧
      (∀ a, E'.isNull a = E.isNull a ∧ E'.hasKnownSize a = E.hasKnownSize a ∧
        E'.pointerInfo a = E.pointerInfo a ∧ ∀ b, E'.pointsTo a b = E.pointsTo a b) ∧
      (∀ (q : Query) (operands : List ValueId), q ≠ .isValidPointer →
        E'.plugin.evaluate q operands = E.plugin.evaluate q operands) ∧
      ∀ a len,
        ((E'.isValidPointer a len).outcome ≠ (E.isValidPointer a len).outcome ↔
          P.AtStake facts? a len ∧ (E.isValidPointer a len).outcome ≠ .ok .no) ∧
        ((E'.isValidPointer a len).outcome ≠ (E.isValidPointer a len).outcome →
          (E'.isValidPointer a len).outcome = .ok .no ∧
          ((E.isValidPointer a len).outcome = .ok .yes ∨ (E.isValidPointer a len).outcome = .ok .unknown)) := by
  have hwf := hP.wellFormed
  have hgraph : (P.callGraph facts? true).graph = (P.callGraph facts? false).graph := rfl
  have hunresolved : (P.callGraph facts? true).unresolved = (P.callGraph facts? false).unresolved := rfl
  refine ⟨Engine.of P facts? false, Engine.of P facts? true, Engine.outcome_build hwf _ _,
    Engine.outcome_build hwf _ _, ?_, hgraph, hunresolved,
    fun p q => CallGraph.isReachable_congr hgraph p q, fun p => CallGraph.reachableFrom_congr hgraph p,
    Engine.answers_callGraph P facts? _ _, ?_, fun a len => ⟨⟨?_, ?_⟩, ?_⟩⟩
  · intro st text b htext
    rw [Engine.outcome_load hwf, st.isStrict_set htext]
    cases b <;> rfl
  · intro q operands hq
    exact Engine.evaluate_callGraph P facts? _ _ hq operands
  · intro hdiff
    obtain ⟨hno, _, hstake⟩ := isValidPointer_differs hwf hdiff
    exact ⟨hstake, fun hsame => hdiff (hno.trans hsame.symm)⟩
  · rintro ⟨hstake, hloose⟩ hsame
    exact hloose (hsame.symm.trans (hstake.isValidPointer_strict hwf))
  · intro hdiff
    obtain ⟨hno, hloose, _⟩ := isValidPointer_differs hwf hdiff
    exact ⟨hno, hloose⟩

/-- `poll` calls through `hook`, of which nothing is known, so its buffer is not safe in the strict reading. -/
theorem strict_reading_only_refuses_poll : pollProgram.Built ∧
    ∃ E E', (Engine.build pollProgram (some pollFacts) false).outcome = .ok E ∧
      (Engine.load pollProgram (some pollFacts)
        (({} : Settings).set Setting.strictRecursion.key " true ").value.2).outcome = .ok E' ∧
      (E.isValidPointer 5 4).outcome = .ok .yes ∧ (E'.isValidPointer 5 4).outcome = .ok .no ∧
      (E'.isNull 5).outcome = (E.isNull 5).outcome ∧ pollProgram.AtStake (some pollFacts) 5 4 := by
  have hP : pollProgram.Built := ⟨"poll", .standard, pollAdditions, rfl⟩
  obtain ⟨E, E', hE, hE', hload, _, _, _, _, hsame, _, hvalid⟩ :=
    strict_reading_only_refuses pollProgram hP (some pollFacts)
  have hyes : ((Engine.build pollProgram (some pollFacts) false).outcome >>= fun E =>
      (E.isValidPointer 5 4).outcome) = .ok .yes := by decide +kernel
  have hno : ((Engine.build pollProgram (some pollFacts) true).outcome >>= fun E =>
      (E.isValidPointer 5 4).outcome) = .ok .no := by decide +kernel
  rw [hE, ok_bind] at hyes
  rw [hE', ok_bind] at hno
  have hdiff : (E'.isValidPointer 5 4).outcome ≠ (E.isValidPointer 5 4).outcome := by
    rw [hyes, hno]
    decide
  have htext : Text.bool? " true " = some true := by decide +kernel
  exact ⟨hP, E, E', hE, hload {} " true " true (Text.bool?_eq_some_iff.mp htext), hyes, hno,
    congrArg Checked.outcome (hsame 5).1, ((hvalid 5 4).1.mp hdiff).1⟩

end PointerQuery

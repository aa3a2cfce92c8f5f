import PointerQuery.Proofs.AccessValidity
import PointerQuery.Proofs.CallGraphExact

namespace PointerQuery

namespace Engine

variable {E : Engine} {facts : PointsTo} (hfacts : E.facts? = some facts) {a : ValueId}

include hfacts

theorem isNull_eq_no {v : Value} (hv : E.program.value? a = some v)
    (h : v.isPointer = true → (∃ t, t ∈ targetsOf (some facts) a) ∧
      ∀ t ∈ targetsOf (some facts) a, t.isNull = false ∧ t.isUnknown = false) :
    (E.isNull a).outcome = .ok .no := by
  rw [outcome_isNull, Program.value_eq_ok hv, ok_bind]
  cases hptr : v.isPointer with
  | false => rfl
  | true =>
    obtain ⟨hne, hclean⟩ := h hptr
    have hany : (targetsOf (some facts) a).toList.any (fun t => t.isNull || t.isUnknown) = false := by
      rw [List.any_eq_false]
      intro t ht
      obtain ⟨hnull, hunknown⟩ := hclean t (Std.ExtTreeSet.mem_toList.mp ht)
      simp [hnull, hunknown]
    rw [targets?_eq_some hfacts hne, ok_bind]
    simp only [Option.elim_some, hany]
    rfl

/-- That a pointer may be null is left open only if nothing is known about it. -/
theorem no_target_of_isNull_unknown (h : (E.isNull a).outcome = .ok .unknown) :
    ∀ t, t ∉ targetsOf (some facts) a := by
  intro t ht
  rw [outcome_isNull, targets?_eq_some hfacts ⟨t, ht⟩] at h
  cases hv : E.program.value a with
  | error e =>
    rw [hv] at h
    cases h
  | ok v =>
    rw [hv, ok_bind] at h
    split at h
    · cases h
    · exact Verdict.ofBool_ne_unknown _ (Except.ok.inj h)

theorem singleTarget?_eq_none (h : ∀ t, t ∉ targetsOf (some facts) a) : E.singleTarget? a = .ok none := by
  rw [singleTarget?, targets?_eq_none hfacts h]
  rfl

theorem mem_iff_of_singleTarget? {t : Target} (h : E.singleTarget? a = .ok (some t)) (u : Target) :
    u ∈ targetsOf (some facts) a ↔ u = t := by
  have hne : ∃ t, t ∈ targetsOf (some facts) a := by
    apply Classical.byContradiction
    intro hnone
    rw [singleTarget?_eq_none hfacts (not_exists.mp hnone)] at h
    cases h
  rw [← Std.ExtTreeSet.mem_toList, toList_of_singleTarget? (targets?_eq_some hfacts hne) h, List.mem_singleton]

/-- A pointer with one target points to the site of that target and to nothing else. -/
theorem pointsTo_of_singleTarget? {t : Target} {site : ValueId} (h : E.singleTarget? a = .ok (some t))
    (hsite : t.site? = some site) (b : ValueId) : E.pointsTo a b = true ↔ b = site := by
  rw [pointsTo_iff hfacts]
  constructor
  · rintro ⟨u, hu, hb⟩
    obtain rfl := (mem_iff_of_singleTarget? hfacts h u).mp hu
    exact Option.some.inj (hb.symm.trans hsite)
  · rintro rfl
    exact ⟨t, (mem_iff_of_singleTarget? hfacts h t).mpr rfl, hsite⟩

end Engine

theorem Program.exists_value_of_isLocal {P : Program} {a site : ValueId} (h : P.isLocal a site = true) :
    ∃ v, P.value? a = some v := by
  cases hv : P.value? a with
  | none => simp [isLocal, definingProc?, hv] at h
  | some v => exact ⟨v, rfl⟩

/-- The memory behind a target whose size the solver does not say is what is allocated at its site. -/
theorem Program.hasSize_of_allocated {P : Program} {t : Target} {site : ValueId} {size : Word}
    (hnone : t.size? = none) (hsite : t.site? = some site)
    (hsize : (P.constAlloca? site).bind (Allocation.size? P.layout) = some size) : P.HasSize t size.toNat := by
  refine (P.hasSize_iff t size.toNat).mpr ⟨size, ?_, rfl⟩
  rw [sizeBehind?, hnone, hsite]
  exact hsize

section WellFormed

variable {P : Program} (hP : P.WellFormed) {facts : PointsTo} {strict : Bool} {a : ValueId}

include hP

theorem safe_of_isValidPointer {len : ValueId}
    (h : ((Engine.of P (some facts) strict).isValidPointer a len).outcome = .ok .yes) :
    ∃ v w c, P.value? a = some v ∧ P.value? len = some w ∧ w.kind = .const c ∧
      (∃ t, t ∈ targetsOf (some facts) a) ∧
      ∀ t ∈ targetsOf (some facts) a, P.Safe (some facts) strict v c.value t := by
  rcases isValidPointer_cases hP (some facts) a len with
    ⟨r, hr, hearly⟩ | ⟨v, w, c, n, hv, _, hw, hc, _, _, hn, hne, hanswer⟩
  · exact absurd ((hearly strict).symm.trans h) hr
  · rw [hanswer] at h
    have hsafe := (worst_eq_yes_iff_safe hP).mp (Except.ok.inj h)
    rw [← hn] at hsafe
    exact ⟨v, w, c, hv, hw, hc, hne, hsafe⟩

/-- The allocation that is told is the only target, made in the procedure of the pointer. -/
theorem target_of_pointerInfo {i : PointerInfo}
    (h : ((Engine.of P (some facts) strict).pointerInfo a).outcome = .ok (some i)) :
    ∃ t, (Engine.of P (some facts) strict).singleTarget? a = .ok (some t) ∧ t.site? = some i.site ∧
      P.isLocal a i.site = true ∧
      (P.constAlloca? i.site).bind (Allocation.size? P.layout) = some i.size := by
  rw [Engine.outcome_pointerInfo hP] at h
  change _ >>= (fun t? => Except.ok (P.infoBehind? a t?)) = _ at h
  cases hsingle : (Engine.of P (some facts) strict).singleTarget? a with
  | error e =>
    rw [hsingle] at h
    cases h
  | ok t? =>
    rw [hsingle, ok_bind] at h
    obtain ⟨site, hsite?, hinfo⟩ := Option.bind_eq_some_iff.mp (Except.ok.inj h)
    obtain ⟨t, rfl, hsite⟩ := Option.bind_eq_some_iff.mp hsite?
    obtain ⟨hlocal, hsize?⟩ := Option.ite_none_right_eq_some.mp hinfo
    obtain ⟨size, hsize, rfl⟩ := Option.map_eq_some_iff.mp hsize?
    exact ⟨t, rfl, hsite, hlocal, hsize⟩

end WellFormed

/-- The answers about a pointer never contradict each other, whatever targets there are. A valid pointer is not null,
and no access through a pointer that may be null is valid. The allocation that is told of a pointer has a known size,
is not null and the one thing that the pointer points to, and it bounds every valid access unless the solver gave a
size of its own. Where it is open whether a pointer is null, no access is known to be valid and no size is known. -/
theorem answers_never_contradict (P : Program) (hP : P.Built) (facts : PointsTo) (strict : Bool) :
    ∃ E, (Engine.build P (some facts) strict).outcome = .ok E ∧ ∀ a,
      (∀ len, (E.isValidPointer a len).outcome = .ok .yes → (E.isNull a).outcome = .ok .no) ∧
      ((E.isNull a).outcome = .ok .yes → ∀ len w c, P.value? len = some w → w.kind = .const c → 0 < c.value →
        c.value < P.layout.nativeMax.toNat → (E.isValidPointer a len).outcome = .ok .no) ∧
      (∀ i, (E.pointerInfo a).outcome = .ok (some i) →
        (E.hasKnownSize a).outcome = .ok .yes ∧ (E.isNull a).outcome = .ok .no ∧
        E.pointsTo a i.site = true ∧ (∀ b, b ≠ i.site → E.pointsTo a b = false) ∧
        ((∀ t ∈ targetsOf (some facts) a, t.size? = none) →
          ∀ len, (E.isValidPointer a len).outcome = .ok .yes →
            ∃ w c, P.value? len = some w ∧ w.kind = .const c ∧ c.value ≤ i.size.toNat)) ∧
      ((E.isNull a).outcome = .ok .unknown → (∀ len, (E.isValidPointer a len).outcome ≠ .ok .yes) ∧
        (E.hasKnownSize a).outcome = .ok .unknown) := by
  have hwf := hP.wellFormed
  have hfacts : (Engine.of P (some facts) strict).facts? = some facts := rfl
  refine ⟨Engine.of P (some facts) strict, Engine.outcome_build hwf _ _, fun a => ⟨?_, ?_, ?_, ?_⟩⟩
  · intro len hvalid
    obtain ⟨v, w, c, hv, _, _, hne, hsafe⟩ := safe_of_isValidPointer hwf hvalid
    exact Engine.isNull_eq_no hfacts hv fun _ =>
      ⟨hne, fun t ht => ⟨(hsafe t ht).not_null, (hsafe t ht).not_unknown⟩⟩
  · intro hnull len w c hw hc hpos hmax
    obtain ⟨v, hv, hptr, t, ht, hreason⟩ := (Engine.isNull_eq_yes_iff hfacts a).mp hnull
    have hbad : P.Bad (some facts) strict v c.value t := by
      rcases hreason with hnull | hunknown
      · exact .null hnull
      · exact .unknown hunknown
    exact isValidPointer_eq_no hwf (Program.value?_eq_some hv) hptr hw hc hpos hmax ⟨t, ht, hbad⟩
  · intro i hinfo
    obtain ⟨t, hsingle, hsite, hlocal, hsize⟩ := target_of_pointerInfo hwf hinfo
    have hmem := Engine.mem_iff_of_singleTarget? hfacts hsingle
    refine ⟨?_, ?_, ?_, ?_, ?_⟩
    · have hknown : P.sizeVerdict a (some t) = .yes := by
        simp [Program.sizeVerdict, hsite, hlocal, Verdict.ofBool]
      rw [Engine.outcome_hasKnownSize hwf, hsingle, ok_bind]
      exact congrArg Except.ok hknown
    · obtain ⟨v, hv⟩ := Program.exists_value_of_isLocal hlocal
      refine Engine.isNull_eq_no hfacts hv fun _ => ⟨⟨t, (hmem t).mpr rfl⟩, fun u hu => ?_⟩
      rw [(hmem u).mp hu]
      exact Target.flags_of_site? hsite
    · exact (Engine.pointsTo_of_singleTarget? hfacts hsingle hsite _).mpr rfl
    · intro b hb
      rw [← Bool.not_eq_true, Engine.pointsTo_of_singleTarget? hfacts hsingle hsite]
      exact hb
    · intro hnone len hvalid
      obtain ⟨v, w, c, _, hw, hc, _, hsafe⟩ := safe_of_isValidPointer hwf hvalid
      have ht := (hmem t).mpr rfl
      obtain ⟨offset, size, _, hbehind, hle⟩ := (hsafe t ht).within
      have hsame := hbehind.unique (Program.hasSize_of_allocated (hnone t ht) hsite hsize)
      exact ⟨w, c, hw, hc, by omega⟩
  · intro hunknown
    have hnone := Engine.no_target_of_isNull_unknown hfacts hunknown
    constructor
    · intro len hvalid
      obtain ⟨_, _, _, _, _, _, ⟨t, ht⟩, _⟩ := safe_of_isValidPointer hwf hvalid
      exact hnone t ht
    · rw [Engine.outcome_hasKnownSize hwf, Engine.singleTarget?_eq_none hfacts hnone]
      rfl

/-- The buffer with two more pointers into it. -/
def surveyAdditions : List Addition :=
  bufferAdditions ++ [.gep 1 "q" 3 4, .gep 1 "r" 3 4]

def surveyProgram : Program :=
  ((Draft.empty "survey" .standard).addAll surveyAdditions).build.value

/-- The pointer `p` goes into the buffer, `q` may be null, and nothing is known about `r`. -/
def surveyFacts : PointsTo := fun a =>
  if a = 6 then some (Std.ExtTreeSet.ofList [bufferTarget, .null]) else bufferFacts a

/-- All of the buffer is told of the pointer `p` into it, and ten bytes at the offset four are no more than that. No
access through `q` is valid, since it may be null, and about `r` all stays open. -/
theorem answers_never_contradict_buffer : surveyProgram.Built ∧
    ∃ E, (Engine.build surveyProgram (some surveyFacts) true).outcome = .ok E ∧
      ((E.pointerInfo 5).outcome = .ok (some ⟨3, 16⟩) ∧ (E.isValidPointer 5 4).outcome = .ok .yes ∧
        (E.isNull 5).outcome = .ok .no ∧ (E.hasKnownSize 5).outcome = .ok .yes ∧ E.pointsTo 5 3 = true ∧
        ∃ w c, surveyProgram.value? 4 = some w ∧ w.kind = .const c ∧ c.value ≤ 16) ∧
      ((E.isNull 6).outcome = .ok .yes ∧ (E.isValidPointer 6 4).outcome = .ok .no) ∧
      (E.isNull 7).outcome = .ok .unknown ∧ (∀ len, (E.isValidPointer 7 len).outcome ≠ .ok .yes) ∧
        (E.hasKnownSize 7).outcome = .ok .unknown := by
  have hP : surveyProgram.Built := ⟨"survey", .standard, surveyAdditions, rfl⟩
  obtain ⟨E, hE, hanswers⟩ := answers_never_contradict surveyProgram hP surveyFacts true
  have htold : ((Engine.build surveyProgram (some surveyFacts) true).outcome >>= fun E =>
      (E.pointerInfo 5).outcome) = .ok (some ⟨3, 16⟩) := by decide +kernel
  have hvalid : ((Engine.build surveyProgram (some surveyFacts) true).outcome >>= fun E =>
      (E.isValidPointer 5 4).outcome) = .ok .yes := by decide +kernel
  have hnull : ((Engine.build surveyProgram (some surveyFacts) true).outcome >>= fun E =>
      (E.isNull 6).outcome) = .ok .yes := by decide +kernel
  have hopen : ((Engine.build surveyProgram (some surveyFacts) true).outcome >>= fun E =>
      (E.isNull 7).outcome) = .ok .unknown := by decide +kernel
  rw [hE, ok_bind] at htold hvalid hnull hopen
  obtain ⟨hnotNull, _, hinfo, _⟩ := hanswers 5
  obtain ⟨hsize, _, hpoints, _, hbound⟩ := hinfo ⟨3, 16⟩ htold
  have hunsized : ∀ t ∈ targetsOf (some surveyFacts) 5, t.size? = none := by
    intro t ht
    have hset : targetsOf (some surveyFacts) 5 = Std.ExtTreeSet.ofList [bufferTarget] := rfl
    rw [hset, Std.ExtTreeSet.mem_ofList] at ht
    have hlisted : t = bufferTarget := by simpa using ht
    rw [hlisted]
    rfl
  have hten : surveyProgram.value? 4 = some ⟨4, "", .int 64, .const (IntConst.ofNat 64 10)⟩ := by decide +kernel
  obtain ⟨_, hinvalid, _, _⟩ := hanswers 6
  obtain ⟨_, _, _, hunsettled⟩ := hanswers 7
  refine ⟨hP, E, hE, ?_, ⟨hnull, ?_⟩, hopen, hunsettled hopen⟩
  · exact ⟨htold, hvalid, hnotNull 4 hvalid, hsize, hpoints, hbound hunsized 4 hvalid⟩
  · exact hinvalid hnull 4 _ _ hten rfl (by decide +kernel) (by decide +kernel)

end PointerQuery

import PointerQuery.Proofs.AnswerCoherence

namespace PointerQuery

/-- The value has this target and no other one. -/
def PointsTo.Only (facts : PointsTo) (a : ValueId) (t : Target) : Prop :=
  ∀ u, u ∈ targetsOf (some facts) a ↔ u = t

/-- The value `site` allocates on the stack as many elements as the constant `c` says, and `a` is an instruction of
the same procedure. -/
inductive Program.LocalAlloca (P : Program) (a site : ValueId) (elem : Ty) (c : IntConst) : Prop where
  | intro (proc : ProcId) (count : ValueId) (v w user : Value) (op : Operation) :
      P.value? site = some v → v.kind = .instruction proc (.alloca elem count) →
      P.value? count = some w → w.kind = .const c →
      P.value? a = some user → user.kind = .instruction proc op → LocalAlloca P a site elem c

theorem Verdict.eq_no_iff {v : Verdict} : v = no ↔ v ≠ unknown ∧ v ≠ yes := by
  cases v <;> decide

namespace Engine

variable {E : Engine} {facts : PointsTo} (hfacts : E.facts? = some facts) {a : ValueId}

include hfacts

theorem singleTarget?_of_only {t : Target} (h : facts.Only a t) : E.singleTarget? a = .ok (some t) := by
  have hset : targetsOf (some facts) a = Std.ExtTreeSet.ofList [t] := by
    apply Std.ExtTreeSet.ext_mem
    intro u
    rw [h u, Std.ExtTreeSet.mem_ofList]
    simp
  rw [singleTarget?, targets?_eq_some hfacts ⟨t, (h t).mpr rfl⟩, hset]
  rfl

theorem exists_singleTarget? :
    ∃ t?, E.singleTarget? a = .ok t? ∧ ∀ t, t? = some t ↔ facts.Only a t := by
  have hok : ∃ t?, E.singleTarget? a = .ok t? := by
    rw [singleTarget?, targets?_eq hfacts, ok_bind]
    split
    · exact ⟨_, rfl⟩
    · exact ⟨_, rfl⟩
  obtain ⟨t?, ht?⟩ := hok
  refine ⟨t?, ht?, fun t => ⟨?_, ?_⟩⟩
  · rintro rfl
    exact mem_iff_of_singleTarget? hfacts ht?
  · intro honly
    exact Except.ok.inj (ht?.symm.trans (singleTarget?_of_only hfacts honly))

end Engine

namespace Program

theorem isLocal_iff (P : Program) (a site : ValueId) : P.isLocal a site = true ↔
    (∃ allocation, P.constAlloca? site = some allocation) ∧
      ∃ proc, P.definingProc? a = some proc ∧ P.definingProc? site = some proc := by
  rw [isLocal, Bool.and_eq_true, Option.isSome_iff_exists]
  apply and_congr_right'
  cases P.definingProc? a with
  | none => simp
  | some p =>
    cases P.definingProc? site with
    | none => simp
    | some q =>
      change (p == q) = true ↔ _
      rw [beq_iff_eq]
      constructor
      · rintro rfl
        exact ⟨p, rfl, rfl⟩
      · rintro ⟨proc, hp, hq⟩
        exact Option.some.inj (hp.trans hq.symm)

theorem localAlloca_iff (P : Program) (a site : ValueId) (elem : Ty) (c : IntConst) :
    P.LocalAlloca a site elem c ↔ P.constAlloca? site = some ⟨elem, c⟩ ∧ P.isLocal a site = true := by
  constructor
  · intro h
    obtain ⟨proc, count, v, w, user, op, hv, hkind, hw, hc, huser, hop⟩ := h
    have halloca : P.constAlloca? site = some ⟨elem, c⟩ := by
      apply (P.constAlloca?_eq_some_iff site ⟨elem, c⟩).mpr
      refine ⟨v, count, w, hv, ?_, hw, (w.const?_eq_some_iff c).mpr hc⟩
      rw [Value.op?, hkind]
    refine ⟨halloca, (P.isLocal_iff a site).mpr ⟨⟨_, halloca⟩, proc, ?_, ?_⟩⟩
    · exact (P.definingProc?_eq_some_iff a proc).mpr ⟨user, op, huser, hop⟩
    · exact (P.definingProc?_eq_some_iff site proc).mpr ⟨v, _, hv, hkind⟩
  · intro h
    obtain ⟨halloca, hlocal⟩ := h
    obtain ⟨v, count, w, hv, hop, hw, hc⟩ := (P.constAlloca?_eq_some_iff site ⟨elem, c⟩).mp halloca
    obtain ⟨_, proc, hproc, hproc'⟩ := (P.isLocal_iff a site).mp hlocal
    obtain ⟨user, op, huser, huserKind⟩ := (P.definingProc?_eq_some_iff a proc).mp hproc
    obtain ⟨v', op', hv', hkind⟩ := (P.definingProc?_eq_some_iff site proc).mp hproc'
    obtain rfl : v = v' := Option.some.inj (hv.symm.trans hv')
    rw [Value.op?, hkind] at hop
    cases hop
    exact ⟨proc, count, v, w, user, op, hv, hkind, hw, (w.const?_eq_some_iff c).mp hc, huser, huserKind⟩

theorem isLocal_iff_exists (P : Program) (a site : ValueId) :
    P.isLocal a site = true ↔ ∃ elem c, P.LocalAlloca a site elem c := by
  constructor
  · intro h
    obtain ⟨⟨⟨elem, c⟩, halloca⟩, _⟩ := (P.isLocal_iff a site).mp h
    exact ⟨elem, c, (P.localAlloca_iff a site elem c).mpr ⟨halloca, h⟩⟩
  · intro h
    obtain ⟨elem, c, halloca⟩ := h
    exact ((P.localAlloca_iff a site elem c).mp halloca).2

theorem infoBehind?_eq_some_iff (P : Program) (a : ValueId) (t? : Option Target) (site : ValueId) (size : Word) :
    P.infoBehind? a t? = some ⟨site, size⟩ ↔ ∃ t elem c bytes, t? = some t ∧ t.site? = some site ∧
      P.LocalAlloca a site elem c ∧ c.value < UInt64.size ∧ P.layout.allocSize? elem = some bytes ∧
      c.value * bytes.toNat < UInt64.size ∧ size.toNat = c.value * bytes.toNat := by
  constructor
  · intro h
    obtain ⟨site', hsite?, hinfo⟩ := Option.bind_eq_some_iff.mp h
    obtain ⟨t, rfl, hsite⟩ := Option.bind_eq_some_iff.mp hsite?
    obtain ⟨hlocal, hsize?⟩ := Option.ite_none_right_eq_some.mp hinfo
    obtain ⟨size', hsize, heq⟩ := Option.map_eq_some_iff.mp hsize?
    cases heq
    obtain ⟨⟨elem, c⟩, halloca, hsize⟩ := Option.bind_eq_some_iff.mp hsize
    obtain ⟨hc, bytes, hbytes, htotal⟩ := (Allocation.size?_eq_some_iff P.layout ⟨elem, c⟩ size).mp hsize
    exact ⟨t, elem, c, bytes, rfl, hsite, (P.localAlloca_iff a site elem c).mpr ⟨halloca, hlocal⟩, hc, hbytes,
      htotal ▸ size.toNat_lt_size, htotal⟩
  · intro h
    obtain ⟨t, elem, c, bytes, rfl, hsite, halloca, hc, hbytes, _, htotal⟩ := h
    obtain ⟨halloca, hlocal⟩ := (P.localAlloca_iff a site elem c).mp halloca
    have hsize := (Allocation.size?_eq_some_iff P.layout ⟨elem, c⟩ size).mpr ⟨hc, bytes, hbytes, htotal⟩
    simp [infoBehind?, hsite, hlocal, halloca, hsize]

theorem sizeVerdict_eq_unknown_iff (P : Program) (a : ValueId) (t? : Option Target) :
    P.sizeVerdict a t? = .unknown ↔ ¬∃ t, t? = some t := by
  cases t? with
  | none => simp [sizeVerdict]
  | some t =>
    cases hsite : t.site? with
    | none => simp [sizeVerdict, hsite]
    | some site => simp [sizeVerdict, hsite, Verdict.ofBool_ne_unknown]

theorem sizeVerdict_eq_yes_iff (P : Program) (a : ValueId) (t? : Option Target) :
    P.sizeVerdict a t? = .yes ↔
      ∃ t site elem c, t? = some t ∧ t.site? = some site ∧ P.LocalAlloca a site elem c := by
  cases t? with
  | none => simp [sizeVerdict]
  | some t =>
    cases hsite : t.site? with
    | none => simp [sizeVerdict, hsite]
    | some site => simp [sizeVerdict, hsite, Verdict.ofBool_eq_yes_iff, isLocal_iff_exists]

end Program

/-- The allocation behind a pointer is told exactly if the pointer has one target and the site of that target
allocates, in the procedure in which the pointer is an instruction, a constant number of elements of a type with a
size, if the number and the total are words; the size told is the total. Whether the size is known is open exactly if
there is not one target, and it is known exactly if all this holds but for the sizes. -/
theorem pointerInfo_exact (P : Program) (hP : P.Built) (facts : PointsTo) (strict : Bool) (a : ValueId) :
    ∃ E info? verdict, (Engine.build P (some facts) strict).outcome = .ok E ∧
      (E.pointerInfo a).outcome = .ok info? ∧ (E.hasKnownSize a).outcome = .ok verdict ∧
      (∀ site size, info? = some ⟨site, size⟩ ↔ ∃ t elem c bytes, facts.Only a t ∧ t.site? = some site ∧
        P.LocalAlloca a site elem c ∧ c.value < UInt64.size ∧ P.layout.allocSize? elem = some bytes ∧
        c.value * bytes.toNat < UInt64.size ∧ size.toNat = c.value * bytes.toNat) ∧
      (verdict = .unknown ↔ ¬∃ t, facts.Only a t) ∧
      (verdict = .yes ↔
        ∃ t site elem c, facts.Only a t ∧ t.site? = some site ∧ P.LocalAlloca a site elem c) ∧
      (verdict = .no ↔ (∃ t, facts.Only a t) ∧
        ¬∃ t site elem c, facts.Only a t ∧ t.site? = some site ∧ P.LocalAlloca a site elem c) := by
  have hwf := hP.wellFormed
  let E := Engine.of P (some facts) strict
  obtain ⟨t?, hsingle, honly⟩ := Engine.exists_singleTarget? (E := E) (a := a) rfl
  have hinfo : (E.pointerInfo a).outcome = .ok (P.infoBehind? a t?) := by
    rw [Engine.outcome_pointerInfo hwf, hsingle]
    rfl
  have hverdict : (E.hasKnownSize a).outcome = .ok (P.sizeVerdict a t?) := by
    rw [Engine.outcome_hasKnownSize hwf, hsingle]
    rfl
  have hunknown := P.sizeVerdict_eq_unknown_iff a t?
  have hyes := P.sizeVerdict_eq_yes_iff a t?
  simp only [honly] at hunknown hyes
  refine ⟨E, _, _, Engine.outcome_build hwf (some facts) strict, hinfo, hverdict, fun site size => ?_, hunknown,
    hyes, ?_⟩
  · rw [P.infoBehind?_eq_some_iff a t? site size]
    simp only [honly]
  · rw [Verdict.eq_no_iff, ne_eq, hunknown, not_not, ne_eq, hyes]

/-- All sixteen bytes of the buffer are told of the pointer into it. -/
theorem pointerInfo_exact_buffer : bufferProgram.Built ∧
    ∃ E, (Engine.build bufferProgram (some bufferFacts) true).outcome = .ok E ∧
      (E.pointerInfo 5).outcome = .ok (some ⟨3, 16⟩) ∧ (E.hasKnownSize 5).outcome = .ok .yes := by
  have hP : bufferProgram.Built := ⟨"buffer", .standard, bufferAdditions, rfl⟩
  have honly : bufferFacts.Only 5 bufferTarget := by
    intro u
    have hset : targetsOf (some bufferFacts) 5 = Std.ExtTreeSet.ofList [bufferTarget] := rfl
    rw [hset, Std.ExtTreeSet.mem_ofList]
    simp
  have halloca : bufferProgram.LocalAlloca 5 3 (.int 8) (IntConst.ofNat 64 16) :=
    .intro 1 2 ⟨3, "buf", .ptr, .instruction 1 (.alloca (.int 8) 2)⟩ ⟨2, "", .int 64, .const (IntConst.ofNat 64 16)⟩
      ⟨5, "p", .ptr, .instruction 1 (.gep 3 4)⟩ (.gep 3 4) (by decide +kernel) rfl (by decide +kernel) rfl
      (by decide +kernel) rfl
  obtain ⟨E, info?, verdict, hE, hinfo, hverdict, htold, _, hyes, _⟩ :=
    pointerInfo_exact bufferProgram hP bufferFacts true 5
  refine ⟨hP, E, hE, ?_, ?_⟩
  · rw [hinfo, (htold 3 16).mpr ⟨bufferTarget, .int 8, IntConst.ofNat 64 16, 1, honly, rfl, halloca,
      by decide +kernel, by decide +kernel, by decide +kernel, by decide +kernel⟩]
  · rw [hverdict, hyes.mpr ⟨bufferTarget, 3, .int 8, IntConst.ofNat 64 16, honly, rfl, halloca⟩]

end PointerQuery

import PointerQuery.Proofs.AccessValidity

namespace PointerQuery

theorem Verdict.le_no_iff {a : Verdict} : a ≤ no ↔ a = no := by
  cases a <;> decide

theorem Verdict.worst_map_le {α : Type} {f g : α → Verdict} {xs : List α} (h : ∀ x ∈ xs, f x ≤ g x) :
    worst (xs.map f) ≤ worst (xs.map g) := by
  rw [le_worst_iff, List.forall_mem_map]
  intro x hx
  calc
    worst (xs.map f) ≤ f x := worst_le_of_mem (List.mem_map_of_mem hx)
    _ ≤ g x := h x hx

namespace Engine

variable {E : Engine} {m n : Word}

theorem inBounds_of_le (hle : m ≤ n) {offset size : Word} (h : inBounds offset n size = true) :
    inBounds offset m size = true := by
  rw [UInt64.le_iff_toNat_le] at hle
  rw [inBounds_iff] at h ⊢
  omega

/-- On one target only the bounds depend on the length. -/
theorem accessVerdict_anti (hle : m ≤ n) (v : Value) (t : Target) :
    E.accessVerdict v n t ≤ E.accessVerdict v m t := by
  unfold accessVerdict
  split
  · exact Verdict.le_refl _
  · cases t.offset with
    | unknown => exact Verdict.le_refl _
    | known offset =>
      apply Verdict.ofBool_le_ofBool
      rw [Bool.and_eq_true, Bool.and_eq_true]
      apply And.imp_left
      rw [Option.any_eq_true, Option.any_eq_true]
      intro hbounds
      obtain ⟨size, hsize, hin⟩ := hbounds
      exact ⟨size, hsize, inBounds_of_le hle hin⟩

/-- The verdict on an access of a length above zero through a value with the given targets. -/
def verdictOn (E : Engine) (v : Value) (set : TargetSet) (len : Word) : Verdict :=
  if v.isPointer then
    if set.isEmpty then .unknown else Verdict.worst (set.toList.map (E.accessVerdict v len))
  else .no

theorem verdictOn_anti (hle : m ≤ n) (v : Value) (set : TargetSet) :
    E.verdictOn v set n ≤ E.verdictOn v set m := by
  unfold verdictOn
  split
  · split
    · exact Verdict.le_refl _
    · exact Verdict.worst_map_le fun t _ => accessVerdict_anti hle v t
  · exact Verdict.le_refl _

/-- The answer for a constant length is the verdict on the targets of the pointer. -/
theorem isValidPointer_of_const {P : Program} (hP : P.WellFormed) (facts : PointsTo) (strict : Bool)
    {a len : ValueId} {v w : Value} {c : IntConst} (hv : P.value? a = some v) (hw : P.value? len = some w)
    (hc : w.kind = .const c) (hpos : 0 < c.value) (hmax : c.value < P.layout.nativeMax.toNat) :
    ∃ n : Word, n.toNat = c.value ∧ ((of P (some facts) strict).isValidPointer a len).outcome =
      .ok ((of P (some facts) strict).verdictOn v (targetsOf (some facts) a) n) := by
  obtain ⟨n, hlen, hn⟩ := (P.exists_length_iff w (· = c.value)).mp ⟨c, hc, hmax, rfl⟩
  have hn0 : n ≠ 0 := by
    rintro rfl
    change 0 = c.value at hn
    omega
  refine ⟨n, hn, ?_⟩
  rw [outcome_isValidPointer hP]
  cases hptr : v.isPointer with
  | false =>
    change P.accessStages a len _ = _
    simp [Program.accessStages, verdictOn, Program.value_eq_ok hv, ok_bind, hptr]
  | true =>
    refine (Program.accessStages_eq _ hv hptr hw hlen hn0).trans ?_
    rw [targets?_eq rfl, ok_bind, verdictOn, hptr]
    cases (targetsOf (some facts) a).isEmpty <;> rfl

end Engine

/-- A longer access is never more valid than a shorter one through the same pointer. So what is valid stays valid for
every shorter access, and what is not valid is not valid for any longer one. -/
theorem isValidPointer_antitone_length (P : Program) (hP : P.Built) (facts : PointsTo) (strict : Bool)
    (a shorter longer : ValueId) (v w w' : Value) (c c' : IntConst) (hv : P.value? a = some v)
    (hw : P.value? shorter = some w) (hc : w.kind = .const c)
    (hw' : P.value? longer = some w') (hc' : w'.kind = .const c')
    (hpos : 0 < c.value) (hle : c.value ≤ c'.value) (hmax : c'.value < P.layout.nativeMax.toNat) :
    ∃ E verdict verdict', (Engine.build P (some facts) strict).outcome = .ok E ∧
      (E.isValidPointer a shorter).outcome = .ok verdict ∧ (E.isValidPointer a longer).outcome = .ok verdict' ∧
      verdict' ≤ verdict ∧ (verdict' = .yes → verdict = .yes) ∧ (verdict = .no → verdict' = .no) := by
  have hwf := hP.wellFormed
  obtain ⟨m, hm, hshorter⟩ := Engine.isValidPointer_of_const hwf facts strict hv hw hc hpos
    (Nat.lt_of_le_of_lt hle hmax)
  obtain ⟨n, hn, hlonger⟩ := Engine.isValidPointer_of_const hwf facts strict hv hw' hc'
    (Nat.lt_of_lt_of_le hpos hle) hmax
  have hmn : m ≤ n := by
    rw [UInt64.le_iff_toNat_le, hm, hn]
    exact hle
  have hverdict := Engine.verdictOn_anti (E := Engine.of P (some facts) strict) hmn v (targetsOf (some facts) a)
  refine ⟨_, _, _, Engine.outcome_build hwf (some facts) strict, hshorter, hlonger, hverdict, ?_, ?_⟩
  · intro hyes
    rw [hyes] at hverdict
    exact Verdict.yes_le_iff.mp hverdict
  · intro hno
    rw [hno] at hverdict
    exact Verdict.le_no_iff.mp hverdict

/-- The buffer of sixteen bytes, and three more lengths of other widths. -/
def scanAdditions : List Addition :=
  bufferAdditions ++ [.constInt 12 8, .constInt 13 8, .constInt 20 32]

def scanProgram : Program :=
  ((Draft.empty "scan" .standard).addAll scanAdditions).build.value

/-- Twelve bytes at the offset four reach up to the end of the buffer and thirteen go past it. So ten bytes stay in
it, and twenty do not. -/
theorem isValidPointer_antitone_length_scan : scanProgram.Built ∧
    ∃ E, (Engine.build scanProgram (some bufferFacts) true).outcome = .ok E ∧
      (E.isValidPointer 5 4).outcome = .ok .yes ∧ (E.isValidPointer 5 6).outcome = .ok .yes ∧
      (E.isValidPointer 5 7).outcome = .ok .no ∧ (E.isValidPointer 5 8).outcome = .ok .no := by
  have hP : scanProgram.Built := ⟨"scan", .standard, scanAdditions, rfl⟩
  have hv : scanProgram.value? 5 = some ⟨5, "p", .ptr, .instruction 1 (.gep 3 4)⟩ := by decide +kernel
  have hten : scanProgram.value? 4 = some ⟨4, "", .int 64, .const (IntConst.ofNat 64 10)⟩ := by decide +kernel
  have htwelve : scanProgram.value? 6 = some ⟨6, "", .int 8, .const (IntConst.ofNat 8 12)⟩ := by decide +kernel
  have hthirteen : scanProgram.value? 7 = some ⟨7, "", .int 8, .const (IntConst.ofNat 8 13)⟩ := by decide +kernel
  have htwenty : scanProgram.value? 8 = some ⟨8, "", .int 32, .const (IntConst.ofNat 32 20)⟩ := by decide +kernel
  have hfits : ((Engine.build scanProgram (some bufferFacts) true).outcome >>= fun E =>
      (E.isValidPointer 5 6).outcome) = .ok .yes := by decide +kernel
  have hpast : ((Engine.build scanProgram (some bufferFacts) true).outcome >>= fun E =>
      (E.isValidPointer 5 7).outcome) = .ok .no := by decide +kernel
  obtain ⟨E, ten, twelve, hE, hshorter, hlonger, _, hyes, _⟩ :=
    isValidPointer_antitone_length scanProgram hP bufferFacts true 5 4 6 _ _ _ _ _ hv hten rfl htwelve rfl
      (by decide +kernel) (by decide +kernel) (by decide +kernel)
  rw [hE, ok_bind] at hfits hpast
  have hlong : twelve = .yes := Except.ok.inj (hlonger.symm.trans hfits)
  obtain ⟨_, thirteen, twenty, hsame, hpast', htoo, _, _, hno⟩ :=
    isValidPointer_antitone_length scanProgram hP bufferFacts true 5 7 8 _ _ _ _ _ hv hthirteen rfl htwenty rfl
      (by decide +kernel) (by decide +kernel) (by decide +kernel)
  obtain rfl := Except.ok.inj (hE.symm.trans hsame)
  have hshort : thirteen = .no := Except.ok.inj (hpast'.symm.trans hpast)
  refine ⟨hP, E, hE, ?_, hfits, hpast, ?_⟩
  · rw [hshorter, hyes hlong]
  · rw [htoo, hno hshort]

end PointerQuery

import PointerQuery.Proofs.Answers
import PointerQuery.Proofs.Residues

/-!
When an access through a pointer is valid. The verdict is described target by target, in the natural numbers
and by the call relation of the program: bad targets make it no, targets at an unknown offset leave it open, and
it is yes only if each target is safe.
-/

namespace PointerQuery

open Relation (TransGen)

namespace Program

/-- The number of bytes in the memory behind a target: what the solver says, or else what is allocated at its
site, a constant number of elements of a type with a size, if the number and the total are words. -/
inductive HasSize (P : Program) (t : Target) : Nat → Prop where
  | given (size : Word) : t.size? = some size → HasSize P t size.toNat
  | allocated (site count : ValueId) (v w : Value) (elem : Ty) (c : IntConst) (size : Word) :
      t.size? = none → t.site? = some site → P.value? site = some v →
      v.op? = some (.alloca elem count) → P.value? count = some w → w.kind = .const c →
      c.value < UInt64.size → P.layout.allocSize? elem = some size →
      c.value * size.toNat < UInt64.size → HasSize P t (c.value * size.toNat)

/-- The owner of the memory behind a target: the one that the solver names, or else the procedure in which the
memory is allocated on the stack. -/
inductive OwnedBy (P : Program) (t : Target) (proc : ProcId) : Prop where
  | named : t.owner? = some proc → OwnedBy P t proc
  | allocated (site : ValueId) (v : Value) (elem : Ty) (count : ValueId) :
      t.owner? = none → t.site? = some site → P.value? site = some v →
      v.kind = .instruction proc (.alloca elem count) → OwnedBy P t proc

/-- The procedure may have more than one frame at a time. -/
def MayRecur (P : Program) (facts? : Option PointsTo) (strict : Bool) (proc : ProcId) : Prop :=
  TransGen (P.Calls facts?) proc proc ∨ strict = true ∧ P.HasUnresolvedCall facts? proc

/-- The pointer is used in a procedure and the memory is owned by another one, or by one that may recur. -/
def Guarded (P : Program) (facts? : Option PointsTo) (strict : Bool) (v : Value) (t : Target) : Prop :=
  ∃ user owner, v.enclosingProc? = some user ∧ P.OwnedBy t owner ∧
    (owner ≠ user ∨ P.MayRecur facts? strict user)

/-- Targets at which an access to `n` bytes through the pointer `v` is not valid. -/
inductive Bad (P : Program) (facts? : Option PointsTo) (strict : Bool) (v : Value) (n : Nat) (t : Target) :
    Prop where
  | null : t.isNull = true → Bad P facts? strict v n t
  | unknown : t.isUnknown = true → Bad P facts? strict v n t
  | invalidated : t.isInvalidated = true → Bad P facts? strict v n t
  | sizeless (offset : Word) : t.offset = .known offset → (∀ size, ¬P.HasSize t size) →
      Bad P facts? strict v n t
  | beyond (offset : Word) (size : Nat) : t.offset = .known offset → P.HasSize t size →
      size < offset.toNat + n → Bad P facts? strict v n t
  | guarded (offset : Word) : t.offset = .known offset → P.Guarded facts? strict v t →
      Bad P facts? strict v n t

/-- Targets at which an access to `n` bytes through the pointer `v` stays in live memory. -/
structure Safe (P : Program) (facts? : Option PointsTo) (strict : Bool) (v : Value) (n : Nat) (t : Target) :
    Prop where
  not_null : t.isNull = false
  not_unknown : t.isUnknown = false
  not_invalidated : t.isInvalidated = false
  within : ∃ offset size, t.offset = .known offset ∧ P.HasSize t size ∧ offset.toNat + n ≤ size
  not_guarded : ¬P.Guarded facts? strict v t

end Program

/-- Targets of which only the offset is not known. -/
structure Target.Open (t : Target) : Prop where
  not_null : t.isNull = false
  not_unknown : t.isUnknown = false
  not_invalidated : t.isInvalidated = false
  offset_unknown : t.offset = .unknown

theorem Word.mul?_eq_some_iff {a b w : Word} : Word.mul? a b = some w ↔ w.toNat = a.toNat * b.toNat :=
  Word.ofNat?_eq_some_iff

theorem Allocation.size?_eq_some_iff (L : Layout) (a : Allocation) (w : Word) :
    a.size? L = some w ↔ a.count.value < UInt64.size ∧
      ∃ size, L.allocSize? a.elem = some size ∧ w.toNat = a.count.value * size.toNat := by
  simp only [size?, bind, Option.bind_eq_some_iff, IntConst.toWord?_eq_some_iff, Word.mul?_eq_some_iff]
  constructor
  · intro h
    obtain ⟨count, hcount, size, hsize, hw⟩ := h
    refine ⟨hcount ▸ count.toNat_lt, size, hsize, ?_⟩
    rw [hw, hcount, Nat.mul_comm]
  · intro h
    obtain ⟨hlt, size, hsize, hw⟩ := h
    refine ⟨UInt64.ofNatLT a.count.value hlt, UInt64.toNat_ofNatLT, size, hsize, ?_⟩
    rw [hw, UInt64.toNat_ofNatLT, Nat.mul_comm]

/-- A length that is no more than the size leaves room for the offset, so nothing wraps around. -/
theorem Engine.inBounds_iff (offset len size : Word) :
    Engine.inBounds offset len size = true ↔ offset.toNat + len.toNat ≤ size.toNat := by
  simp only [Engine.inBounds, Bool.and_eq_true, decide_eq_true_eq]
  constructor
  · intro h
    obtain ⟨hlen, hoffset⟩ := h
    have hsub := UInt64.toNat_sub_of_le size len hlen
    rw [UInt64.le_iff_toNat_le] at hlen hoffset
    omega
  · intro h
    have hlen : len ≤ size := UInt64.le_iff_toNat_le.mpr (by omega)
    have hsub := UInt64.toNat_sub_of_le size len hlen
    refine ⟨hlen, UInt64.le_iff_toNat_le.mpr ?_⟩
    omega

theorem Value.const?_eq_some_iff (v : Value) (c : IntConst) : v.const? = some c ↔ v.kind = .const c := by
  unfold Value.const?
  cases v.kind <;> simp

namespace Program

theorem hasSize_iff (P : Program) (t : Target) (n : Nat) :
    P.HasSize t n ↔ ∃ w, P.sizeBehind? t = some w ∧ w.toNat = n := by
  constructor
  · intro h
    cases h with
    | given size hsize => exact ⟨size, by rw [sizeBehind?, hsize]; rfl, rfl⟩
    | allocated site count v w elem c size hnone hsite hv hop hw hc hlt hsize htotal =>
      have halloca : P.constAlloca? site = some ⟨elem, c⟩ :=
        (P.constAlloca?_eq_some_iff site ⟨elem, c⟩).mpr
          ⟨v, count, w, hv, hop, hw, (w.const?_eq_some_iff c).mpr hc⟩
      have htoNat : (UInt64.ofNatLT (c.value * size.toNat) htotal).toNat = c.value * size.toNat :=
        UInt64.toNat_ofNatLT
      refine ⟨UInt64.ofNatLT (c.value * size.toNat) htotal, ?_, htoNat⟩
      rw [sizeBehind?, hnone, hsite]
      change (P.constAlloca? site).bind _ = _
      rw [halloca]
      exact (Allocation.size?_eq_some_iff P.layout ⟨elem, c⟩ _).mpr ⟨hlt, size, hsize, htoNat⟩
  · intro h
    obtain ⟨total, htotal, rfl⟩ := h
    rcases Option.or_eq_some_iff.mp htotal with hsize | ⟨hnone, halloc⟩
    · exact HasSize.given total hsize
    · obtain ⟨site, hsite, halloc⟩ := Option.bind_eq_some_iff.mp halloc
      obtain ⟨⟨elem, c⟩, halloca, hsize⟩ := Option.bind_eq_some_iff.mp halloc
      obtain ⟨v, count, w, hv, hop, hw, hc⟩ := (P.constAlloca?_eq_some_iff site ⟨elem, c⟩).mp halloca
      obtain ⟨hlt, size, hsize, heq⟩ := (Allocation.size?_eq_some_iff P.layout ⟨elem, c⟩ total).mp hsize
      rw [heq]
      exact HasSize.allocated site count v w elem c size hnone hsite hv hop hw
        ((w.const?_eq_some_iff c).mp hc) hlt hsize (heq ▸ total.toNat_lt)

theorem definingProc?_eq_some_iff (P : Program) (id : ValueId) (proc : ProcId) :
    P.definingProc? id = some proc ↔ ∃ v op, P.value? id = some v ∧ v.kind = .instruction proc op := by
  rw [definingProc?, Option.bind_eq_some_iff]
  apply exists_congr
  intro v
  unfold Value.definingProc?
  cases v.kind <;> simp

theorem isAlloca_iff (P : Program) (id : ValueId) : P.isAlloca id = true ↔
    ∃ v proc elem count, P.value? id = some v ∧ v.kind = .instruction proc (.alloca elem count) := by
  rw [isAlloca, Option.any_eq_true]
  apply exists_congr
  intro v
  unfold Value.isAlloca Value.op?
  cases v.kind with
  | instruction proc op => cases op <;> simp
  | _ => simp

theorem ownedBy_iff (P : Program) (facts? : Option PointsTo) (strict : Bool) (t : Target) (proc : ProcId) :
    P.OwnedBy t proc ↔ (Engine.of P facts? strict).owner? t = some proc := by
  simp only [Engine.owner?, Engine.of, Option.or_eq_some_iff, Option.bind_eq_some_iff,
    Option.filter_eq_some_iff, isAlloca_iff, definingProc?_eq_some_iff]
  constructor
  · intro h
    cases h with
    | named howner => exact Or.inl howner
    | allocated site v elem count hnone hsite hv hkind =>
      exact Or.inr ⟨hnone, site, ⟨hsite, v, proc, elem, count, hv, hkind⟩, v, _, hv, hkind⟩
  · intro h
    rcases h with howner | ⟨hnone, site, ⟨hsite, v, user, elem, count, hv, hkind⟩, v', op, hv', hkind'⟩
    · exact OwnedBy.named howner
    · obtain rfl : v = v' := Option.some.inj (hv.symm.trans hv')
      rw [hkind] at hkind'
      cases hkind'
      exact OwnedBy.allocated site v elem count hnone hsite hv hkind

end Program

section Target

variable {P : Program} {facts? : Option PointsTo} {strict : Bool} {v : Value} {n : Word} {t : Target}

theorem Program.HasSize.unique {size size' : Nat} (h : P.HasSize t size) (h' : P.HasSize t size') :
    size = size' := by
  obtain ⟨w, hw, rfl⟩ := (P.hasSize_iff t size).mp h
  obtain ⟨w', hw', rfl⟩ := (P.hasSize_iff t size').mp h'
  rw [Option.some.inj (hw.symm.trans hw')]

/-- More recursion means more memory that is guarded. -/
theorem Program.Guarded.imp {facts'? : Option PointsTo} {strict' : Bool} (h : P.Guarded facts? strict v t)
    (hrec : ∀ p, P.MayRecur facts? strict p → P.MayRecur facts'? strict' p) : P.Guarded facts'? strict' v t := by
  obtain ⟨user, owner, huser, howner, hreason⟩ := h
  exact ⟨user, owner, huser, howner, hreason.imp_right (hrec user)⟩

theorem Program.Bad.not_safe {k : Nat} (hbad : P.Bad facts? strict v k t) : ¬P.Safe facts? strict v k t := by
  intro hsafe
  obtain ⟨hnull, hunknown, hinvalidated, ⟨offset, size, hoffset, hsize, hle⟩, hguard⟩ := hsafe
  cases hbad with
  | null h => rw [hnull] at h; cases h
  | unknown h => rw [hunknown] at h; cases h
  | invalidated h => rw [hinvalidated] at h; cases h
  | sizeless _ _ hnone => exact hnone size hsize
  | beyond offset' size' hoffset' hsize' hlt =>
    obtain rfl : offset = offset' := Offset.known.inj (hoffset.symm.trans hoffset')
    obtain rfl := hsize.unique hsize'
    omega
  | guarded _ _ h => exact hguard h

theorem Program.Bad.not_open {k : Nat} (hbad : P.Bad facts? strict v k t) : ¬t.Open := by
  intro hopen
  obtain ⟨hnull, hunknown, hinvalidated, hoffset⟩ := hopen
  cases hbad with
  | null h => rw [hnull] at h; cases h
  | unknown h => rw [hunknown] at h; cases h
  | invalidated h => rw [hinvalidated] at h; cases h
  | sizeless _ h _ | beyond _ _ h _ _ | guarded _ h _ => rw [hoffset] at h; cases h

variable (P facts? strict v n t) in
theorem bad_or_safe_or_open :
    P.Bad facts? strict v n.toNat t ∨ P.Safe facts? strict v n.toNat t ∨ t.Open := by
  by_cases hnull : t.isNull = true
  · exact Or.inl (Program.Bad.null hnull)
  by_cases hunknown : t.isUnknown = true
  · exact Or.inl (Program.Bad.unknown hunknown)
  by_cases hinvalidated : t.isInvalidated = true
  · exact Or.inl (Program.Bad.invalidated hinvalidated)
  rw [Bool.not_eq_true] at hnull hunknown hinvalidated
  cases hoffset : t.offset with
  | unknown => exact Or.inr (Or.inr ⟨hnull, hunknown, hinvalidated, hoffset⟩)
  | known offset =>
    by_cases hguard : P.Guarded facts? strict v t
    · exact Or.inl (Program.Bad.guarded offset hoffset hguard)
    by_cases hsize : ∃ size, P.HasSize t size
    · obtain ⟨size, hsize⟩ := hsize
      rcases Nat.lt_or_ge size (offset.toNat + n.toNat) with hlt | hle
      · exact Or.inl (Program.Bad.beyond offset size hoffset hsize hlt)
      · exact Or.inr (Or.inl ⟨hnull, hunknown, hinvalidated, ⟨offset, size, hoffset, hsize, hle⟩, hguard⟩)
    · exact Or.inl (Program.Bad.sizeless offset hoffset fun size h => hsize ⟨size, h⟩)

theorem any_inBounds_iff (offset : Word) :
    (P.sizeBehind? t).any (Engine.inBounds offset n) = true ↔
      ∃ size, P.HasSize t size ∧ offset.toNat + n.toNat ≤ size := by
  simp only [Option.any_eq_true, Engine.inBounds_iff, P.hasSize_iff]
  constructor
  · intro h
    obtain ⟨w, hw, hle⟩ := h
    exact ⟨w.toNat, ⟨w, hw, rfl⟩, hle⟩
  · intro h
    obtain ⟨size, ⟨w, hw, rfl⟩, hle⟩ := h
    exact ⟨w, hw, hle⟩

theorem accessVerdict_eq_unknown_iff :
    (Engine.of P facts? strict).accessVerdict v n t = .unknown ↔ t.Open := by
  constructor
  · intro h
    unfold Engine.accessVerdict at h
    split at h
    · cases h
    · rename_i hlive
      simp only [Bool.or_eq_true, not_or, Bool.not_eq_true] at hlive
      obtain ⟨⟨hnull, hunknown⟩, hinvalidated⟩ := hlive
      cases hoffset : t.offset with
      | unknown => exact ⟨hnull, hunknown, hinvalidated, hoffset⟩
      | known offset =>
        rw [hoffset] at h
        exact absurd h (Verdict.ofBool_ne_unknown _)
  · intro hopen
    simp [Engine.accessVerdict, hopen.not_null, hopen.not_unknown, hopen.not_invalidated,
      hopen.offset_unknown]

variable (hP : P.WellFormed)

include hP

theorem guard_iff_not_guarded : (Engine.of P facts? strict).guard v t = true ↔ ¬P.Guarded facts? strict v t := by
  have hrec : ∀ user, (Engine.of P facts? strict).callGraph.isRecursive user = true ↔
      P.MayRecur facts? strict user := hP.isRecursive_callGraph_iff facts? strict
  simp only [Program.Guarded, P.ownedBy_iff facts? strict, ← hrec, Engine.guard]
  cases v.enclosingProc? with
  | none => simp
  | some user => cases (Engine.of P facts? strict).owner? t <;> simp

theorem accessVerdict_eq_yes_iff :
    (Engine.of P facts? strict).accessVerdict v n t = .yes ↔ P.Safe facts? strict v n.toNat t := by
  unfold Engine.accessVerdict
  split
  · rename_i hdead
    constructor
    · exact fun h => absurd h (by decide)
    · intro hsafe
      simp [hsafe.not_null, hsafe.not_unknown, hsafe.not_invalidated] at hdead
  · rename_i hlive
    simp only [Bool.or_eq_true, not_or, Bool.not_eq_true] at hlive
    obtain ⟨⟨hnull, hunknown⟩, hinvalidated⟩ := hlive
    cases hoffset : t.offset with
    | unknown =>
      constructor
      · intro h
        cases h
      · intro hsafe
        obtain ⟨offset, _, hknown, _⟩ := hsafe.within
        rw [hoffset] at hknown
        cases hknown
    | known offset =>
      rw [Verdict.ofBool_eq_yes_iff, Bool.and_eq_true, guard_iff_not_guarded hP]
      change (P.sizeBehind? t).any _ = true ∧ _ ↔ _
      rw [any_inBounds_iff]
      constructor
      · intro h
        obtain ⟨⟨size, hsize, hle⟩, hguard⟩ := h
        exact ⟨hnull, hunknown, hinvalidated, ⟨offset, size, hoffset, hsize, hle⟩, hguard⟩
      · intro hsafe
        obtain ⟨offset', size, hknown, hsize, hle⟩ := hsafe.within
        obtain rfl : offset = offset' := Offset.known.inj (hoffset.symm.trans hknown)
        exact ⟨⟨size, hsize, hle⟩, hsafe.not_guarded⟩

theorem accessVerdict_eq_no_iff :
    (Engine.of P facts? strict).accessVerdict v n t = .no ↔ P.Bad facts? strict v n.toNat t := by
  constructor
  · intro hno
    rcases bad_or_safe_or_open P facts? strict v n t with hbad | hsafe | hopen
    · exact hbad
    · rw [(accessVerdict_eq_yes_iff hP).mpr hsafe] at hno
      cases hno
    · rw [accessVerdict_eq_unknown_iff.mpr hopen] at hno
      cases hno
  · intro hbad
    cases hverdict : (Engine.of P facts? strict).accessVerdict v n t with
    | no => rfl
    | yes => exact absurd ((accessVerdict_eq_yes_iff hP).mp hverdict) hbad.not_safe
    | unknown => exact absurd (accessVerdict_eq_unknown_iff.mp hverdict) hbad.not_open

variable {set : TargetSet}

theorem worst_eq_no_iff_bad :
    Verdict.worst (set.toList.map ((Engine.of P facts? strict).accessVerdict v n)) = .no ↔
      ∃ t ∈ set, P.Bad facts? strict v n.toNat t := by
  simp only [Verdict.worst_eq_no_iff, List.mem_map, Std.ExtTreeSet.mem_toList, accessVerdict_eq_no_iff hP]

theorem worst_eq_yes_iff_safe :
    Verdict.worst (set.toList.map ((Engine.of P facts? strict).accessVerdict v n)) = .yes ↔
      ∀ t ∈ set, P.Safe facts? strict v n.toNat t := by
  simp only [Verdict.worst_eq_yes_iff, List.forall_mem_map, Std.ExtTreeSet.mem_toList,
    accessVerdict_eq_yes_iff hP]

theorem worst_eq_unknown_iff_open :
    Verdict.worst (set.toList.map ((Engine.of P facts? strict).accessVerdict v n)) = .unknown ↔
      (∀ t ∈ set, ¬P.Bad facts? strict v n.toNat t) ∧ ∃ t ∈ set, t.offset = .unknown := by
  have hno : Verdict.worst (set.toList.map ((Engine.of P facts? strict).accessVerdict v n)) = .no ↔
      ∃ t ∈ set, P.Bad facts? strict v n.toNat t := worst_eq_no_iff_bad hP
  have hyes : Verdict.worst (set.toList.map ((Engine.of P facts? strict).accessVerdict v n)) = .yes ↔
      ∀ t ∈ set, P.Safe facts? strict v n.toNat t := worst_eq_yes_iff_safe hP
  constructor
  · intro hunknown
    rw [hunknown] at hno hyes
    have hgood : ∀ t ∈ set, ¬P.Bad facts? strict v n.toNat t := by
      intro t ht hbad
      have h := hno.mpr ⟨t, ht, hbad⟩
      cases h
    refine ⟨hgood, ?_⟩
    apply Classical.byContradiction
    intro hknown
    have h : Verdict.unknown = .yes := by
      apply hyes.mpr
      intro t ht
      rcases bad_or_safe_or_open P facts? strict v n t with hbad | hsafe | hopen
      · exact absurd hbad (hgood t ht)
      · exact hsafe
      · exact absurd ⟨t, ht, hopen.offset_unknown⟩ hknown
    cases h
  · intro h
    obtain ⟨hgood, t, ht, hoffset⟩ := h
    cases hverdict : Verdict.worst (set.toList.map ((Engine.of P facts? strict).accessVerdict v n)) with
    | unknown => rfl
    | no =>
      obtain ⟨t', ht', hbad⟩ := hno.mp hverdict
      exact absurd hbad (hgood t' ht')
    | yes =>
      obtain ⟨offset, _, hknown, _⟩ := (hyes.mp hverdict t ht).within
      rw [hoffset] at hknown
      cases hknown

end Target

theorem saturated_lt_iff (c : IntConst) (m : Word) : c.saturated < m ↔ c.value < m.toNat := by
  have hm := m.toNat_lt_size
  rw [UInt64.lt_iff_toNat_lt, c.saturated_toNat]
  omega

theorem Program.lengthOf?_eq_some_iff (P : Program) (w : Value) (n : Word) :
    P.lengthOf? w = some n ↔
      ∃ c, w.kind = .const c ∧ c.value = n.toNat ∧ c.value < P.layout.nativeMax.toNat := by
  simp only [lengthOf?, Option.bind_eq_some_iff, Option.ite_none_right_eq_some, Option.some.injEq,
    w.const?_eq_some_iff, saturated_lt_iff]
  apply exists_congr
  intro c
  have hexact (hlt : c.value < P.layout.nativeMax.toNat) : c.saturated.toNat = c.value := by
    have hmax := P.layout.nativeMax.toNat_lt_size
    rw [c.saturated_toNat]
    omega
  constructor
  · intro h
    obtain ⟨hc, hlt, rfl⟩ := h
    exact ⟨hc, (hexact hlt).symm, hlt⟩
  · intro h
    obtain ⟨hc, hn, hlt⟩ := h
    exact ⟨hc, hlt, UInt64.toNat_inj.mp ((hexact hlt).trans hn)⟩

/-- What holds of a constant below the largest number of pointer width holds of the length that it gives. -/
theorem Program.exists_length_iff (P : Program) (w : Value) (p : Nat → Prop) :
    (∃ c, w.kind = .const c ∧ c.value < P.layout.nativeMax.toNat ∧ p c.value) ↔
      ∃ n, P.lengthOf? w = some n ∧ p n.toNat := by
  constructor
  · intro h
    obtain ⟨c, hc, hlt, hp⟩ := h
    have hword : c.value < UInt64.size := Nat.lt_trans hlt P.layout.nativeMax.toNat_lt_size
    have hn : (UInt64.ofNatLT c.value hword).toNat = c.value := UInt64.toNat_ofNatLT
    refine ⟨UInt64.ofNatLT c.value hword, (P.lengthOf?_eq_some_iff w _).mpr ⟨c, hc, hn.symm, hlt⟩, ?_⟩
    rw [hn]
    exact hp
  · intro h
    obtain ⟨n, hn, hp⟩ := h
    obtain ⟨c, hc, hvalue, hlt⟩ := (P.lengthOf?_eq_some_iff w n).mp hn
    rw [← hvalue] at hp
    exact ⟨c, hc, hlt, hp⟩

/-- The answer is not yes and the same in both readings of recursion, or it is the worst verdict on the targets of a
pointer that has some, for an access of constant length. -/
theorem isValidPointer_cases {P : Program} (hP : P.WellFormed) (facts? : Option PointsTo) (a len : ValueId) :
    (∃ r, r ≠ .ok .yes ∧ ∀ strict, ((Engine.of P facts? strict).isValidPointer a len).outcome = r) ∨
      ∃ v w c n, P.value? a = some v ∧ v.isPointer = true ∧ P.value? len = some w ∧ w.kind = .const c ∧
        0 < c.value ∧ c.value < P.layout.nativeMax.toNat ∧ c.value = n.toNat ∧
        (∃ t, t ∈ targetsOf facts? a) ∧
        ∀ strict, ((Engine.of P facts? strict).isValidPointer a len).outcome =
          .ok (Verdict.worst ((targetsOf facts? a).toList.map ((Engine.of P facts? strict).accessVerdict v n))) := by
  have hstages (strict : Bool) := Engine.outcome_isValidPointer (E := Engine.of P facts? strict) hP a len
  rcases P.accessStages_cases a len with ⟨r, hr, hearly⟩ | ⟨v, w, n, hv, hptr, hw, hlen, hn0, haccess⟩
  · exact Or.inl ⟨r, hr, fun strict => (hstages strict).trans (hearly _)⟩
  · have hanswer (strict : Bool) := (hstages strict).trans (haccess _)
    obtain ⟨c, hc, hn, hmax⟩ := (P.lengthOf?_eq_some_iff w n).mp hlen
    have hpos : 0 < c.value := by
      apply Nat.pos_of_ne_zero
      intro hzero
      exact hn0 (UInt64.toNat_inj.mp (hn.symm.trans hzero))
    cases facts? with
    | none =>
      refine Or.inl ⟨.error .factsMissing, nofun, fun strict => ?_⟩
      rw [hanswer]
      rfl
    | some facts =>
      by_cases hne : ∃ t, t ∈ targetsOf (some facts) a
      · refine Or.inr ⟨v, w, c, n, hv, hptr, hw, hc, hpos, hmax, hn, hne, fun strict => ?_⟩
        rw [hanswer, Engine.targets?_eq_some rfl hne]
        rfl
      · refine Or.inl ⟨.ok .unknown, by decide, fun strict => ?_⟩
        rw [hanswer, Engine.targets?_eq_none rfl (not_exists.mp hne)]
        rfl

/-- An access of constant length is not valid if one of the targets is bad. -/
theorem isValidPointer_eq_no {P : Program} (hP : P.WellFormed) {facts : PointsTo} {strict : Bool} {a len : ValueId}
    {v w : Value} {c : IntConst} (hv : P.value? a = some v) (hptr : v.isPointer = true)
    (hw : P.value? len = some w) (hc : w.kind = .const c) (hpos : 0 < c.value)
    (hmax : c.value < P.layout.nativeMax.toNat)
    (hbad : ∃ t ∈ targetsOf (some facts) a, P.Bad (some facts) strict v c.value t) :
    ((Engine.of P (some facts) strict).isValidPointer a len).outcome = .ok .no := by
  obtain ⟨n, hlen, hn⟩ := (P.exists_length_iff w (· = c.value)).mp ⟨c, hc, hmax, rfl⟩
  have hn0 : n ≠ 0 := by
    rintro rfl
    change 0 = c.value at hn
    omega
  have htargets : (Engine.of P (some facts) strict).targets? a = .ok (some (targetsOf (some facts) a)) :=
    Engine.targets?_eq_some rfl (hbad.imp fun _ h => h.1)
  rw [Engine.outcome_isValidPointer_of_targets hP len htargets]
  refine (Program.accessStages_eq _ hv hptr hw hlen hn0).trans (congrArg Except.ok ?_)
  rw [worst_eq_no_iff_bad hP, hn]
  exact hbad

/-- The verdict on an access of constant length through a pointer with targets: no if one of them is bad, yes if
all of them are safe, and unknown if none is bad but the offset of one is not known. -/
theorem isValidPointer_exact (P : Program) (hP : P.Built) (facts : PointsTo) (strict : Bool)
    (a len : ValueId) (v w : Value) (c : IntConst) (set : TargetSet)
    (hv : P.value? a = some v) (hptr : v.isPointer = true)
    (hw : P.value? len = some w) (hc : w.kind = .const c)
    (hpos : 0 < c.value) (hmax : c.value < P.layout.nativeMax.toNat)
    (hset : facts a = some set) (hne : ∃ t, t ∈ set) :
    ∃ E verdict, (Engine.build P (some facts) strict).outcome = .ok E ∧
      (E.isValidPointer a len).outcome = .ok verdict ∧
      (verdict = .no ↔ ∃ t ∈ set, P.Bad (some facts) strict v c.value t) ∧
      (verdict = .unknown ↔ (∀ t ∈ set, ¬P.Bad (some facts) strict v c.value t) ∧
        ∃ t ∈ set, t.offset = .unknown) ∧
      (verdict = .yes ↔ ∀ t ∈ set, P.Safe (some facts) strict v c.value t) := by
  have hwf := hP.wellFormed
  have hword : c.value < UInt64.size := Nat.lt_trans hmax P.layout.nativeMax.toNat_lt_size
  let n : Word := UInt64.ofNatLT c.value hword
  have hn : n.toNat = c.value := UInt64.toNat_ofNatLT
  have hlen : P.lengthOf? w = some n := (P.lengthOf?_eq_some_iff w n).mpr ⟨c, hc, hn.symm, hmax⟩
  have hn0 : n ≠ 0 := by
    intro h
    rw [h] at hn
    change 0 = c.value at hn
    omega
  let E := Engine.of P (some facts) strict
  have hfacts : targetsOf (some facts) a = set := by simp [targetsOf, hset]
  have htargets : E.targets? a = .ok (some set) := by
    rw [← hfacts] at hne ⊢
    exact Engine.targets?_eq_some rfl hne
  have hanswer : (E.isValidPointer a len).outcome =
      .ok (Verdict.worst (set.toList.map (E.accessVerdict v n))) := by
    rw [Engine.outcome_isValidPointer_of_targets hwf len htargets]
    exact Program.accessStages_eq _ hv hptr hw hlen hn0
  refine ⟨E, _, Engine.outcome_build hwf (some facts) strict, hanswer, ?_, ?_, ?_⟩
  · rw [← hn]
    exact worst_eq_no_iff_bad hwf
  · rw [← hn]
    exact worst_eq_unknown_iff_open hwf
  · rw [← hn]
    exact worst_eq_yes_iff_safe hwf

/-- `fill` has a buffer of sixteen bytes and a pointer into it. -/
def bufferAdditions : List Addition :=
  [.procedure "fill", .constInt 16 64, .alloca 1 "buf" (.int 8) 2, .constInt 10 64, .gep 1 "p" 3 4]

def bufferProgram : Program :=
  ((Draft.empty "buffer" .standard).addAll bufferAdditions).build.value

def bufferTarget : Target :=
  .atSite 3 (.known 4) none none

def bufferFacts : PointsTo := fun a =>
  if a = 5 then some (Std.ExtTreeSet.ofList [bufferTarget]) else none

/-- Ten bytes at the offset four stay in the buffer. -/
theorem isValidPointer_exact_buffer : bufferProgram.Built ∧ bufferProgram.Safe (some bufferFacts) true
    ⟨5, "p", .ptr, .instruction 1 (.gep 3 4)⟩ 10 bufferTarget := by
  have hP : bufferProgram.Built := ⟨"buffer", .standard, bufferAdditions, rfl⟩
  have hmem : bufferTarget ∈ (Std.ExtTreeSet.ofList [bufferTarget] : TargetSet) := by simp
  obtain ⟨E, verdict, hE, hverdict, _, _, hyes⟩ := isValidPointer_exact bufferProgram hP bufferFacts true
    5 4 ⟨5, "p", .ptr, .instruction 1 (.gep 3 4)⟩ ⟨4, "", .int 64, .const (IntConst.ofNat 64 10)⟩
    (IntConst.ofNat 64 10) (Std.ExtTreeSet.ofList [bufferTarget]) (by decide +kernel) rfl
    (by decide +kernel) rfl (by decide +kernel) (by decide +kernel) rfl ⟨bufferTarget, hmem⟩
  have hrun : ((Engine.build bufferProgram (some bufferFacts) true).outcome >>= fun E =>
      (E.isValidPointer 5 4).outcome) = .ok .yes := by decide +kernel
  rw [hE] at hrun
  have hanswer : verdict = .yes := Except.ok.inj (hverdict.symm.trans hrun)
  exact ⟨hP, hyes.mp hanswer bufferTarget hmem⟩

end PointerQuery

import PointerQuery.Proofs.AdditionSteps

/-!
Drafts stay well formed: the look-ups that an analysis makes in a program that was put together by additions
find what they look for. One accepted addition is described by two equations, for the values and for the
procedures; the invariant is derived from them and carried over a run of additions by induction.
-/

namespace PointerQuery

namespace Program

/-- A value that stands for the address of a procedure. -/
def IsFunction (P : Program) (id : ValueId) : Prop :=
  ∃ v, P.value? id = some v ∧ v.kind = .function

structure WellFormed (P : Program) : Prop where
  /-- A procedure is entered under its own number. -/
  procedure_id : ∀ id p, P.procedure? id = some p → p.id = id
  /-- The procedures are the function values. -/
  procedure_iff : ∀ id, (∃ p, P.procedure? id = some p) ↔ P.IsFunction id
  operand_known : ∀ id v op, P.value? id = some v → v.op? = some op →
    ∀ o ∈ op.operands, ∃ w, P.value? o = some w
  /-- The body of a procedure consists of the instructions that name it. -/
  mem_insts_iff : ∀ id p, P.procedure? id = some p → ∀ i, i ∈ p.insts ↔
    ∃ v op, P.value? i = some v ∧ v.kind = .instruction id op
  inst_proc_known : ∀ i v proc op, P.value? i = some v → v.kind = .instruction proc op →
    ∃ p, P.procedure? proc = some p

end Program

theorem Value.kind_of_op? {v : Value} {op : Operation} (h : v.op? = some op) :
    ∃ proc, v.kind = .instruction proc op := by
  unfold Value.op? at h
  split at h
  · rename_i proc op' hkind
    cases h
    exact ⟨proc, hkind⟩
  · cases h

namespace Draft

structure WellFormed (d : Draft) : Prop where
  program : d.program.WellFormed
  /-- The numbers from the next one on are free. -/
  value_lt : ∀ id v, d.program.value? id = some v → id < d.nextId

/-- The value that an addition enters. -/
def newValue (d : Draft) : Addition → Value
  | .procedure name | .declaration name => ⟨d.nextId, name, .ptr, .function⟩
  | .argument proc name ty => ⟨d.nextId, name, ty, .argument proc (d.numArgs proc)⟩
  | .global name => ⟨d.nextId, name, .ptr, .global⟩
  | .const c => ⟨d.nextId, "", .int (UInt32.ofNat c.width), .const c⟩
  | .null => ⟨d.nextId, "null", .ptr, .null⟩
  | .instruction proc name ty op => ⟨d.nextId, name, ty, .instruction proc op⟩

/-- The procedure that an addition enters, if it is one of a procedure. -/
def newProcedure? (d : Draft) : Addition → Option Procedure
  | .procedure name => some { id := d.nextId, name, isDeclaration := false }
  | .declaration name => some { id := d.nextId, name, isDeclaration := true }
  | _ => none

/-- What an addition makes of the procedure that is there under a number. -/
def grown (d : Draft) (id : ProcId) (p : Procedure) : Addition → Procedure
  | .argument proc _ _ => if proc = id then { p with args := p.args ++ [d.nextId] } else p
  | .instruction proc _ _ _ => if proc = id then { p with insts := p.insts ++ [d.nextId] } else p
  | _ => p

@[simp]
theorem procedure?_push (d : Draft) (name : String) (ty : Ty) (kind : ValueKind) (id : ProcId) :
    (d.push name ty kind).program.procedure? id = d.program.procedure? id := rfl

theorem value?_push (d : Draft) (name : String) (ty : Ty) (kind : ValueKind) (id : ValueId) :
    (d.push name ty kind).program.value? id =
      if d.nextId = id then some ⟨d.nextId, name, ty, kind⟩ else d.program.value? id := by
  simp only [push, Program.value?, Std.ExtTreeMap.getElem?_insert, Std.compare_eq_iff_eq]

theorem procedure?_putProcedure (d : Draft) (p : Procedure) (id : ProcId) :
    (d.putProcedure p).program.procedure? id = if p.id = id then some p else d.program.procedure? id := by
  simp only [putProcedure, Program.procedure?, Std.ExtTreeMap.getElem?_insert, Std.compare_eq_iff_eq]

theorem procedure?_modifyProcedure (d : Draft) (proc : ProcId) (f : Procedure → Procedure) (id : ProcId) :
    (d.modifyProcedure proc f).program.procedure? id =
      (d.program.procedure? id).map fun p => if proc = id then f p else p := by
  simp only [modifyProcedure, Program.procedure?, Std.ExtTreeMap.getElem?_modify, Std.compare_eq_iff_eq]
  split <;> simp_all

theorem value?_extend (d : Draft) (a : Addition) (id : ValueId) :
    (d.extend a).program.value? id =
      if d.nextId = id then some (d.newValue a) else d.program.value? id := by
  cases a <;> exact value?_push ..

theorem procedure?_extend (d : Draft) (a : Addition) (id : ProcId) :
    (d.extend a).program.procedure? id = ((d.newProcedure? a).filter fun p => p.id = id).or
      ((d.program.procedure? id).map (d.grown id · a)) := by
  cases a with
  | procedure name | declaration name =>
    rw [extend, procedure?_putProcedure]
    by_cases h : d.nextId = id <;> simp [newProcedure?, grown, Option.filter, h]
  | argument proc name ty | instruction proc name ty op =>
    rw [extend, procedure?_modifyProcedure]
    rfl
  | global | const | null => simp [extend, newProcedure?, grown]

theorem newProcedure?_eq_some (d : Draft) (a : Addition) {p : Procedure} (h : d.newProcedure? a = some p) :
    p.id = d.nextId ∧ p.insts = [] ∧ (d.newValue a).kind = .function := by
  cases a <;> simp only [newProcedure?, reduceCtorEq, Option.some.injEq] at h
  all_goals
    subst h
    exact ⟨rfl, rfl, rfl⟩

theorem newProcedure?_of_function (d : Draft) (a : Addition) (h : (d.newValue a).kind = .function) :
    ∃ p, d.newProcedure? a = some p ∧ p.id = d.nextId := by
  cases a <;> simp only [newValue, reduceCtorEq] at h
  all_goals exact ⟨_, rfl, rfl⟩

@[simp]
theorem grown_id (d : Draft) (id : ProcId) (p : Procedure) (a : Addition) : (d.grown id p a).id = p.id := by
  cases a <;> simp only [grown] <;> split <;> rfl

theorem mem_insts_grown (d : Draft) (id : ProcId) (p : Procedure) (a : Addition) (i : ValueId) :
    i ∈ (d.grown id p a).insts ↔
      i ∈ p.insts ∨ i = d.nextId ∧ ∃ op, (d.newValue a).kind = .instruction id op := by
  cases a with
  | instruction proc name ty op =>
    by_cases h : proc = id <;> simp [grown, newValue, h]
  | argument proc name ty =>
    by_cases h : proc = id <;> simp [grown, newValue, h]
  | _ => simp [grown, newValue]

/-- An instruction is accepted only with known operands and in a known procedure. -/
theorem known_of_accepted (d : Draft) (a : Addition) (h : d.refusal? a = none) {proc : ProcId}
    {op : Operation} (hkind : (d.newValue a).kind = .instruction proc op) :
    (∀ o ∈ op.operands, ∃ w, d.program.value? o = some w) ∧ ∃ p, d.program.procedure? proc = some p := by
  cases a <;> simp only [newValue, reduceCtorEq, ValueKind.instruction.injEq] at hkind
  obtain ⟨rfl, rfl⟩ := hkind
  rename_i proc name ty op
  simp only [refusal?] at h
  split at h
  · exact absurd h (by simp)
  · rename_i hfind
    constructor
    · intro o ho
      have hmem : d.program.values.contains o = true := by
        simpa using List.find?_eq_none.mp hfind o ho
      rw [Std.ExtTreeMap.contains_eq_isSome_getElem?] at hmem
      exact Option.isSome_iff_exists.mp hmem
    · split at h
      · exact absurd h (by simp)
      · rename_i p hp
        exact ⟨p, hp⟩

theorem value?_extend_nextId (d : Draft) (a : Addition) :
    (d.extend a).program.value? d.nextId = some (d.newValue a) := by
  rw [value?_extend, if_pos rfl]

/-- A value of the larger draft is the new one or was there before. -/
theorem value?_extend_cases (d : Draft) (a : Addition) {id : ValueId} {v : Value}
    (h : (d.extend a).program.value? id = some v) :
    (id = d.nextId ∧ v = d.newValue a) ∨ d.program.value? id = some v := by
  rw [value?_extend] at h
  split at h
  · rename_i hid
    exact Or.inl ⟨hid.symm, (Option.some.inj h).symm⟩
  · exact Or.inr h

/-- A procedure of the larger draft is the new one or was there before. -/
theorem procedure?_extend_cases (d : Draft) (a : Addition) {id : ProcId} {p : Procedure}
    (h : (d.extend a).program.procedure? id = some p) :
    (id = d.nextId ∧ d.newProcedure? a = some p) ∨
      ∃ q, d.program.procedure? id = some q ∧ p = d.grown id q a := by
  rw [procedure?_extend, Option.or_eq_some_iff] at h
  rcases h with h | ⟨_, h⟩
  · obtain ⟨hnew, hid⟩ := Option.filter_eq_some_iff.mp h
    refine Or.inl ⟨?_, hnew⟩
    rw [← (d.newProcedure?_eq_some a hnew).1]
    exact (of_decide_eq_true hid).symm
  · obtain ⟨q, hq, rfl⟩ := Option.map_eq_some_iff.mp h
    exact Or.inr ⟨q, hq, rfl⟩

theorem wellFormed_empty (name : String) (layout : Layout) : (empty name layout).WellFormed := by
  have hvalue : ∀ id, (empty name layout).program.value? id = none := fun _ => Std.ExtTreeMap.getElem?_empty
  have hproc : ∀ id, (empty name layout).program.procedure? id = none := fun _ =>
    Std.ExtTreeMap.getElem?_empty
  refine ⟨⟨?_, ?_, ?_, ?_, ?_⟩, ?_⟩ <;> simp [hvalue, hproc, Program.IsFunction]

section Step

variable {d : Draft} (hd : d.WellFormed) (a : Addition)

include hd

theorem WellFormed.value?_nextId : d.program.value? d.nextId = none := by
  cases hv : d.program.value? d.nextId with
  | none => rfl
  | some v => exact absurd (hd.value_lt d.nextId v hv) (Nat.lt_irrefl _)

theorem WellFormed.procedure?_nextId : d.program.procedure? d.nextId = none := by
  cases hp : d.program.procedure? d.nextId with
  | none => rfl
  | some p =>
    obtain ⟨v, hv, _⟩ := (hd.program.procedure_iff d.nextId).mp ⟨p, hp⟩
    rw [hd.value?_nextId] at hv
    cases hv

/-- Values that are there stay as they are. -/
theorem WellFormed.value?_extend_of_some {id : ValueId} {v : Value} (h : d.program.value? id = some v) :
    (d.extend a).program.value? id = some v := by
  have hne : d.nextId ≠ id := (Nat.ne_of_lt (hd.value_lt id v h)).symm
  rw [value?_extend, if_neg hne, h]

/-- Procedures that are there stay, as the addition makes them. -/
theorem WellFormed.procedure?_extend_of_some {id : ProcId} {p : Procedure}
    (h : d.program.procedure? id = some p) :
    (d.extend a).program.procedure? id = some (d.grown id p a) := by
  have hne : d.nextId ≠ id := by
    rintro rfl
    rw [hd.procedure?_nextId] at h
    cases h
  have hnew : (d.newProcedure? a).filter (fun q => q.id = id) = none := by
    rw [Option.filter_eq_none_iff]
    intro q hq
    simpa [(d.newProcedure?_eq_some a hq).1] using hne
  rw [procedure?_extend, hnew, h]
  rfl

theorem WellFormed.isFunction_extend_iff (id : ValueId) :
    (d.extend a).program.IsFunction id ↔
      d.program.IsFunction id ∨ id = d.nextId ∧ (d.newValue a).kind = .function := by
  constructor
  · intro h
    obtain ⟨v, hv, hkind⟩ := h
    rcases d.value?_extend_cases a hv with ⟨rfl, rfl⟩ | hv
    · exact Or.inr ⟨rfl, hkind⟩
    · exact Or.inl ⟨v, hv, hkind⟩
  · intro h
    rcases h with ⟨v, hv, hkind⟩ | ⟨rfl, hkind⟩
    · exact ⟨v, hd.value?_extend_of_some a hv, hkind⟩
    · exact ⟨d.newValue a, d.value?_extend_nextId a, hkind⟩

theorem WellFormed.procedure_iff_extend (id : ProcId) :
    (∃ p, (d.extend a).program.procedure? id = some p) ↔ (d.extend a).program.IsFunction id := by
  rw [hd.isFunction_extend_iff]
  constructor
  · intro h
    obtain ⟨p, hp⟩ := h
    rcases d.procedure?_extend_cases a hp with ⟨rfl, hnew⟩ | ⟨q, hq, _⟩
    · exact Or.inr ⟨rfl, (d.newProcedure?_eq_some a hnew).2.2⟩
    · exact Or.inl ((hd.program.procedure_iff id).mp ⟨q, hq⟩)
  · intro h
    rcases h with hold | ⟨rfl, hkind⟩
    · obtain ⟨q, hq⟩ := (hd.program.procedure_iff id).mpr hold
      exact ⟨d.grown id q a, hd.procedure?_extend_of_some a hq⟩
    · obtain ⟨p, hp, hid⟩ := d.newProcedure?_of_function a hkind
      refine ⟨p, ?_⟩
      rw [procedure?_extend, hp]
      simp [Option.filter, hid]

theorem WellFormed.mem_insts_iff_extend {id : ProcId} {p : Procedure}
    (hp : (d.extend a).program.procedure? id = some p) (i : ValueId) :
    i ∈ p.insts ↔ ∃ v op, (d.extend a).program.value? i = some v ∧ v.kind = .instruction id op := by
  rcases d.procedure?_extend_cases a hp with ⟨rfl, hnew⟩ | ⟨q, hq, rfl⟩
  · obtain ⟨_, hinsts, hfun⟩ := d.newProcedure?_eq_some a hnew
    rw [hinsts]
    constructor
    · exact fun hi => absurd hi List.not_mem_nil
    · intro h
      obtain ⟨v, op, hv, hkind⟩ := h
      rcases d.value?_extend_cases a hv with ⟨rfl, rfl⟩ | hv
      · rw [hfun] at hkind
        cases hkind
      · obtain ⟨r, hr⟩ := hd.program.inst_proc_known i v _ op hv hkind
        rw [hd.procedure?_nextId] at hr
        cases hr
  · rw [mem_insts_grown, hd.program.mem_insts_iff id q hq]
    constructor
    · intro h
      rcases h with ⟨v, op, hv, hkind⟩ | ⟨rfl, op, hkind⟩
      · exact ⟨v, op, hd.value?_extend_of_some a hv, hkind⟩
      · exact ⟨d.newValue a, op, d.value?_extend_nextId a, hkind⟩
    · intro h
      obtain ⟨v, op, hv, hkind⟩ := h
      rcases d.value?_extend_cases a hv with ⟨rfl, rfl⟩ | hv
      · exact Or.inr ⟨rfl, op, hkind⟩
      · exact Or.inl ⟨v, op, hv, hkind⟩

theorem WellFormed.extend (ha : d.refusal? a = none) : (d.extend a).WellFormed := by
  refine ⟨⟨?_, hd.procedure_iff_extend a, ?_, fun id p hp => hd.mem_insts_iff_extend a hp, ?_⟩, ?_⟩
  · intro id p hp
    rcases d.procedure?_extend_cases a hp with ⟨rfl, hnew⟩ | ⟨q, hq, rfl⟩
    · exact (d.newProcedure?_eq_some a hnew).1
    · rw [grown_id, hd.program.procedure_id id q hq]
  · intro id v op hv hop o ho
    have hknown : ∃ w, d.program.value? o = some w := by
      rcases d.value?_extend_cases a hv with ⟨rfl, rfl⟩ | hv
      · obtain ⟨proc, hkind⟩ := Value.kind_of_op? hop
        exact (d.known_of_accepted a ha hkind).1 o ho
      · exact hd.program.operand_known id v op hv hop o ho
    obtain ⟨w, hw⟩ := hknown
    exact ⟨w, hd.value?_extend_of_some a hw⟩
  · intro i v proc op hv hkind
    have hknown : ∃ p, d.program.procedure? proc = some p := by
      rcases d.value?_extend_cases a hv with ⟨rfl, rfl⟩ | hv
      · exact (d.known_of_accepted a ha hkind).2
      · exact hd.program.inst_proc_known i v proc op hv hkind
    obtain ⟨p, hp⟩ := hknown
    exact ⟨d.grown proc p a, hd.procedure?_extend_of_some a hp⟩
  · intro id v hv
    have hnext : (d.extend a).nextId = d.nextId + 1 := by cases a <;> rfl
    rw [hnext]
    rcases d.value?_extend_cases a hv with ⟨rfl, rfl⟩ | hv
    · exact Nat.lt_succ_self _
    · exact Nat.lt_succ_of_lt (hd.value_lt id v hv)

theorem WellFormed.add : (d.add a).2.WellFormed := by
  rcases d.add_cases a with ⟨r, _, hadd⟩ | ⟨ha, hadd⟩
  · rw [hadd]
    exact hd
  · rw [hadd]
    exact hd.extend a ha

end Step

theorem WellFormed.addAll {d : Draft} (hd : d.WellFormed) (additions : List Addition) :
    (d.addAll additions).WellFormed := by
  induction additions generalizing d with
  | nil => exact hd
  | cons a additions ih => exact ih (hd.add a)

end Draft

namespace Program

/-- Programs that come from an empty draft by additions, of which some may have been refused. -/
def Built (P : Program) : Prop :=
  ∃ name layout additions, ((Draft.empty name layout).addAll additions).build.value = P

theorem Built.wellFormed {P : Program} (hP : P.Built) : P.WellFormed := by
  obtain ⟨name, layout, additions, rfl⟩ := hP
  exact ((Draft.wellFormed_empty name layout).addAll additions).program

end Program

end PointerQuery

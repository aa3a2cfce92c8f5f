import PointerQuery.Proofs.WellFormed

namespace PointerQuery

namespace Program

/-- The value is in the body of one procedure, there once, and in no other list of the program. -/
def OnlyInBody (P : Program) (i : ValueId) (proc : ProcId) : Prop :=
  (∃ p, P.procedure? proc = some p ∧ p.insts.count i = 1) ∧
    ∀ id q, P.procedure? id = some q → (id ≠ proc → i ∉ q.insts) ∧ i ∉ q.args

end Program

namespace Draft

structure Consistent (d : Draft) : Prop extends WellFormed d where
  next_pos : 1 ≤ d.nextId
  /-- The numbers in use are those from one up to the next number. -/
  value_iff : ∀ id, (∃ v, d.program.value? id = some v) ↔ 1 ≤ id ∧ id < d.nextId
  value_id : ∀ id v, d.program.value? id = some v → v.id = id
  /-- Instructions read only values with smaller numbers, so that no chain of operands closes. -/
  operand_lt : ∀ id v op, d.program.value? id = some v → v.op? = some op → ∀ o ∈ op.operands, o < id
  insts_ascending : ∀ id p, d.program.procedure? id = some p → p.insts.Pairwise (· < ·)
  declaration_insts : ∀ id p, d.program.procedure? id = some p → p.isDeclaration = true → p.insts = []
  arg_proc_known : ∀ a v proc i, d.program.value? a = some v → v.kind = .argument proc i →
    ∃ p, d.program.procedure? proc = some p
  /-- The argument with the index `i` stands at the position `i`. -/
  args_iff : ∀ id p, d.program.procedure? id = some p → ∀ i a, p.args[i]? = some a ↔
    ∃ v, d.program.value? a = some v ∧ v.kind = .argument id i
  const_ty : ∀ id v c, d.program.value? id = some v → v.kind = .const c →
    ∃ bits : UInt32, v.ty = .int bits ∧ bits.toNat = c.width
  pointer_ty : ∀ id v, d.program.value? id = some v →
    v.kind = .function ∨ v.kind = .global ∨ v.kind = .null → v.ty = .ptr

@[simp]
theorem nextId_extend (d : Draft) (a : Addition) : (d.extend a).nextId = d.nextId + 1 := by
  cases a <;> rfl

@[simp]
theorem newValue_id (d : Draft) (a : Addition) : (d.newValue a).id = d.nextId := by
  cases a <;> rfl

@[simp]
theorem grown_isDeclaration (d : Draft) (id : ProcId) (p : Procedure) (a : Addition) :
    (d.grown id p a).isDeclaration = p.isDeclaration := by
  cases a <;> simp only [grown] <;> split <;> rfl

theorem newProcedure?_args (d : Draft) (a : Addition) {p : Procedure} (h : d.newProcedure? a = some p) :
    p.args = [] := by
  cases a <;> simp only [newProcedure?, reduceCtorEq, Option.some.injEq] at h
  all_goals
    subst h
    rfl

/-- A body grows by the new value at its end, and only if that is an instruction of the procedure. -/
theorem insts_grown (d : Draft) (id : ProcId) (p : Procedure) (a : Addition) :
    (d.grown id p a).insts = p.insts ∨ (d.grown id p a).insts = p.insts ++ [d.nextId] ∧
      ∃ op, (d.newValue a).kind = .instruction id op := by
  cases a with
  | instruction proc name ty op =>
    by_cases h : proc = id
    · exact Or.inr ⟨by simp [grown, h], op, by simp [newValue, h]⟩
    · exact Or.inl (by simp [grown, h])
  | argument proc name ty =>
    by_cases h : proc = id <;> exact Or.inl (by simp [grown, h])
  | _ => exact Or.inl rfl

/-- The new value becomes the last argument if its index says so. -/
theorem getElem?_args_grown (d : Draft) (a : Addition) {id : ProcId} {p : Procedure}
    (hp : d.program.procedure? id = some p) (i : Nat) (x : ValueId) :
    (d.grown id p a).args[i]? = some x ↔
      p.args[i]? = some x ∨ x = d.nextId ∧ (d.newValue a).kind = .argument id i := by
  cases a with
  | argument proc name ty =>
    by_cases h : proc = id
    · have hnum : d.numArgs id = p.args.length := by simp [numArgs, hp]
      simp only [grown, newValue, h, if_true, hnum, ValueKind.argument.injEq, true_and]
      grind
    · simp [grown, newValue, h]
  | instruction proc name ty op =>
    by_cases h : proc = id <;> simp [grown, newValue, h]
  | _ => simp [grown, newValue]

/-- An argument is accepted only for a known procedure. -/
theorem argument_proc_of_accepted (d : Draft) (a : Addition) (h : d.refusal? a = none) {proc : ProcId} {i : Nat}
    (hkind : (d.newValue a).kind = .argument proc i) : ∃ p, d.program.procedure? proc = some p := by
  cases a <;> simp only [newValue, reduceCtorEq, ValueKind.argument.injEq] at hkind
  obtain ⟨rfl, rfl⟩ := hkind
  simp only [refusal?, ite_eq_left_iff, reduceCtorEq, imp_false, Decidable.not_not,
    Std.ExtTreeMap.contains_eq_isSome_getElem?] at h
  exact Option.isSome_iff_exists.mp h

/-- An instruction is accepted only for a procedure with a body. -/
theorem not_declaration_of_accepted (d : Draft) (a : Addition) (h : d.refusal? a = none) {proc : ProcId}
    {op : Operation} (hkind : (d.newValue a).kind = .instruction proc op) {p : Procedure}
    (hp : d.program.procedure? proc = some p) : p.isDeclaration = false := by
  cases a <;> simp only [newValue, reduceCtorEq, ValueKind.instruction.injEq] at hkind
  obtain ⟨rfl, rfl⟩ := hkind
  simp only [refusal?, hp] at h
  split at h
  · cases h
  · simpa using h

/-- A constant is accepted only if its width is one of an integer type. -/
theorem const_ty_of_accepted (d : Draft) (a : Addition) (h : d.refusal? a = none) {c : IntConst}
    (hkind : (d.newValue a).kind = .const c) :
    ∃ bits : UInt32, (d.newValue a).ty = .int bits ∧ bits.toNat = c.width := by
  cases a <;> simp only [newValue, reduceCtorEq, ValueKind.const.injEq] at hkind
  subst hkind
  rename_i c
  have hwidth : c.width < widthLimit := by
    simpa only [refusal?, ite_eq_left_iff, reduceCtorEq, imp_false, Decidable.not_not] using h
  exact ⟨UInt32.ofNat c.width, rfl, UInt32.toNat_ofNat_of_lt' hwidth⟩

theorem pointer_ty_newValue (d : Draft) (a : Addition)
    (h : (d.newValue a).kind = .function ∨ (d.newValue a).kind = .global ∨ (d.newValue a).kind = .null) :
    (d.newValue a).ty = .ptr := by
  cases a with
  | procedure | declaration | global | null => rfl
  | argument | const | instruction => simp [newValue] at h

theorem consistent_empty (name : String) (layout : Layout) : (empty name layout).Consistent := by
  have hvalue : ∀ id, (empty name layout).program.value? id = none := fun _ => Std.ExtTreeMap.getElem?_empty
  have hproc : ∀ id, (empty name layout).program.procedure? id = none := fun _ =>
    Std.ExtTreeMap.getElem?_empty
  have hnext : (empty name layout).nextId = 1 := rfl
  refine ⟨wellFormed_empty name layout, ?_, ?_, ?_, ?_, ?_, ?_, ?_, ?_, ?_, ?_⟩ <;> simp [hvalue, hproc, hnext]
  intro id hid
  exact Nat.ne_of_gt hid

section Step

variable {d : Draft} (hd : d.Consistent) (a : Addition)

include hd

theorem Consistent.value_iff_extend (id : ValueId) :
    (∃ v, (d.extend a).program.value? id = some v) ↔ 1 ≤ id ∧ id < (d.extend a).nextId := by
  rw [nextId_extend, value?_extend]
  split
  · rename_i hid
    subst hid
    simp only [Option.some.injEq, exists_eq', true_iff]
    exact ⟨hd.next_pos, Nat.lt_succ_self _⟩
  · rename_i hid
    rw [hd.value_iff]
    refine and_congr_right fun _ => ⟨Nat.lt_succ_of_lt, fun hlt => ?_⟩
    exact Nat.lt_of_le_of_ne (Nat.le_of_lt_succ hlt) (Ne.symm hid)

theorem Consistent.mem_insts_lt {id : ProcId} {p : Procedure} (hp : d.program.procedure? id = some p)
    {i : ValueId} (hi : i ∈ p.insts) : i < d.nextId := by
  obtain ⟨v, _, hv, _⟩ := (hd.program.mem_insts_iff id p hp i).mp hi
  exact hd.value_lt i v hv

theorem Consistent.insts_ascending_extend {id : ProcId} {p : Procedure}
    (hp : (d.extend a).program.procedure? id = some p) : p.insts.Pairwise (· < ·) := by
  rcases d.procedure?_extend_cases a hp with ⟨_, hnew⟩ | ⟨q, hq, rfl⟩
  · rw [(d.newProcedure?_eq_some a hnew).2.1]
    exact List.Pairwise.nil
  · have hasc := hd.insts_ascending id q hq
    rcases d.insts_grown id q a with hsame | ⟨hgrown, _⟩
    · rw [hsame]
      exact hasc
    · rw [hgrown, List.pairwise_append]
      refine ⟨hasc, List.pairwise_singleton _ _, ?_⟩
      intro i hi j hj
      rw [List.mem_singleton.mp hj]
      exact hd.mem_insts_lt hq hi

theorem Consistent.declaration_insts_extend (ha : d.refusal? a = none) {id : ProcId} {p : Procedure}
    (hp : (d.extend a).program.procedure? id = some p) (hdecl : p.isDeclaration = true) : p.insts = [] := by
  rcases d.procedure?_extend_cases a hp with ⟨_, hnew⟩ | ⟨q, hq, rfl⟩
  · exact (d.newProcedure?_eq_some a hnew).2.1
  · rw [grown_isDeclaration] at hdecl
    rcases d.insts_grown id q a with hsame | ⟨_, op, hkind⟩
    · rw [hsame]
      exact hd.declaration_insts id q hq hdecl
    · rw [d.not_declaration_of_accepted a ha hkind hq] at hdecl
      cases hdecl

theorem Consistent.args_iff_extend {id : ProcId} {p : Procedure}
    (hp : (d.extend a).program.procedure? id = some p) (i : Nat) (x : ValueId) :
    p.args[i]? = some x ↔ ∃ v, (d.extend a).program.value? x = some v ∧ v.kind = .argument id i := by
  rcases d.procedure?_extend_cases a hp with ⟨rfl, hnew⟩ | ⟨q, hq, rfl⟩
  · rw [d.newProcedure?_args a hnew]
    constructor
    · exact fun h => absurd h (by simp)
    · intro h
      obtain ⟨v, hv, hkind⟩ := h
      rcases d.value?_extend_cases a hv with ⟨rfl, rfl⟩ | hv
      · rw [(d.newProcedure?_eq_some a hnew).2.2] at hkind
        cases hkind
      · obtain ⟨r, hr⟩ := hd.arg_proc_known x v _ i hv hkind
        rw [hd.procedure?_nextId] at hr
        cases hr
  · rw [d.getElem?_args_grown a hq, hd.args_iff id q hq]
    constructor
    · intro h
      rcases h with ⟨v, hv, hkind⟩ | ⟨rfl, hkind⟩
      · exact ⟨v, hd.value?_extend_of_some a hv, hkind⟩
      · exact ⟨d.newValue a, d.value?_extend_nextId a, hkind⟩
    · intro h
      obtain ⟨v, hv, hkind⟩ := h
      rcases d.value?_extend_cases a hv with ⟨rfl, rfl⟩ | hv
      · exact Or.inr ⟨rfl, hkind⟩
      · exact Or.inl ⟨v, hv, hkind⟩

theorem Consistent.extend (ha : d.refusal? a = none) : (d.extend a).Consistent where
  toWellFormed := hd.toWellFormed.extend a ha
  next_pos := by
    rw [nextId_extend]
    exact Nat.le_add_left 1 d.nextId
  value_iff := hd.value_iff_extend a
  value_id id v hv := by
    rcases d.value?_extend_cases a hv with ⟨rfl, rfl⟩ | hv
    · exact d.newValue_id a
    · exact hd.value_id id v hv
  operand_lt id v op hv hop o ho := by
    rcases d.value?_extend_cases a hv with ⟨rfl, rfl⟩ | hv
    · obtain ⟨proc, hkind⟩ := Value.kind_of_op? hop
      obtain ⟨w, hw⟩ := (d.known_of_accepted a ha hkind).1 o ho
      exact hd.value_lt o w hw
    · exact hd.operand_lt id v op hv hop o ho
  insts_ascending _ _ hp := hd.insts_ascending_extend a hp
  declaration_insts _ _ hp hdecl := hd.declaration_insts_extend a ha hp hdecl
  arg_proc_known x v proc i hv hkind := by
    have hknown : ∃ p, d.program.procedure? proc = some p := by
      rcases d.value?_extend_cases a hv with ⟨rfl, rfl⟩ | hv
      · exact d.argument_proc_of_accepted a ha hkind
      · exact hd.arg_proc_known x v proc i hv hkind
    obtain ⟨p, hp⟩ := hknown
    exact ⟨d.grown proc p a, hd.procedure?_extend_of_some a hp⟩
  args_iff _ _ hp := hd.args_iff_extend a hp
  const_ty id v c hv hkind := by
    rcases d.value?_extend_cases a hv with ⟨rfl, rfl⟩ | hv
    · exact d.const_ty_of_accepted a ha hkind
    · exact hd.const_ty id v c hv hkind
  pointer_ty id v hv hkind := by
    rcases d.value?_extend_cases a hv with ⟨rfl, rfl⟩ | hv
    · exact d.pointer_ty_newValue a hkind
    · exact hd.pointer_ty id v hv hkind

theorem Consistent.add : (d.add a).2.Consistent := by
  rcases d.add_cases a with ⟨r, _, hadd⟩ | ⟨ha, hadd⟩
  · rw [hadd]
    exact hd
  · rw [hadd]
    exact hd.extend a ha

end Step

theorem Consistent.addAll {d : Draft} (hd : d.Consistent) (additions : List Addition) :
    (d.addAll additions).Consistent := by
  induction additions generalizing d with
  | nil => exact hd
  | cons a additions ih => exact ih (hd.add a)

/-- How many additions of a run are accepted. -/
def numAccepted (d : Draft) : List Addition → Nat
  | [] => 0
  | a :: additions => (d.add a).1.isOk.toNat + (d.add a).2.numAccepted additions

theorem nextId_add (d : Draft) (a : Addition) : (d.add a).2.nextId = d.nextId + (d.add a).1.isOk.toNat := by
  rcases d.add_cases a with ⟨r, _, hadd⟩ | ⟨_, hadd⟩
  · rw [hadd]
    rfl
  · rw [hadd]
    exact d.nextId_extend a

theorem nextId_addAll (d : Draft) (additions : List Addition) :
    (d.addAll additions).nextId = d.nextId + d.numAccepted additions := by
  induction additions generalizing d with
  | nil => rfl
  | cons a additions ih =>
    calc
      ((d.add a).2.addAll additions).nextId = (d.add a).2.nextId + (d.add a).2.numAccepted additions := ih _
      _ = d.nextId + (d.add a).1.isOk.toNat + (d.add a).2.numAccepted additions := by rw [nextId_add]
      _ = d.nextId + d.numAccepted (a :: additions) := Nat.add_assoc ..

theorem numAccepted_le_length (d : Draft) (additions : List Addition) : d.numAccepted additions ≤ additions.length := by
  induction additions generalizing d with
  | nil => exact Nat.le_refl 0
  | cons a additions ih =>
    have hfirst := (d.add a).1.isOk.toNat_le
    have hrest := ih (d.add a).2
    rw [numAccepted, List.length_cons]
    omega

theorem add_of_refused {d : Draft} {a : Addition} {r : Refusal} (h : (d.add a).1 = .error r) :
    (d.add a).2 = d := by
  rcases d.add_cases a with ⟨_, _, hadd⟩ | ⟨_, hadd⟩
  · rw [hadd]
  · rw [hadd] at h
    cases h

theorem Consistent.onlyInBody {d : Draft} (hd : d.Consistent) {i : ValueId} {v : Value} {proc : ProcId}
    {op : Operation} (hv : d.program.value? i = some v) (hkind : v.kind = .instruction proc op) :
    d.program.OnlyInBody i proc := by
  obtain ⟨p, hp⟩ := hd.program.inst_proc_known i v proc op hv hkind
  have hmem : i ∈ p.insts := (hd.program.mem_insts_iff proc p hp i).mpr ⟨v, op, hv, hkind⟩
  have hnodup : p.insts.Nodup := (hd.insts_ascending proc p hp).imp Nat.ne_of_lt
  refine ⟨⟨p, hp, by rw [hnodup.count, if_pos hmem]⟩, fun id q hq => ⟨?_, ?_⟩⟩
  · intro hne hi
    obtain ⟨w, op', hw, hkind'⟩ := (hd.program.mem_insts_iff id q hq i).mp hi
    obtain rfl : v = w := Option.some.inj (hv.symm.trans hw)
    rw [hkind] at hkind'
    cases hkind'
    exact hne rfl
  · intro hi
    obtain ⟨k, hk⟩ := List.mem_iff_getElem?.mp hi
    obtain ⟨w, hw, hkind'⟩ := (hd.args_iff id q hq k i).mp hk
    obtain rfl : v = w := Option.some.inj (hv.symm.trans hw)
    rw [hkind] at hkind'
    cases hkind'

end Draft

/-- Every draft that additions lead to is consistent, also if some of them were refused: its values are numbered
from one on without gaps, its procedures are the function values, operands come before the instructions that read
them, each instruction is once in the body of its procedure and in no other list, bodies ascend, arguments stand
at their index, declarations have no body, and constants, functions, globals and null have the types that go with
them. A number is given out for each accepted addition and for no refused one, so all of them are words as long as
there are fewer than `2 ^ 64 - 1` additions. -/
theorem draft_tables_consistent (name : String) (layout : Layout) (additions : List Addition) :
    ∃ d, (Draft.empty name layout).addAll additions = d ∧ d.Consistent ∧
      (∀ i v proc op, d.program.value? i = some v → v.kind = .instruction proc op →
        d.program.OnlyInBody i proc) ∧
      d.nextId = (Draft.empty name layout).numAccepted additions + 1 ∧ d.nextId ≤ additions.length + 1 ∧
      ∀ a r, (d.add a).1 = .error r → (d.add a).2 = d := by
  have hd := (Draft.consistent_empty name layout).addAll additions
  have hnext : ((Draft.empty name layout).addAll additions).nextId =
      (Draft.empty name layout).numAccepted additions + 1 := by
    rw [Draft.nextId_addAll, Nat.add_comm]
    rfl
  refine ⟨_, rfl, hd, fun i v proc op => hd.onlyInBody, hnext, ?_, fun a r => Draft.add_of_refused⟩
  rw [hnext]
  exact Nat.succ_le_succ ((Draft.empty name layout).numAccepted_le_length additions)

namespace Program

theorem Built.exists_draft {P : Program} (hP : P.Built) : ∃ d : Draft, d.Consistent ∧ d.program = P := by
  obtain ⟨name, layout, additions, rfl⟩ := hP
  exact ⟨_, (Draft.consistent_empty name layout).addAll additions, rfl⟩

end Program

end PointerQuery

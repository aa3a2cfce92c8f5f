import PointerQuery.Draft

namespace PointerQuery.Draft

variable {α β : Type}

/-- The objection to an addition, if there is one. -/
def refusal? (d : Draft) : Addition → Option Refusal
  | .procedure _ | .declaration _ | .global _ | .null => none
  | .argument proc _ _ =>
    if d.program.procedures.contains proc then none else some (.undefinedProcedure proc)
  | .const c => if c.width < widthLimit then none else some (.oversized c)
  | .instruction proc _ _ op =>
    match op.operands.find? fun o => !d.program.values.contains o with
    | some o => some (.undefinedOperand o)
    | none =>
      match d.program.procedure? proc with
      | none => some (.undefinedProcedure proc)
      | some p => if p.isDeclaration then some (.declaredOnly proc) else none

/-- The number of arguments that a procedure has so far. -/
def numArgs (d : Draft) (proc : ProcId) : Nat :=
  ((d.program.procedure? proc).map fun p => p.args.length).getD 0

/-- Carries out an addition that nothing speaks against. -/
def extend (d : Draft) : Addition → Draft
  | .procedure name =>
    (d.push name .ptr .function).putProcedure { id := d.nextId, name, isDeclaration := false }
  | .declaration name =>
    (d.push name .ptr .function).putProcedure { id := d.nextId, name, isDeclaration := true }
  | .argument proc name ty =>
    (d.push name ty (.argument proc (d.numArgs proc))).modifyProcedure proc fun p =>
      { p with args := p.args ++ [d.nextId] }
  | .global name => d.push name .ptr .global
  | .const c => d.push "" (.int (UInt32.ofNat c.width)) (.const c)
  | .null => d.push "null" .ptr .null
  | .instruction proc name ty op =>
    (d.push name ty (.instruction proc op)).modifyProcedure proc fun p =>
      { p with insts := p.insts ++ [d.nextId] }

theorem run_bind_of_ok {d e : Draft} {x : Building α} {a : α} (h : d.run x = (.ok a, e))
    (f : α → Building β) : d.run (x >>= f) = e.run (f a) := by
  simp only [run, ExceptT.run_bind, StateT.run_bind, Id.run_bind] at h ⊢
  rw [h]

theorem run_bind_of_error {d e : Draft} {x : Building α} {r : Refusal} (h : d.run x = (.error r, e))
    (f : α → Building β) : d.run (x >>= f) = (.error r, e) := by
  simp only [run, ExceptT.run_bind, StateT.run_bind, Id.run_bind] at h ⊢
  rw [h]
  rfl

theorem run_pushValue (d : Draft) (name : String) (ty : Ty) (kind : ValueKind) :
    d.run (pushValue name ty kind) = (.ok d.nextId, d.push name ty kind) := rfl

theorem run_assertKnown (d : Draft) (id : ValueId) : d.run (assertKnown id) =
    (if d.program.values.contains id then .ok () else .error (.undefinedOperand id), d) := by
  refine (run_bind_of_ok (a := d) rfl _).trans ?_
  cases d.program.values.contains id <;> rfl

theorem run_findProcedure_of_some {d : Draft} {proc : ProcId} {p : Procedure}
    (h : d.program.procedure? proc = some p) : d.run (findProcedure proc) = (.ok p, d) := by
  refine (run_bind_of_ok (a := d) rfl _).trans ?_
  rw [h]
  rfl

theorem run_findProcedure_of_none {d : Draft} {proc : ProcId} (h : d.program.procedure? proc = none) :
    d.run (findProcedure proc) = (.error (.undefinedProcedure proc), d) := by
  refine (run_bind_of_ok (a := d) rfl _).trans ?_
  rw [h]
  rfl

theorem run_assertDefined {d : Draft} {proc : ProcId} {p : Procedure} (h : d.program.procedure? proc = some p) :
    d.run (assertDefined proc) = (if p.isDeclaration then .error (.declaredOnly proc) else .ok (), d) := by
  rw [assertDefined, run_bind_of_ok (run_findProcedure_of_some h)]
  cases p.isDeclaration <;> rfl

theorem run_updateProcedure {d : Draft} {proc : ProcId} {p : Procedure}
    (h : d.program.procedure? proc = some p) (f : Procedure → Procedure) :
    d.run (updateProcedure proc f) = (.ok (), d.modifyProcedure proc f) := by
  rw [updateProcedure, run_bind_of_ok (run_findProcedure_of_some h)]
  rfl

/-- The checks of the operands change nothing, and the first one that is missing decides. -/
theorem run_forM_assertKnown (d : Draft) (ids : List ValueId) : d.run (ids.forM assertKnown) =
    ((ids.find? fun o => !d.program.values.contains o).elim (.ok ()) fun o => .error (.undefinedOperand o), d) := by
  induction ids with
  | nil => rfl
  | cons id ids ih =>
    have hcheck := d.run_assertKnown id
    rw [List.forM_eq_forM, List.forM_cons, List.find?_cons]
    cases h : d.program.values.contains id with
    | true =>
      rw [h] at hcheck
      rw [run_bind_of_ok hcheck, ← List.forM_eq_forM, ih]
      rfl
    | false =>
      rw [h] at hcheck
      rw [run_bind_of_error hcheck]
      rfl

theorem run_addArgument (d : Draft) (proc : ProcId) (name : String) (ty : Ty) :
    d.run (addArgument proc name ty) = (d.refusal? (.argument proc name ty)).elim
      (.ok d.nextId, d.extend (.argument proc name ty)) fun r => (.error r, d) := by
  have hcontains : d.program.procedures.contains proc = (d.program.procedure? proc).isSome :=
    Std.ExtTreeMap.contains_eq_isSome_getElem?
  rw [addArgument, refusal?, hcontains]
  cases hp : d.program.procedure? proc with
  | none =>
    rw [run_bind_of_error (run_findProcedure_of_none hp)]
    rfl
  | some p =>
    -- the value is entered between the two look-ups, which does not touch the procedures
    have hnum : d.numArgs proc = p.args.length := by
      rw [numArgs, hp]
      rfl
    have hp' : (d.push name ty (.argument proc p.args.length)).program.procedure? proc = some p := hp
    rw [run_bind_of_ok (run_findProcedure_of_some hp), run_bind_of_ok (d.run_pushValue _ _ _),
      run_bind_of_ok (run_updateProcedure hp' _), extend, hnum]
    rfl

theorem run_addConst (d : Draft) (c : IntConst) : d.run (addConst c) =
    (d.refusal? (.const c)).elim (.ok d.nextId, d.extend (.const c)) fun r => (.error r, d) := by
  rw [addConst, refusal?]
  by_cases h : c.width < widthLimit
  · simp only [if_pos h]
    rfl
  · simp only [if_neg h]
    rfl

theorem run_addInstruction (d : Draft) (proc : ProcId) (name : String) (ty : Ty) (op : Operation) :
    d.run (addInstruction proc name ty op) = (d.refusal? (.instruction proc name ty op)).elim
      (.ok d.nextId, d.extend (.instruction proc name ty op)) fun r => (.error r, d) := by
  have hoperands := d.run_forM_assertKnown op.operands
  rw [addInstruction]
  cases hfind : op.operands.find? fun o => !d.program.values.contains o with
  | some o =>
    rw [hfind] at hoperands
    rw [run_bind_of_error hoperands]
    simp only [refusal?, hfind, Option.elim_some]
  | none =>
    rw [hfind] at hoperands
    rw [run_bind_of_ok hoperands]
    cases hp : d.program.procedure? proc with
    | none =>
      have hdefined : d.run (assertDefined proc) = (.error (.undefinedProcedure proc), d) :=
        run_bind_of_error (run_findProcedure_of_none hp) _
      rw [run_bind_of_error hdefined]
      simp only [refusal?, hfind, hp, Option.elim_some]
    | some p =>
      have hdefined := run_assertDefined hp
      cases hdecl : p.isDeclaration with
      | true =>
        rw [hdecl] at hdefined
        rw [run_bind_of_error hdefined]
        simp only [refusal?, hfind, hp, hdecl, if_true, Option.elim_some]
      | false =>
        have hp' : (d.push name ty (.instruction proc op)).program.procedure? proc = some p := hp
        have haccepted : d.refusal? (.instruction proc name ty op) = none := by
          simp only [refusal?, hfind, hp, hdecl, Bool.false_eq_true, if_false]
        rw [hdecl] at hdefined
        rw [run_bind_of_ok hdefined, run_bind_of_ok (d.run_pushValue _ _ _), run_bind_of_ok (run_updateProcedure hp' _),
          haccepted]
        rfl

/-- All checks come before the first change, and no step after it fails. -/
theorem add_eq (d : Draft) (a : Addition) :
    d.add a = (d.refusal? a).elim (.ok d.nextId, d.extend a) fun r => (.error r, d) := by
  cases a with
  | procedure | declaration | global | null => rfl
  | argument proc name ty => exact d.run_addArgument proc name ty
  | const c => exact d.run_addConst c
  | instruction proc name ty op => exact d.run_addInstruction proc name ty op

/-- What an addition can do: be refused, or be carried out under the next number. -/
theorem add_cases (d : Draft) (a : Addition) :
    (∃ r, d.refusal? a = some r ∧ d.add a = (.error r, d)) ∨
      d.refusal? a = none ∧ d.add a = (.ok d.nextId, d.extend a) := by
  rw [add_eq]
  cases d.refusal? a with
  | some r => exact Or.inl ⟨r, rfl, rfl⟩
  | none => exact Or.inr ⟨rfl, rfl⟩

end PointerQuery.Draft

import Mathlib.Algebra.Group.Nat.Defs
import PointerQuery.Proofs.Consistency

namespace PointerQuery

/-- The second procedure is the first one with more arguments and instructions behind those that it had. -/
def Procedure.Grows (p q : Procedure) : Prop :=
  ∃ args insts, q = { p with args := p.args ++ args, insts := p.insts ++ insts }

theorem Procedure.Grows.refl (p : Procedure) : p.Grows p :=
  ⟨[], [], by simp⟩

theorem Procedure.Grows.trans {p q r : Procedure} (hpq : p.Grows q) (hqr : q.Grows r) : p.Grows r := by
  obtain ⟨args, insts, rfl⟩ := hpq
  obtain ⟨args', insts', rfl⟩ := hqr
  exact ⟨args ++ args', insts ++ insts', by simp⟩

/-- The procedure that an addition names as the one to which the new value belongs. -/
def Addition.proc? : Addition → Option ProcId
  | .argument proc _ _ | .instruction proc _ _ _ => some proc
  | _ => none

namespace Draft

/-- The additions that do not fit a draft: an instruction that reads what is no value, or that is meant for what is
no procedure or only the declaration of one, an argument for what is no procedure, and a constant that is too wide
for an integer type. -/
def Unfit (d : Draft) : Addition → Prop
  | .instruction proc _ _ op =>
    (∃ o ∈ op.operands, d.program.value? o = none) ∨ d.program.procedure? proc = none ∨
      ∃ p, d.program.procedure? proc = some p ∧ p.isDeclaration = true
  | .argument proc _ _ => d.program.procedure? proc = none
  | .const c => 2 ^ 32 ≤ c.width
  | .procedure _ | .declaration _ | .global _ | .null => False

/-- The draft `e` is `d` with one addition and nothing else. -/
structure Appended (d : Draft) (a : Addition) (e : Draft) : Prop where
  nextId : e.nextId = d.nextId + 1
  name : e.program.name = d.program.name
  layout : e.program.layout = d.program.layout
  numValues : e.program.numValues = d.program.numValues + 1
  /-- The number of the new value was free. -/
  value_free : d.program.value? d.nextId = none
  value_new : e.program.value? d.nextId = some (d.newValue a)
  value_other : ∀ id, id ≠ d.nextId → e.program.value? id = d.program.value? id
  procedure_free : d.program.procedure? d.nextId = none
  procedure_new : e.program.procedure? d.nextId = d.newProcedure? a
  /-- An argument comes behind the arguments of its procedure. -/
  argument : ∀ proc name ty, a = .argument proc name ty → ∃ p, d.program.procedure? proc = some p ∧
    e.program.procedure? proc = some { p with args := p.args ++ [d.nextId] }
  /-- An instruction comes behind the instructions of its procedure. -/
  instruction : ∀ proc name ty op, a = .instruction proc name ty op → ∃ p, d.program.procedure? proc = some p ∧
    e.program.procedure? proc = some { p with insts := p.insts ++ [d.nextId] }
  procedure_other : ∀ id, id ≠ d.nextId → a.proc? ≠ some id →
    e.program.procedure? id = d.program.procedure? id

/-- The draft `e` has all that `d` has, and may have more. -/
structure Extends (d e : Draft) : Prop where
  name : e.program.name = d.program.name
  layout : e.program.layout = d.program.layout
  value : ∀ id v, d.program.value? id = some v → e.program.value? id = some v
  procedure : ∀ id p, d.program.procedure? id = some p → ∃ q, e.program.procedure? id = some q ∧ p.Grows q

theorem exists_refusal_instruction_iff (d : Draft) (proc : ProcId) (name : String) (ty : Ty) (op : Operation) :
    (∃ r, d.refusal? (.instruction proc name ty op) = some r) ↔ d.Unfit (.instruction proc name ty op) := by
  have hmissing (o : ValueId) : (!d.program.values.contains o) = true ↔ d.program.value? o = none := by
    rw [Std.ExtTreeMap.contains_eq_isSome_getElem?, Program.value?, Bool.not_eq_true',
      Option.isSome_eq_false_iff, Option.isNone_iff_eq_none]
  simp only [refusal?, Unfit]
  cases hfind : op.operands.find? fun o => !d.program.values.contains o with
  | some o =>
    have hfound := List.find?_some hfind
    exact iff_of_true ⟨_, rfl⟩ (Or.inl ⟨o, List.mem_of_find?_eq_some hfind, (hmissing o).mp hfound⟩)
  | none =>
    have hknown : ¬∃ o ∈ op.operands, d.program.value? o = none := by
      rintro ⟨o, ho, hnone⟩
      exact List.find?_eq_none.mp hfind o ho ((hmissing o).mpr hnone)
    rw [or_iff_right hknown]
    cases hp : d.program.procedure? proc with
    | none => simp
    | some p => by_cases hdecl : p.isDeclaration = true <;> simp [hdecl]

theorem exists_refusal_iff (d : Draft) (a : Addition) : (∃ r, d.refusal? a = some r) ↔ d.Unfit a := by
  cases a with
  | instruction proc name ty op => exact d.exists_refusal_instruction_iff proc name ty op
  | argument proc name ty =>
    simp only [refusal?, Unfit, Program.procedure?, Std.ExtTreeMap.contains_eq_isSome_getElem?]
    cases d.program.procedures[proc]? <;> simp
  | const c =>
    have hlimit : widthLimit = 2 ^ 32 := by decide
    by_cases h : c.width < widthLimit
    · simp only [refusal?, Unfit, if_pos h]
      simp only [reduceCtorEq, exists_false, false_iff]
      omega
    · simp only [refusal?, Unfit, if_neg h]
      simp only [Option.some.injEq, exists_eq', true_iff]
      omega
  | procedure | declaration | global | null => simp [refusal?, Unfit]

theorem add_fails_iff (d : Draft) (a : Addition) : (∃ r, (d.add a).1 = .error r) ↔ d.Unfit a := by
  rw [← exists_refusal_iff]
  rcases d.add_cases a with ⟨r, hr, hadd⟩ | ⟨hnone, hadd⟩
  · rw [hadd]
    exact iff_of_true ⟨r, rfl⟩ ⟨r, hr⟩
  · simp [hadd, hnone]

theorem values_extend (d : Draft) (a : Addition) :
    (d.extend a).program.values = d.program.values.insert d.nextId (d.newValue a) := by
  cases a <;> rfl

theorem grown_of_proc?_ne (d : Draft) (a : Addition) {id : ProcId} (h : a.proc? ≠ some id) (p : Procedure) :
    d.grown id p a = p := by
  cases a with
  | argument proc name ty | instruction proc name ty op =>
    have hne : proc ≠ id := fun heq => h (congrArg some heq)
    exact if_neg hne
  | _ => rfl

theorem grows_grown (d : Draft) (a : Addition) (id : ProcId) (p : Procedure) : p.Grows (d.grown id p a) := by
  cases a with
  | argument proc name ty =>
    by_cases h : proc = id
    · exact ⟨[d.nextId], [], by simp [grown, h]⟩
    · exact ⟨[], [], by simp [grown, h]⟩
  | instruction proc name ty op =>
    by_cases h : proc = id
    · exact ⟨[], [d.nextId], by simp [grown, h]⟩
    · exact ⟨[], [], by simp [grown, h]⟩
  | _ => exact Procedure.Grows.refl p

section Step

variable {d : Draft} (hd : d.WellFormed) (a : Addition)

include hd

theorem WellFormed.numValues_extend : (d.extend a).program.numValues = d.program.numValues + 1 := by
  have hfree : d.program.values.contains d.nextId = false := by
    rw [Std.ExtTreeMap.contains_eq_isSome_getElem?, Option.isSome_eq_false_iff, Option.isNone_iff_eq_none]
    exact hd.value?_nextId
  rw [Program.numValues, values_extend, Std.ExtTreeMap.size_insert]
  simp only [hfree, Bool.false_eq_true, if_false]
  rfl

theorem WellFormed.procedure?_extend_nextId : (d.extend a).program.procedure? d.nextId = d.newProcedure? a := by
  rw [procedure?_extend, hd.procedure?_nextId, Option.map_none, Option.or_none]
  cases hnew : d.newProcedure? a with
  | none => rfl
  | some p => simp [Option.filter, (d.newProcedure?_eq_some a hnew).1]

theorem WellFormed.procedure?_extend_of_ne {id : ProcId} (hne : id ≠ d.nextId) :
    (d.extend a).program.procedure? id = (d.program.procedure? id).map (d.grown id · a) := by
  cases hp : d.program.procedure? id with
  | some p => exact hd.procedure?_extend_of_some a hp
  | none =>
    cases hq : (d.extend a).program.procedure? id with
    | none => rfl
    | some q =>
      rcases d.procedure?_extend_cases a hq with ⟨hid, _⟩ | ⟨p, hp', _⟩
      · exact absurd hid hne
      · rw [hp] at hp'
        cases hp'

theorem WellFormed.extends_extend : d.Extends (d.extend a) where
  name := by cases a <;> rfl
  layout := by cases a <;> rfl
  value _ _ hv := hd.value?_extend_of_some a hv
  procedure id p hp := ⟨d.grown id p a, hd.procedure?_extend_of_some a hp, d.grows_grown a id p⟩

theorem WellFormed.appended (ha : d.refusal? a = none) : d.Appended a (d.extend a) where
  nextId := d.nextId_extend a
  name := (hd.extends_extend a).name
  layout := (hd.extends_extend a).layout
  numValues := hd.numValues_extend a
  value_free := hd.value?_nextId
  value_new := d.value?_extend_nextId a
  value_other id hne := by rw [value?_extend, if_neg (Ne.symm hne)]
  procedure_free := hd.procedure?_nextId
  procedure_new := hd.procedure?_extend_nextId a
  argument proc name ty h := by
    subst h
    obtain ⟨p, hp⟩ := d.argument_proc_of_accepted _ ha rfl
    refine ⟨p, hp, ?_⟩
    rw [hd.procedure?_extend_of_some _ hp, grown, if_pos rfl]
  instruction proc name ty op h := by
    subst h
    obtain ⟨p, hp⟩ := (d.known_of_accepted _ ha rfl).2
    refine ⟨p, hp, ?_⟩
    rw [hd.procedure?_extend_of_some _ hp, grown, if_pos rfl]
  procedure_other id hne hproc := by
    rw [hd.procedure?_extend_of_ne a hne, funext (d.grown_of_proc?_ne a hproc), Option.map_id']

end Step

theorem Extends.refl (d : Draft) : d.Extends d :=
  ⟨rfl, rfl, fun _ _ hv => hv, fun _ p hp => ⟨p, hp, .refl p⟩⟩

theorem Extends.trans {d e f : Draft} (hde : d.Extends e) (hef : e.Extends f) : d.Extends f where
  name := hef.name.trans hde.name
  layout := hef.layout.trans hde.layout
  value id v hv := hef.value id v (hde.value id v hv)
  procedure id p hp := by
    obtain ⟨q, hq, hpq⟩ := hde.procedure id p hp
    obtain ⟨r, hr, hqr⟩ := hef.procedure id q hq
    exact ⟨r, hr, hpq.trans hqr⟩

theorem WellFormed.extends_add {d : Draft} (hd : d.WellFormed) (a : Addition) : d.Extends (d.add a).2 := by
  rcases d.add_cases a with ⟨r, _, hadd⟩ | ⟨_, hadd⟩
  · rw [hadd]
    exact Extends.refl d
  · rw [hadd]
    exact hd.extends_extend a

theorem WellFormed.extends_addAll {d : Draft} (hd : d.WellFormed) (rest : List Addition) :
    d.Extends (d.addAll rest) := by
  induction rest generalizing d with
  | nil => exact Extends.refl d
  | cons a rest ih => exact (hd.extends_add a).trans (ih (hd.add a))

/-- What is said about a value does not change with the draft. -/
theorem Extends.answers {d e : Draft} (h : d.Extends e) {id : ValueId} {v : Value}
    (hv : d.program.value? id = some v) :
    e.program.value? id = d.program.value? id ∧
      e.program.enclosingProc? id = d.program.enclosingProc? id ∧
      e.program.definingProc? id = d.program.definingProc? id := by
  have hvalue : e.program.value? id = d.program.value? id := (h.value id v hv).trans hv.symm
  refine ⟨hvalue, ?_, ?_⟩
  · rw [Program.enclosingProc?, hvalue, Program.enclosingProc?]
  · rw [Program.definingProc?, hvalue, Program.definingProc?]

end Draft

/-- Additions to any draft that additions lead to, each a run of steps that check and change the draft in turn and keep
what they changed when a later one fails. One fails exactly if it does not fit the draft, and then it leaves the draft
as it was, since no step fails after the first change. One that succeeds tells the next number and does nothing else than to enter its value under that
number and, if it names a procedure, to put the number at the end of the list of arguments or instructions there. So
whatever is added later, what a draft has stays: each value, the procedure that encloses it and the one that defines
it, and each procedure up to what is put behind its lists. Fewer than `2 ^ 64 - 1` additions give out only words. -/
theorem additions_atomic_append_only (name : String) (layout : Layout) (additions : List Addition) :
    ∃ d, (Draft.empty name layout).addAll additions = d ∧ d.nextId ≤ additions.length + 1 ∧
      (∀ a, (∃ r, (d.add a).1 = .error r) ↔ d.Unfit a) ∧
      (∀ a r, (d.add a).1 = .error r → (d.add a).2 = d) ∧
      (∀ a id, (d.add a).1 = .ok id → id = d.nextId ∧ d.Appended a (d.add a).2) ∧
      ∀ rest, d.Extends (d.addAll rest) ∧ ∀ id v, d.program.value? id = some v →
        (d.addAll rest).program.value? id = d.program.value? id ∧
        (d.addAll rest).program.enclosingProc? id = d.program.enclosingProc? id ∧
        (d.addAll rest).program.definingProc? id = d.program.definingProc? id := by
  have hd := (Draft.wellFormed_empty name layout).addAll additions
  refine ⟨_, rfl, ?_, Draft.add_fails_iff _, fun a r => Draft.add_of_refused, ?_, ?_⟩
  · rw [Draft.nextId_addAll, Nat.add_comm]
    exact Nat.succ_le_succ ((Draft.empty name layout).numAccepted_le_length additions)
  · intro a id hok
    rcases ((Draft.empty name layout).addAll additions).add_cases a with ⟨r, _, hadd⟩ | ⟨ha, hadd⟩
    · rw [hadd] at hok
      cases hok
    · rw [hadd] at hok ⊢
      exact ⟨(Except.ok.inj hok).symm, hd.appended a ha⟩
  · intro rest
    have hextends := hd.extends_addAll rest
    exact ⟨hextends, fun id v hv => hextends.answers hv⟩

end PointerQuery

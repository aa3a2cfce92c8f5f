import PointerQuery.Proofs.AccessValidity
import PointerQuery.Registry

namespace PointerQuery

/-- The plugin is the first of the registry that supports the question. -/
def Registry.Routes (r : Registry) (q : Query) (p : Plugin) : Prop :=
  ∃ before after, r.plugins = before ++ p :: after ∧ p.supports q = true ∧
    ∀ p' ∈ before, p'.supports q = false

/-- What can be wrong with a question, and the fault that names it. -/
inductive Program.Misput (P : Program) (facts? : Option PointsTo) (q : Query) (operands : List ValueId) :
    Fault → Prop where
  | arity : operands.length ≠ q.arity → Misput P facts? q operands (.wrongArity q operands.length)
  | foreign (o : ValueId) : o ∈ operands → P.value? o = none →
      Misput P facts? q operands (.foreignOperand o q P.name)
  /-- Known sizes are read off the facts, whatever the operand is. -/
  | size : q = .hasKnownSize ∨ q = .getPointerInfo → facts? = none → Misput P facts? q operands .factsMissing
  | null (a : ValueId) (v : Value) : q = .isNull → operands = [a] → P.value? a = some v →
      v.isPointer = true → facts? = none → Misput P facts? q operands .factsMissing
  | access (a len : ValueId) (v w : Value) (c : IntConst) : q = .isValidPointer → operands = [a, len] →
      P.value? a = some v → v.isPointer = true → P.value? len = some w → w.kind = .const c →
      c.value < P.layout.nativeMax.toNat → facts? = none → Misput P facts? q operands .factsMissing
  | empty (a len : ValueId) (v w : Value) (c : IntConst) : q = .isValidPointer → operands = [a, len] →
      P.value? a = some v → v.isPointer = true → P.value? len = some w → w.kind = .const c →
      c.value < P.layout.nativeMax.toNat → c.value = 0 → Misput P facts? q operands (.emptyAccess v.render)

theorem Query.ofName?_eq_some_iff {name : String} {q : Query} : ofName? name = some q ↔ q.name = name := by
  constructor
  · intro h
    simpa using List.find?_some h
  · rintro rfl
    exact ofName?_name q

theorem Query.name_injective {q q' : Query} (h : q.name = q'.name) : q = q' := by
  have hfound := ofName?_name q
  rw [h, ofName?_name] at hfound
  exact (Option.some.inj hfound).symm

theorem bind_ok_eq_error_iff {α β : Type} {x : Except Fault α} {f : α → β} {e : Fault} :
    (x >>= fun a => .ok (f a)) = .error e ↔ x = .error e := by
  cases x <;> simp [bind, Except.bind]

namespace Engine

variable {E : Engine}

theorem targets?_eq_error_iff {a : ValueId} {e : Fault} :
    E.targets? a = .error e ↔ E.facts? = none ∧ e = .factsMissing := by
  unfold targets?
  cases E.facts? <;> simp [eq_comm]

theorem singleTarget?_eq_error_iff {a : ValueId} {e : Fault} :
    E.singleTarget? a = .error e ↔ E.facts? = none ∧ e = .factsMissing := by
  rw [← targets?_eq_error_iff (a := a), singleTarget?]
  cases E.targets? a with
  | error e' => simp [bind, Except.bind]
  | ok set? =>
    rw [ok_bind]
    split <;> simp [pure, Except.pure]

theorem isNull_eq_error_iff {a : ValueId} {v : Value} (hv : E.program.value? a = some v) {e : Fault} :
    (E.isNull a).outcome = .error e ↔ v.isPointer = true ∧ E.facts? = none ∧ e = .factsMissing := by
  rw [outcome_isNull, Program.value_eq_ok hv, ok_bind]
  cases hptr : v.isPointer with
  | false => simp
  | true =>
    rw [if_neg (by decide), bind_ok_eq_error_iff, targets?_eq_error_iff]
    simp

variable (hP : E.program.WellFormed)

include hP

theorem hasKnownSize_eq_error_iff {a : ValueId} {e : Fault} :
    (E.hasKnownSize a).outcome = .error e ↔ E.facts? = none ∧ e = .factsMissing := by
  rw [outcome_hasKnownSize hP, bind_ok_eq_error_iff, singleTarget?_eq_error_iff]

theorem pointerInfo_eq_error_iff {a : ValueId} {e : Fault} :
    (E.pointerInfo a).outcome = .error e ↔ E.facts? = none ∧ e = .factsMissing := by
  rw [outcome_pointerInfo hP, bind_ok_eq_error_iff, singleTarget?_eq_error_iff]

theorem isValidPointer_eq_error_iff {a len : ValueId} {v w : Value} (hv : E.program.value? a = some v)
    (hw : E.program.value? len = some w) {e : Fault} :
    (E.isValidPointer a len).outcome = .error e ↔ v.isPointer = true ∧ ∃ c, w.kind = .const c ∧
      c.value < E.program.layout.nativeMax.toNat ∧ (c.value = 0 ∧ e = .emptyAccess v.render ∨
        c.value ≠ 0 ∧ E.facts? = none ∧ e = .factsMissing) := by
  rw [outcome_isValidPointer hP, Program.accessStages, Program.value_eq_ok hv, Program.value_eq_ok hw,
    E.program.exists_length_iff w fun n => n = 0 ∧ e = .emptyAccess v.render ∨
      n ≠ 0 ∧ E.facts? = none ∧ e = .factsMissing]
  simp only [ok_bind]
  cases hptr : v.isPointer with
  | false => simp
  | true =>
    rw [if_neg (by decide)]
    cases E.program.lengthOf? w with
    | none => simp
    | some n =>
      have hzero : n.toNat = 0 ↔ n = 0 := by rw [← UInt64.toNat_inj]; rfl
      simp only [Option.some.injEq, exists_eq_left', hzero, true_and, ne_eq]
      by_cases hn : n = 0
      · simp [hn, eq_comm]
      · rw [if_neg hn, bind_ok_eq_error_iff, targets?_eq_error_iff]
        simp [hn]

end Engine

namespace Engine

/-- The outcome of a question with as many operands as it takes, all of them values of the program. -/
def reply (E : Engine) : Query → List ValueId → Except Fault Answer
  | .isNull, [a] => (E.isNull a).outcome >>= fun v => .ok (.verdict v)
  | .isValidPointer, [a, len] => (E.isValidPointer a len).outcome >>= fun v => .ok (.verdict v)
  | .hasKnownSize, [a] => (E.hasKnownSize a).outcome >>= fun v => .ok (.verdict v)
  | .pointsTo, [a, b] => .ok (.verdict (.ofBool (E.pointsTo a b)))
  | .getPointerInfo, [a] => (E.pointerInfo a).outcome >>= fun i => .ok (.info i)
  | q, operands => .error (.wrongArity q operands.length)

variable {E : Engine} {q : Query} {operands : List ValueId}

theorem outcome_evaluate (harity : operands.length = q.arity)
    (hknown : ∀ o ∈ operands, ∃ v, E.program.value? o = some v) :
    (E.evaluate q operands).outcome = E.reply q operands := by
  have hfind : operands.find? (fun o => (E.program.value? o).isNone) = none := by
    rw [List.find?_eq_none]
    intro o ho
    obtain ⟨v, hv⟩ := hknown o ho
    simp [hv]
  unfold evaluate
  rw [hfind]
  cases q with
  | isNull =>
    obtain ⟨a, rfl⟩ := List.length_eq_one_iff.mp harity
    exact Checked.outcome_bind (E.isNull a) _
  | isValidPointer =>
    obtain ⟨a, len, rfl⟩ := List.length_eq_two.mp harity
    exact Checked.outcome_bind (E.isValidPointer a len) _
  | hasKnownSize =>
    obtain ⟨a, rfl⟩ := List.length_eq_one_iff.mp harity
    exact Checked.outcome_bind (E.hasKnownSize a) _
  | pointsTo =>
    obtain ⟨a, b, rfl⟩ := List.length_eq_two.mp harity
    rfl
  | getPointerInfo =>
    obtain ⟨a, rfl⟩ := List.length_eq_one_iff.mp harity
    exact Checked.outcome_bind (E.pointerInfo a) _

theorem evaluate_foreign (h : ∃ o ∈ operands, E.program.value? o = none) :
    ∃ o ∈ operands, E.program.value? o = none ∧
      (E.evaluate q operands).outcome = .error (.foreignOperand o q E.program.name) := by
  cases hfind : operands.find? fun o => (E.program.value? o).isNone with
  | none =>
    obtain ⟨o, ho, hnone⟩ := h
    exact absurd (Option.isNone_iff_eq_none.mpr hnone) (List.find?_eq_none.mp hfind o ho)
  | some o =>
    have hnone : (E.program.value? o).isNone = true := by simpa using List.find?_some hfind
    refine ⟨o, List.mem_of_find?_eq_some hfind, Option.isNone_iff_eq_none.mp hnone, ?_⟩
    rw [evaluate, hfind]
    rfl

/-- A question gets the kind of answer that goes with it. -/
theorem reply_kind {answer : Answer} (h : E.reply q operands = .ok answer) :
    q = .getPointerInfo ∧ (∃ i, answer = .info i) ∨ q ≠ .getPointerInfo ∧ ∃ v, answer = .verdict v := by
  have hbind {α : Type} {x : Except Fault α} {f : α → Answer} (hx : (x >>= fun a => .ok (f a)) = .ok answer) :
      ∃ a, answer = f a := by
    cases x with
    | error e => cases hx
    | ok a => exact ⟨a, (Except.ok.inj hx).symm⟩
  unfold reply at h
  split at h
  · exact Or.inr ⟨nofun, hbind h⟩
  · exact Or.inr ⟨nofun, hbind h⟩
  · exact Or.inr ⟨nofun, hbind h⟩
  · exact Or.inr ⟨nofun, _, (Except.ok.inj h).symm⟩
  · exact Or.inl ⟨rfl, hbind h⟩
  · cases h

variable (hP : E.program.WellFormed) (harity : operands.length = q.arity)
  (hknown : ∀ o ∈ operands, ∃ v, E.program.value? o = some v)

include hP harity hknown

theorem misput_of_reply_error {e : Fault} (h : E.reply q operands = .error e) :
    E.program.Misput E.facts? q operands e := by
  cases q with
  | isNull =>
    obtain ⟨a, rfl⟩ := List.length_eq_one_iff.mp harity
    obtain ⟨v, hv⟩ := hknown a List.mem_cons_self
    obtain ⟨hptr, hfacts, rfl⟩ := (isNull_eq_error_iff hv).mp (bind_ok_eq_error_iff.mp h)
    exact .null a v rfl rfl hv hptr hfacts
  | isValidPointer =>
    obtain ⟨a, len, rfl⟩ := List.length_eq_two.mp harity
    obtain ⟨v, hv⟩ := hknown a List.mem_cons_self
    obtain ⟨w, hw⟩ := hknown len (List.mem_cons_of_mem a List.mem_cons_self)
    obtain ⟨hptr, c, hc, hlt, hreason⟩ :=
      (isValidPointer_eq_error_iff hP hv hw).mp (bind_ok_eq_error_iff.mp h)
    rcases hreason with ⟨hzero, rfl⟩ | ⟨_, hfacts, rfl⟩
    · exact .empty a len v w c rfl rfl hv hptr hw hc hlt hzero
    · exact .access a len v w c rfl rfl hv hptr hw hc hlt hfacts
  | hasKnownSize =>
    obtain ⟨a, rfl⟩ := List.length_eq_one_iff.mp harity
    obtain ⟨hfacts, rfl⟩ := (hasKnownSize_eq_error_iff hP).mp (bind_ok_eq_error_iff.mp h)
    exact .size (Or.inl rfl) hfacts
  | pointsTo =>
    obtain ⟨a, b, rfl⟩ := List.length_eq_two.mp harity
    cases h
  | getPointerInfo =>
    obtain ⟨a, rfl⟩ := List.length_eq_one_iff.mp harity
    obtain ⟨hfacts, rfl⟩ := (pointerInfo_eq_error_iff hP).mp (bind_ok_eq_error_iff.mp h)
    exact .size (Or.inr rfl) hfacts

theorem reply_error_of_misput {e : Fault} (h : E.program.Misput E.facts? q operands e) :
    ∃ e', E.reply q operands = .error e' := by
  cases h with
  | arity hne => exact absurd harity hne
  | foreign o ho hnone =>
    obtain ⟨v, hv⟩ := hknown o ho
    rw [hnone] at hv
    cases hv
  | size hq hfacts =>
    rcases hq with rfl | rfl
    · obtain ⟨a, rfl⟩ := List.length_eq_one_iff.mp harity
      exact ⟨_, bind_ok_eq_error_iff.mpr ((hasKnownSize_eq_error_iff hP).mpr ⟨hfacts, rfl⟩)⟩
    · obtain ⟨a, rfl⟩ := List.length_eq_one_iff.mp harity
      exact ⟨_, bind_ok_eq_error_iff.mpr ((pointerInfo_eq_error_iff hP).mpr ⟨hfacts, rfl⟩)⟩
  | null a v hq hoperands hv hptr hfacts =>
    subst hq hoperands
    exact ⟨_, bind_ok_eq_error_iff.mpr ((isNull_eq_error_iff hv).mpr ⟨hptr, hfacts, rfl⟩)⟩
  | access a len v w c hq hoperands hv hptr hw hc hlt hfacts =>
    subst hq hoperands
    by_cases hzero : c.value = 0
    · exact ⟨_, bind_ok_eq_error_iff.mpr ((isValidPointer_eq_error_iff hP hv hw).mpr
        ⟨hptr, c, hc, hlt, Or.inl ⟨hzero, rfl⟩⟩)⟩
    · exact ⟨_, bind_ok_eq_error_iff.mpr ((isValidPointer_eq_error_iff hP hv hw).mpr
        ⟨hptr, c, hc, hlt, Or.inr ⟨hzero, hfacts, rfl⟩⟩)⟩
  | empty a len v w c hq hoperands hv hptr hw hc hlt hzero =>
    subst hq hoperands
    exact ⟨_, bind_ok_eq_error_iff.mpr ((isValidPointer_eq_error_iff hP hv hw).mpr
      ⟨hptr, c, hc, hlt, Or.inl ⟨hzero, rfl⟩⟩)⟩

end Engine

namespace Registry

variable {r : Registry} {E : Engine} {q : Query} (hr : r.Routes q E.plugin) (operands : List ValueId)

include hr

/-- The stages of a question: the number of its operands is checked first, then whether the program has them. -/
theorem ask_cases :
    operands.length ≠ q.arity ∧ (r.ask q operands).outcome = .error (.wrongArity q operands.length) ∨
      (∃ o ∈ operands, E.program.value? o = none ∧
        (r.ask q operands).outcome = .error (.foreignOperand o q E.program.name)) ∨
      operands.length = q.arity ∧ (∀ o ∈ operands, ∃ v, E.program.value? o = some v) ∧
        (r.ask q operands).outcome = E.reply q operands := by
  by_cases harity : operands.length = q.arity
  · obtain ⟨before, after, hplugins, hsupports, hbefore⟩ := hr
    have hfind : r.plugins.find? (fun p => p.supports q) = some E.plugin := by
      rw [List.find?_eq_some_iff_append]
      refine ⟨hsupports, before, after, hplugins, ?_⟩
      intro p hp
      rw [hbefore p hp]
      rfl
    have hask : (r.ask q operands).outcome = (E.evaluate q operands).outcome := by
      rw [ask, if_pos harity, hfind]
      rfl
    rw [hask]
    by_cases hforeign : ∃ o ∈ operands, E.program.value? o = none
    · exact Or.inr (Or.inl (Engine.evaluate_foreign hforeign))
    · have hknown : ∀ o ∈ operands, ∃ v, E.program.value? o = some v := by
        intro o ho
        rw [← Option.ne_none_iff_exists']
        exact fun hnone => hforeign ⟨o, ho, hnone⟩
      exact Or.inr (Or.inr ⟨harity, hknown, Engine.outcome_evaluate harity hknown⟩)
  · refine Or.inl ⟨harity, ?_⟩
    rw [ask, if_neg harity]
    rfl

theorem ask_kind {answer : Answer} (h : (r.ask q operands).outcome = .ok answer) :
    q = .getPointerInfo ∧ (∃ i, answer = .info i) ∨ q ≠ .getPointerInfo ∧ ∃ v, answer = .verdict v := by
  rcases ask_cases hr operands with ⟨_, hask⟩ | ⟨o, _, _, hask⟩ | ⟨_, _, hask⟩
  · rw [hask] at h
    cases h
  · rw [hask] at h
    cases h
  · rw [hask] at h
    exact Engine.reply_kind h

variable (hP : E.program.WellFormed)

include hP

theorem misput_of_ask_error {e : Fault} (h : (r.ask q operands).outcome = .error e) :
    E.program.Misput E.facts? q operands e := by
  rcases ask_cases hr operands with ⟨harity, hask⟩ | ⟨o, ho, hnone, hask⟩ | ⟨harity, hknown, hask⟩
  · rw [hask] at h
    obtain rfl := Except.error.inj h
    exact .arity harity
  · rw [hask] at h
    obtain rfl := Except.error.inj h
    exact .foreign o ho hnone
  · rw [hask] at h
    exact Engine.misput_of_reply_error hP harity hknown h

theorem ask_error_of_misput {e : Fault} (h : E.program.Misput E.facts? q operands e) :
    ∃ e', (r.ask q operands).outcome = .error e' := by
  rcases ask_cases hr operands with ⟨_, hask⟩ | ⟨o, _, _, hask⟩ | ⟨harity, hknown, hask⟩
  · exact ⟨_, hask⟩
  · exact ⟨_, hask⟩
  · rw [hask]
    exact Engine.reply_error_of_misput hP harity hknown h

omit hr hP

theorem query_name (q : Query) : r.query q.name operands = r.ask q operands := by
  rw [query, Query.ofName?_name]

theorem query_unsupported {name : String} (h : ∀ q : Query, q.name ≠ name) :
    (r.query name operands).outcome = .ok .unsupported := by
  have hnone : Query.ofName? name = none := by
    rw [Option.eq_none_iff_forall_ne_some]
    intro q hq
    exact h q (Query.ofName?_eq_some_iff.mp hq)
  rw [query, hnone]
  rfl

end Registry

/-- The kind of an answer tells the name of the question as far as it can. -/
theorem Answer.kind_iff_name {answer : Answer} {q : Query}
    (h : q = .getPointerInfo ∧ (∃ i, answer = .info i) ∨ q ≠ .getPointerInfo ∧ ∃ v, answer = .verdict v) :
    (answer = .unsupported ↔ ∀ q' : Query, q'.name ≠ q.name) ∧
      ((∃ i, answer = .info i) ↔ q.name = Query.getPointerInfo.name) ∧
      ((∃ v, answer = .verdict v) ↔ ∃ q' : Query, q'.name = q.name ∧ q' ≠ .getPointerInfo) := by
  have hname : ¬∀ q' : Query, q'.name ≠ q.name := fun hne => hne q rfl
  rcases h with ⟨rfl, i, rfl⟩ | ⟨hq, v, rfl⟩
  · have hother : ¬∃ q' : Query, q'.name = Query.getPointerInfo.name ∧ q' ≠ .getPointerInfo := by
      intro ⟨q', hq', hne⟩
      exact hne (Query.name_injective hq')
    simp [hname, hother]
  · have hother : q.name ≠ Query.getPointerInfo.name := fun hq' => hq (Query.name_injective hq')
    have hself : ∃ q' : Query, q'.name = q.name ∧ q' ≠ .getPointerInfo := ⟨q, rfl, hq⟩
    simp [hname, hother, hself]

theorem Engine.outcome_load {P : Program} (hP : P.WellFormed) (facts? : Option PointsTo) (settings : Settings) :
    (Engine.load P facts? settings).outcome = .ok (Engine.of P facts? settings.isStrict) := by
  simp only [load, Checked.outcome_bind, Checked.outcome_report, outcome_build hP]
  rfl

theorem Program.WellFormed.exists_callSites {P : Program} (hP : P.WellFormed) (proc : ProcId) :
    ∃ sites, P.callSites proc = .ok sites := by
  cases hp : P.procedure? proc with
  | none => exact ⟨[], by simp only [callSites, hp]⟩
  | some p => exact ⟨_, hP.callSites_eq hp⟩

/-- A question fails exactly if it is not put in order. The engine can be set up for every program with or without
facts, and a registry that hands the question to it answers every name and every list of operands: with a fault if
the question takes another number of operands, has an operand that is no value of the program, needs facts that are
not there, or is about an access to no bytes, and otherwise with an answer of the kind that goes with the name. The
fault is one of these, so no look-up inside of an answer ever fails: neither of instructions or element counts, nor
of operands, nor of the first node of a component. -/
theorem query_fails_iff_misput (P : Program) (hP : P.Built) (facts? : Option PointsTo) (strict : Bool) :
    ∃ E, (Engine.build P facts? strict).outcome = .ok E ∧
      (∀ settings : Settings, settings.isStrict = strict →
        (Engine.load P facts? settings).outcome = .ok E) ∧
      (∀ (r : Registry) (name : String) (operands : List ValueId),
        (∀ q : Query, q.name = name → r.Routes q E.plugin) →
        ((∃ fault, (r.query name operands).outcome = .error fault) ↔
          ∃ q : Query, q.name = name ∧ ∃ fault, P.Misput facts? q operands fault) ∧
        (∀ fault, (r.query name operands).outcome = .error fault →
          ∃ q : Query, q.name = name ∧ P.Misput facts? q operands fault) ∧
        ∀ answer, (r.query name operands).outcome = .ok answer →
          (answer = .unsupported ↔ ∀ q : Query, q.name ≠ name) ∧
          ((∃ i, answer = .info i) ↔ name = Query.getPointerInfo.name) ∧
          ((∃ v, answer = .verdict v) ↔ ∃ q : Query, q.name = name ∧ q ≠ .getPointerInfo)) ∧
      (∀ proc, ∃ sites, P.callSites proc = .ok sites) ∧
      (∀ site, ∃ allocation?, P.allocation? site = .ok allocation?) ∧
      ∀ c ∈ E.callGraph.graph.components, c ≠ [] := by
  have hwf := hP.wellFormed
  refine ⟨Engine.of P facts? strict, Engine.outcome_build hwf facts? strict, ?_, ?_, hwf.exists_callSites,
    fun site => ⟨_, hwf.allocation?_eq site⟩, fun c => Digraph.ne_nil_of_mem_components _⟩
  · rintro settings rfl
    exact Engine.outcome_load hwf facts? settings
  · intro r name operands hroutes
    by_cases hname : ∃ q : Query, q.name = name
    · obtain ⟨q, rfl⟩ := hname
      have hr := hroutes q rfl
      rw [Registry.query_name]
      refine ⟨⟨?_, ?_⟩, ?_, ?_⟩
      · intro hfails
        obtain ⟨fault, hfault⟩ := hfails
        exact ⟨q, rfl, fault, Registry.misput_of_ask_error hr operands hwf hfault⟩
      · intro hmisput
        obtain ⟨q', hq', fault, hfault⟩ := hmisput
        obtain rfl := Query.name_injective hq'
        exact Registry.ask_error_of_misput hr operands hwf hfault
      · intro fault hfault
        exact ⟨q, rfl, Registry.misput_of_ask_error hr operands hwf hfault⟩
      · intro answer hanswer
        exact Answer.kind_iff_name (Registry.ask_kind hr operands hanswer)
    · have hnone : ∀ q : Query, q.name ≠ name := fun q hq => hname ⟨q, hq⟩
      have hinfo : name ≠ Query.getPointerInfo.name := fun h => hnone _ h.symm
      rw [Registry.query_unsupported operands hnone]
      simp [hnone, hinfo, eq_comm]

/-- A plugin that answers only whether a pointer may be null. -/
def cautiousPlugin : Plugin :=
  ⟨"cautious", fun q => q = .isNull, fun _ _ => pure (.verdict .unknown)⟩

/-- Behind such a plugin and without facts, the validity of a pointer into the buffer cannot be asked for. -/
theorem query_fails_iff_misput_buffer : bufferProgram.Built ∧
    ∃ E, (Engine.build bufferProgram none true).outcome = .ok E ∧
      (∀ q : Query, q.name = "isValidPointer" →
        (Registry.mk [cautiousPlugin, E.plugin]).Routes q E.plugin) ∧
      ∃ fault, ((Registry.mk [cautiousPlugin, E.plugin]).query "isValidPointer" [5, 4]).outcome =
        .error fault := by
  have hP : bufferProgram.Built := ⟨"buffer", .standard, bufferAdditions, rfl⟩
  obtain ⟨E, hE, _, hquery, _⟩ := query_fails_iff_misput bufferProgram hP none true
  have hroutes : ∀ q : Query, q.name = "isValidPointer" →
      (Registry.mk [cautiousPlugin, E.plugin]).Routes q E.plugin := by
    intro q hq
    obtain rfl : q = .isValidPointer := Query.name_injective hq
    exact ⟨[cautiousPlugin], [], rfl, rfl, by simp [cautiousPlugin]⟩
  refine ⟨hP, E, hE, hroutes, (hquery _ _ [5, 4] hroutes).1.mpr ⟨.isValidPointer, rfl, .factsMissing, ?_⟩⟩
  exact .access 5 4 ⟨5, "p", .ptr, .instruction 1 (.gep 3 4)⟩ ⟨4, "", .int 64, .const (IntConst.ofNat 64 10)⟩
    (IntConst.ofNat 64 10) rfl rfl (by decide +kernel) rfl (by decide +kernel) rfl (by decide +kernel) rfl

end PointerQuery

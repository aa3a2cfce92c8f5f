import PointerQuery.Allocation
import PointerQuery.CallGraph

namespace PointerQuery

structure Engine where
  program : Program
  facts? : Option PointsTo
  callGraph : CallGraph

namespace Engine

/-- The engine for a program with the facts about it, if there are any. -/
def build (P : Program) (facts? : Option PointsTo) (strict : Bool) : Checked Engine := do
  if facts?.isNone then
    Checked.report .warn "No points-to facts given. Indirect calls stay unresolved."
  Checked.report .info "Building call graph..."
  let callGraph ← CallGraph.build P facts? strict
  pure ⟨P, facts?, callGraph⟩

/-- The targets of a value, if there is anything known about them. -/
def targets? (E : Engine) (a : ValueId) : Except Fault (Option TargetSet) :=
  match E.facts? with
  | none => .error .factsMissing
  | some facts => .ok ((facts a).filter fun set => !set.isEmpty)

/-- The target of a value that has exactly one. -/
def singleTarget? (E : Engine) (a : ValueId) : Except Fault (Option Target) := do
  match (← E.targets? a).map Std.ExtTreeSet.toList with
  | some [t] => return some t
  | _ => return none

/-- Whether `site` allocates a constant number of elements on the stack of the procedure in which `a` is an
instruction. -/
def isLocalAllocation (E : Engine) (a site : ValueId) : Except Fault Bool := do
  match ← E.program.allocation? site with
  | none => return false
  | some _ =>
    match E.program.definingProc? a, E.program.definingProc? site with
    | some p, some q => return p == q
    | _, _ => return false

def missingFacts (v : Value) : String :=
  "No points-to information for " ++ v.render

/-- May the pointer be null? Unknown memory may be anything, also null. -/
def isNull (E : Engine) (a : ValueId) : Checked Verdict := do
  let v ← Checked.ofExcept (E.program.value a)
  if !v.isPointer then pure .no
  else
    match ← Checked.ofExcept (E.targets? a) with
    | none =>
      Checked.report .warn (missingFacts v)
      pure .unknown
    | some set => pure (.ofBool (set.toList.any fun t => t.isNull || t.isUnknown))

/-- Is the size of the memory behind the pointer known? -/
def hasKnownSize (E : Engine) (a : ValueId) : Checked Verdict := do
  match ← Checked.ofExcept (E.singleTarget? a) with
  | none => pure .unknown
  | some t =>
    match t.site? with
    | none => pure .no
    | some site => pure (.ofBool (← Checked.ofExcept (E.isLocalAllocation a site)))

/-- The allocation behind the pointer and its size. -/
def pointerInfo (E : Engine) (a : ValueId) : Checked (Option PointerInfo) := do
  match (← Checked.ofExcept (E.singleTarget? a)).bind Target.site? with
  | none => pure none
  | some site =>
    if ← Checked.ofExcept (E.isLocalAllocation a site) then
      pure ((← E.program.allocaSize site).map fun size => ⟨site, size⟩)
    else pure none

/-- The length of an access, if it is a constant below the largest number of pointer width. -/
def accessLength (E : Engine) (len : ValueId) : Checked (Option Word) := do
  let v ← Checked.ofExcept (E.program.value len)
  match v.const? with
  | none =>
    Checked.report .debug ("Access length " ++ v.render ++ " is not a constant.")
    pure none
  | some c =>
    if c.saturated < E.program.layout.nativeMax then pure (some c.saturated)
    else
      Checked.report .debug ("Access length " ++ v.render ++ " is not representable.")
      pure none

/-- The procedure whose frame holds the memory of a target. -/
def owner? (E : Engine) (t : Target) : Option ProcId :=
  t.owner?.or <|
    (t.site?.filter fun s => E.program.isAlloca s).bind fun s => E.program.definingProc? s

/-- Whether `len` bytes from a known offset on lie in memory of the given size. -/
def inBounds (offset len size : Word) : Bool :=
  len ≤ size && offset ≤ size - len

/-- Is an access through the pointer `v` to `len` bytes good if it hits the target? Memory in the frame of a
procedure may only be used there, and only if that procedure has no second frame. -/
def checkAccess (E : Engine) (v : Value) (len : Word) (t : Target) : Checked Verdict := do
  if t.isNull || t.isUnknown || t.isInvalidated then pure .no
  else
    match t.offset with
    | .unknown => pure .unknown
    | .known offset =>
      match ← E.program.targetSize t with
      | none =>
        Checked.report .debug ("Size of target " ++ t.render ++ " of " ++ v.render ++ " is unknown.")
        pure .no
      | some size =>
        if !inBounds offset len size then pure .no
        else
          match v.enclosingProc?, E.owner? t with
          | some user, some owner =>
            pure (.ofBool (owner == user && !E.callGraph.isRecursive user))
          | _, _ =>
            Checked.report .debug ("In bound pointer for non-allocated memory: " ++ v.render)
            pure .yes

/-- The worst verdict on a list of targets. Nothing is worse than no, so the rest is not looked at then. -/
def checkAll (E : Engine) (v : Value) (len : Word) : List Target → Checked Verdict
  | [] => pure .yes
  | t :: ts => do
    let verdict ← E.checkAccess v len t
    if verdict = .no then pure .no
    else pure (verdict.meet (← E.checkAll v len ts))

/-- Does every access to as many bytes as the value `len` says hit live memory? -/
def isValidPointer (E : Engine) (a len : ValueId) : Checked Verdict := do
  let v ← Checked.ofExcept (E.program.value a)
  if !v.isPointer then pure .no
  else
    match ← E.accessLength len with
    | none => pure .unknown
    | some len =>
      if len = 0 then throw (.emptyAccess v.render)
      else
        match ← Checked.ofExcept (E.targets? a) with
        | none =>
          Checked.report .warn (missingFacts v)
          pure .unknown
        | some set => E.checkAll v len set.toList

/-- May `a` point into the memory that `b` allocates? Without facts it may. -/
def pointsTo (E : Engine) (a b : ValueId) : Bool :=
  match E.facts? with
  | none => true
  | some facts => (facts a).any fun set => set.toList.any fun t => t.site? == some b

def reachableFunctions (E : Engine) (proc : ProcId) : Std.ExtTreeSet ProcId :=
  E.callGraph.reachableFrom proc

/-- The operand of a question at a position. -/
def operand (operands : List ValueId) (i : Nat) : Except Fault ValueId :=
  match operands[i]? with
  | some a => .ok a
  | none => .error (.missingOperand operands.length i)

/-- Answers a question, provided that all its operands are values of the program. -/
def evaluate (E : Engine) (q : Query) (operands : List ValueId) : Checked Answer :=
  match operands.find? fun o => (E.program.value? o).isNone with
  | some o => throw (.foreignOperand o q E.program.name)
  | none => do
    let a ← Checked.ofExcept (operand operands 0)
    match q with
    | .isNull => return .verdict (← E.isNull a)
    | .isValidPointer => return .verdict (← E.isValidPointer a (← Checked.ofExcept (operand operands 1)))
    | .hasKnownSize => return .verdict (← E.hasKnownSize a)
    | .pointsTo => return .verdict (.ofBool (E.pointsTo a (← Checked.ofExcept (operand operands 1))))
    | .getPointerInfo => return .info (← E.pointerInfo a)

end Engine

end PointerQuery

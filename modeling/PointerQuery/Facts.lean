import PointerQuery.Diagnostic
import PointerQuery.Multimap
import PointerQuery.Target

namespace PointerQuery

/-- What a solver says about each value. No set and an empty set both mean that it knows nothing. -/
abbrev PointsTo := ValueId → Option TargetSet

abbrev Facts := Multimap ValueId Target

namespace Facts

def add (f : Facts) (value : ValueId) (target : Target) : Logged Facts := do
  let (fresh, f) := f.insert value target
  unless fresh do Logged.report .debug s!"Duplicate points-to fact for value {value}"
  pure f

def addAll (f : Facts) (value : ValueId) : List Target → Logged Facts
  | [] => pure f
  | t :: ts => do (← f.add value t).addAll value ts

def numValues (f : Facts) : Nat :=
  f.numKeys

def numTargets (f : Facts) (value : ValueId) : Nat :=
  f.sizeOf value

def has (f : Facts) (value : ValueId) (target : Target) : Bool :=
  f.contains value target

def pointsTo (f : Facts) : PointsTo :=
  f.get?

def render (f : Facts) : String :=
  Multimap.render Nat.repr Target.render f

end Facts

end PointerQuery

import PointerQuery.Query
import PointerQuery.Text.Hex
import Std.Data.ExtTreeSet

namespace PointerQuery

/-- A distance in bytes from the start of an allocation. -/
inductive Offset where
  | known (bytes : Word)
  | unknown
  deriving DecidableEq

namespace Offset

def isUnknown : Offset → Bool
  | known _ => false
  | unknown => true

def bytes : Offset → Word
  | known bytes => bytes
  | unknown => 0

instance : Ord Offset where
  compare := compareLex (compareOn isUnknown) (compareOn bytes)

instance : Std.TransOrd Offset :=
  inferInstanceAs (Std.TransCmp (compareLex (compareOn isUnknown) (compareOn bytes)))

instance : Std.LawfulEqOrd Offset where
  eq_of_compare {a b} h := by
    obtain ⟨hu, hb⟩ := compareLex_eq_eq.1 h
    have hu := Std.LawfulEqOrd.eq_of_compare hu
    have hb := Std.LawfulEqOrd.eq_of_compare hb
    cases a <;> cases b <;> simp_all [isUnknown, bytes]

def render : Offset → String
  | known bytes => Text.hex bytes.toNat
  | unknown => "?"

end Offset

inductive Place where
  | null
  /-- Memory of which nothing is known. -/
  | unknown
  /-- Memory that the value `site` allocates. Its size may come from the solver, and its owner is the
  procedure in which it is allocated. -/
  | site (site : ValueId) (offset : Offset) (size? : Option Word) (owner? : Option ProcId)
  deriving DecidableEq

structure Target where
  place : Place
  /-- The memory was freed or left its scope on some path. -/
  isInvalidated : Bool := false
  deriving DecidableEq

namespace Target

def null : Target := ⟨.null, false⟩

def unknown : Target := ⟨.unknown, false⟩

def atSite (site : ValueId) (offset : Offset) (size? : Option Word) (owner? : Option ProcId) : Target :=
  ⟨.site site offset size? owner?, false⟩

def invalidated (t : Target) : Target :=
  { t with isInvalidated := true }

def isNull (t : Target) : Bool :=
  t.place matches .null

def isUnknown (t : Target) : Bool :=
  t.place matches .unknown

def site? (t : Target) : Option ValueId :=
  match t.place with
  | .site site _ _ _ => some site
  | _ => none

def offset (t : Target) : Offset :=
  match t.place with
  | .null => .known 0
  | .unknown => .unknown
  | .site _ offset _ _ => offset

def size? (t : Target) : Option Word :=
  match t.place with
  | .site _ _ size? _ => size?
  | _ => none

def owner? (t : Target) : Option ProcId :=
  match t.place with
  | .site _ _ _ owner? => owner?
  | _ => none

/-- The state of a target as a number: one for null, two for unknown memory, four more for invalidated. -/
def state (t : Target) : Nat :=
  (match t.place with
    | .null => 1
    | .unknown => 2
    | .site .. => 0) + if t.isInvalidated then 4 else 0

instance : Ord Target where
  compare := compareLex (compareOn site?) <| compareLex (compareOn offset) <|
    compareLex (compareOn state) <| compareLex (compareOn size?) (compareOn owner?)

instance : Std.TransOrd Target :=
  inferInstanceAs (Std.TransCmp (compareLex (compareOn site?) <| compareLex (compareOn offset) <|
    compareLex (compareOn state) <| compareLex (compareOn size?) (compareOn owner?)))

/-- The five keys of the order tell a target. -/
theorem eq_of_keys_eq {s t : Target} (site : s.site? = t.site?) (offset : s.offset = t.offset)
    (state : s.state = t.state) (size : s.size? = t.size?) (owner : s.owner? = t.owner?) : s = t := by
  obtain ⟨p, i⟩ := s
  obtain ⟨q, j⟩ := t
  cases p <;> cases q <;> cases i <;> cases j <;>
    simp_all [Target.site?, Target.offset, Target.state, Target.size?, Target.owner?]

instance : Std.LawfulEqOrd Target where
  eq_of_compare {s t} h := by
    obtain ⟨site, h⟩ := compareLex_eq_eq.1 h
    obtain ⟨offset, h⟩ := compareLex_eq_eq.1 h
    obtain ⟨state, h⟩ := compareLex_eq_eq.1 h
    obtain ⟨size, owner⟩ := compareLex_eq_eq.1 h
    exact eq_of_keys_eq (Std.LawfulEqOrd.eq_of_compare site) (Std.LawfulEqOrd.eq_of_compare offset)
      (Std.LawfulEqOrd.eq_of_compare state) (Std.LawfulEqOrd.eq_of_compare size)
      (Std.LawfulEqOrd.eq_of_compare owner)

def render (t : Target) : String :=
  match t.place with
  | .null => "null"
  | .unknown => "unknown"
  | .site site offset size? _ =>
    "<" ++ Nat.repr site ++ " + " ++ offset.render ++
      (match size? with
        | some size => " / " ++ Nat.repr size.toNat
        | none => "") ++
      (if t.isInvalidated then " (invalidated)" else "") ++ ">"

end Target

abbrev TargetSet := Std.ExtTreeSet Target

end PointerQuery

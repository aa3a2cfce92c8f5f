import PointerQuery.Verdict
import PointerQuery.Word

namespace PointerQuery

/-- Values of a program are numbered in the order in which they were added to it. -/
abbrev ValueId := Nat

/-- A procedure goes by the number of its function value. -/
abbrev ProcId := ValueId

inductive Query where
  | isNull
  | isValidPointer
  | hasKnownSize
  | pointsTo
  | getPointerInfo
  deriving DecidableEq

namespace Query

def all : List Query :=
  [isNull, isValidPointer, hasKnownSize, pointsTo, getPointerInfo]

def name : Query → String
  | isNull => "isNull"
  | isValidPointer => "isValidPointer"
  | hasKnownSize => "hasKnownSize"
  | pointsTo => "pointsTo"
  | getPointerInfo => "getPointerInfo"

def ofName? (name : String) : Option Query :=
  all.find? fun q => q.name == name

theorem ofName?_name (q : Query) : ofName? q.name = some q := by
  cases q <;> decide

/-- The number of operands a question is about. -/
def arity : Query → Nat
  | isNull | hasKnownSize | getPointerInfo => 1
  | isValidPointer | pointsTo => 2

end Query

/-- The allocation that a pointer refers to, and its size in bytes. -/
structure PointerInfo where
  site : ValueId
  size : Word
  deriving DecidableEq

def PointerInfo.render (i : PointerInfo) : String :=
  Nat.repr i.site ++ " " ++ Nat.repr i.size.toNat

inductive Answer where
  | verdict (v : Verdict)
  | info (i : Option PointerInfo)
  /-- Nobody answers the question. -/
  | unsupported
  deriving DecidableEq

def Answer.render : Answer → String
  | verdict v => v.render
  | info (some i) => i.render
  | info none => "none 0"
  | unsupported => "unsupported query"

end PointerQuery

import PointerQuery.Program
import PointerQuery.Target

namespace PointerQuery

structure Allocation where
  elem : Ty
  count : IntConst

namespace Allocation

/-- The number of bytes, if the element type has a size and the total is a word. -/
def size? (L : Layout) (a : Allocation) : Option Word := do
  let count ← a.count.toWord?
  let elem ← L.allocSize? a.elem
  Word.mul? elem count

/-- What there is to say about an allocation whose number of bytes cannot even be stated. -/
def complaint? (L : Layout) (site : Value) (a : Allocation) : Option String :=
  if a.count.toWord?.isNone then some ("Element count of " ++ site.render ++ " exceeds 64 bits.")
  else if (L.allocSize? a.elem).isNone then
    some ("Allocated type " ++ a.elem.render ++ " of " ++ site.render ++ " is unsized.")
  else none

end Allocation

namespace Program

/-- The allocation that a value makes, if it allocates a constant number of elements on the stack. -/
def allocation? (P : Program) (site : ValueId) : Except Fault (Option Allocation) :=
  match (P.value? site).bind Value.op? with
  | some (.alloca elem count) => do return ((← P.value count).const?).map fun c => ⟨elem, c⟩
  | _ => .ok none

/-- The number of bytes that a value allocates on the stack. -/
def allocaSize (P : Program) (site : ValueId) : Checked (Option Word) := do
  match ← Checked.ofExcept (P.allocation? site) with
  | none => pure none
  | some a =>
    match a.complaint? P.layout (← Checked.ofExcept (P.value site)) with
    | some complaint => Checked.report .debug complaint
    | none => pure ()
    pure (a.size? P.layout)

/-- The size of the memory that a target lies in. What the solver says comes first. -/
def targetSize (P : Program) (t : Target) : Checked (Option Word) :=
  match t.size?, t.site? with
  | some size, _ => pure (some size)
  | none, some site => P.allocaSize site
  | none, none => pure none

end Program

end PointerQuery

import Std.Data.ExtTreeMap
import Std.Data.ExtTreeSet

namespace PointerQuery

structure Multimap (α β : Type) [Ord α] [Ord β] where
  cells : Std.ExtTreeMap α (Std.ExtTreeSet β) := ∅

namespace Multimap

variable {α β : Type} [Ord α] [Std.TransOrd α] [Ord β] [Std.TransOrd β]

def get? (m : Multimap α β) (k : α) : Option (Std.ExtTreeSet β) :=
  m.cells[k]?

/-- Adds a cell to a key and tells whether it is new there. -/
def insert (m : Multimap α β) (k : α) (v : β) : Bool × Multimap α β :=
  let old := m.cells.getD k ∅
  (!old.contains v, ⟨m.cells.insert k (old.insert v)⟩)

def contains (m : Multimap α β) (k : α) (v : β) : Bool :=
  (m.get? k).any fun s => s.contains v

/-- The number of cells of a key. -/
def sizeOf (m : Multimap α β) (k : α) : Nat :=
  ((m.get? k).map Std.ExtTreeSet.size).getD 0

def numKeys (m : Multimap α β) : Nat :=
  m.cells.size

/-- A line for each key, followed by an indented line for each of its cells, all in ascending order. -/
def render (key : α → String) (cell : β → String) (m : Multimap α β) : String :=
  String.join <| m.cells.toList.map fun (k, s) =>
    key k ++ "\n" ++ String.join (s.toList.map fun v => "\t->" ++ cell v ++ "\n")

end Multimap

end PointerQuery

import PointerQuery.Layout
import PointerQuery.Ty

/-!
How much memory a type takes: the bytes a store writes, the alignment, and the distance between neighbours in
an array. Each is missing for a type without a size and for one whose size is no word.
-/

namespace PointerQuery

structure Extent where
  /-- Bytes that a store of a value writes. -/
  store? : Option Word
  align? : Option Word
  deriving DecidableEq

namespace Extent

def unsized : Extent :=
  ⟨none, none⟩

/-- The distance between two neighbours in memory: the store size rounded up to the alignment. -/
def alloc? (e : Extent) : Option Word := do
  Word.roundUp? (← e.store?) (← e.align?)

/-- `len` values after another. The alignment does not depend on their number. -/
def array (e : Extent) (len : Word) : Extent :=
  ⟨e.alloc?.bind fun size => Word.mul? size len, e.align?⟩

/-- Where the next field of a struct may start, and the largest alignment of the fields before it. -/
structure Cursor where
  offset : Word := 0
  align : Word := 1

/-- Puts a field at the first suitable place. The fields of a packed struct are not aligned. -/
def Cursor.place? (packed : Bool) (c : Cursor) (field : Extent) : Option Cursor := do
  let align ← if packed then some 1 else field.align?
  let start ← Word.roundUp? c.offset align
  let size ← field.alloc?
  let offset ← Word.add? start size
  some ⟨offset, max c.align align⟩

/-- Fields after another in the given order. A struct that cannot be placed has no alignment either. -/
def struct (packed : Bool) (fields : List Extent) : Extent :=
  let placed := do
    let c ← fields.foldlM (Cursor.place? packed) {}
    let size ← Word.roundUp? c.offset c.align
    some (size, c.align)
  ⟨placed.map Prod.fst, placed.map Prod.snd⟩

end Extent

namespace Layout

/-- Whole bytes that hold a number of bits. -/
def bytesFor (bits : UInt32) : Word :=
  (bits.toUInt64 + 7) / 8

/-- The alignment that a scalar of a number of bytes asks for by itself. -/
def naturalAlign (bytes : Word) : Word :=
  UInt64.ofNat (Word.powerAbove bytes.toNat)

mutual

def extent (L : Layout) : Ty → Extent
  | .void | .func | .incomplete => Extent.unsized
  | .int bits =>
    if bits = 0 then Extent.unsized
    else ⟨some (bytesFor bits), some (min (naturalAlign (bytesFor bits)) L.maxIntAlign.bytes)⟩
  | .float bits =>
    if bits = 0 then Extent.unsized
    else ⟨some (bytesFor bits), some (naturalAlign (bytesFor bits))⟩
  | .ptr => ⟨some L.pointerSize, some L.pointerSize⟩
  | .array elem len => (L.extent elem).array len
  | .struct packed fields => Extent.struct packed (L.extents fields)

def extents (L : Layout) : List Ty → List Extent
  | [] => []
  | t :: ts => L.extent t :: L.extents ts

end

theorem extents_eq_map (L : Layout) (ts : List Ty) : L.extents ts = ts.map L.extent := by
  induction ts with
  | nil => rfl
  | cons t ts ih => simp [extents, ih]

def storeSize? (L : Layout) (t : Ty) : Option Word :=
  (L.extent t).store?

def abiAlign? (L : Layout) (t : Ty) : Option Word :=
  (L.extent t).align?

def allocSize? (L : Layout) (t : Ty) : Option Word :=
  (L.extent t).alloc?

end Layout

end PointerQuery

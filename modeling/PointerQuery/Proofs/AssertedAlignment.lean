import Mathlib.Data.Nat.Bitwise
import PointerQuery.Proofs.Alignment

namespace PointerQuery

/-- The bits from `k` on make up what is left without the remainder. -/
theorem and_high_mask {r k width : Nat} (hr : r < 2 ^ width) (hk : k ≤ width) :
    r &&& (2 ^ width - 2 ^ k) = r - r % 2 ^ k := by
  have hcut : r - r % 2 ^ k = 2 ^ k * (r / 2 ^ k) := by
    have hsplit := Nat.div_add_mod r (2 ^ k)
    omega
  have hpos : 0 < 2 ^ k := Nat.two_pow_pos k
  have hle : 2 ^ k ≤ 2 ^ width := Nat.pow_le_pow_right (by decide) hk
  have hpred : 2 ^ k - 1 < 2 ^ width := by omega
  have hmask : 2 ^ width - 2 ^ k = 2 ^ width - (2 ^ k - 1 + 1) := by omega
  rw [hcut, hmask]
  apply Nat.eq_of_testBit_eq
  intro i
  rw [Nat.testBit_and, Nat.testBit_two_pow_sub_succ hpred, Nat.testBit_two_pow_sub_one, Nat.testBit_two_pow_mul,
    Nat.testBit_div_two_pow]
  by_cases hi : i < k
  · simp [hi]
  · have hki : k ≤ i := Nat.le_of_not_lt hi
    have hbit : r.testBit i = true → i < width := by
      intro hset
      by_contra hout
      have hlarge : 2 ^ width ≤ 2 ^ i := Nat.pow_le_pow_right (by decide) (Nat.le_of_not_lt hout)
      rw [Nat.testBit_lt_two_pow (hr.trans_le hlarge)] at hset
      cases hset
    simpa [hi, hki, Nat.sub_add_cancel hki] using hbit

namespace Word

theorem and_not_pred (r align : Word) (h : IsPowerOfTwo align.toNat) : r &&& ~~~(align - 1) = r - r % align := by
  obtain ⟨k, hlt, hk⟩ := align.exists_exponent h
  have hmask : (~~~(align - 1)).toNat = 2 ^ 64 - 2 ^ k := by
    have hpos : 0 < 2 ^ k := Nat.two_pow_pos k
    rw [UInt64.toNat_not, align.toNat_sub_one h, hk, size_eq]
    omega
  apply UInt64.toNat_inj.mp
  rw [UInt64.toNat_and, hmask, toNat_sub_mod, hk]
  exact and_high_mask r.toNat_lt hlt.le

end Word

/-- A computation that may give nothing, and that stops with the alignment that fails an assertion. -/
abbrev Asserted (α : Type) := OptionT (Except Word) α

namespace Asserted

/-- A computation without assertions. -/
def given {α : Type} (x? : Option α) : Asserted α :=
  OptionT.mk (.ok x?)

/-- Where the next step asserts nothing that fails, neither does the whole. -/
theorem given_bind {α β : Type} {x? : Option α} {f : α → Asserted β} {g : α → Option β}
    (h : ∀ a, x? = some a → f a = given (g a)) : given x? >>= f = given (x? >>= g) := by
  cases x? with
  | none => rfl
  | some a => exact h a rfl

theorem foldlM_given {α β : Type} {f : α → β → Asserted α} {g : α → β → Option α} {xs : List β}
    (h : ∀ x ∈ xs, ∀ a, f a x = given (g a x)) (a : α) : xs.foldlM f a = given (xs.foldlM g a) := by
  induction xs generalizing a with
  | nil => rfl
  | cons x xs ih =>
    obtain ⟨hx, hxs⟩ := List.forall_mem_cons.mp h
    rw [List.foldlM_cons, List.foldlM_cons, hx]
    exact given_bind fun b _ => ih hxs b

end Asserted

open Asserted (given)

/-- Rounds up by clearing the bits below the alignment, which has to be a power of two. -/
def Word.assertedRoundUp (w align : Word) : Asserted Word :=
  if IsPowerOfTwo align.toNat then given ((Word.add? w (align - 1)).map fun reach => reach &&& ~~~(align - 1))
  else OptionT.mk (.error align)

namespace Extent

def assertedAlloc (e : Extent) : Asserted Word := do
  let store ← given e.store?
  let align ← given e.align?
  Word.assertedRoundUp store align

def Cursor.assertedPlace (packed : Bool) (c : Cursor) (field : Extent) : Asserted Cursor := do
  let align ← given (if packed then some 1 else field.align?)
  let start ← Word.assertedRoundUp c.offset align
  let size ← field.assertedAlloc
  let offset ← given (Word.add? start size)
  pure ⟨offset, max c.align align⟩

def assertedPlaced (packed : Bool) (fields : List Extent) : Asserted (Word × Word) := do
  let c ← fields.foldlM (Cursor.assertedPlace packed) {}
  let size ← Word.assertedRoundUp c.offset c.align
  pure (size, c.align)

end Extent

namespace Layout

mutual

/-- The extent of a type, with an assertion in front of every rounding. -/
def assertedExtent (L : Layout) : Ty → Except Word Extent
  | .array elem len => do
    let e ← L.assertedExtent elem
    let size? ← e.assertedAlloc.run
    pure ⟨size?.bind fun size => Word.mul? size len, e.align?⟩
  | .struct packed fields => do
    let es ← L.assertedExtents fields
    let placed? ← (Extent.assertedPlaced packed es).run
    pure ⟨placed?.map Prod.fst, placed?.map Prod.snd⟩
  | t => pure (L.extent t)

def assertedExtents (L : Layout) : List Ty → Except Word (List Extent)
  | [] => pure []
  | t :: ts => do
    let e ← L.assertedExtent t
    let es ← L.assertedExtents ts
    pure (e :: es)

end

def assertedAllocSize (L : Layout) (t : Ty) : Except Word (Option Word) := do
  let e ← L.assertedExtent t
  e.assertedAlloc.run

end Layout

theorem Word.assertedRoundUp_eq (w align : Word) (h : IsPowerOfTwo align.toNat) :
    assertedRoundUp w align = given (roundUp? w align) := by
  have hclear : (fun reach : Word => reach &&& ~~~(align - 1)) = fun reach => reach - reach % align :=
    funext fun reach => and_not_pred reach align h
  rw [assertedRoundUp, if_pos h, add?, align.toNat_sub_one h, hclear]
  rfl

namespace Extent

theorem Aligned.assertedAlloc_eq {e : Extent} (h : e.Aligned) : e.assertedAlloc = given e.alloc? := by
  apply Asserted.given_bind
  intro store _
  apply Asserted.given_bind
  intro align halign
  exact Word.assertedRoundUp_eq store align (h align halign)

theorem Aligned.assertedPlace_eq {e : Extent} (h : e.Aligned) (packed : Bool) (c : Cursor) :
    c.assertedPlace packed e = given (c.place? packed e) := by
  have hplace : c.place? packed e = (if packed then some 1 else e.align?) >>= fun align =>
      Word.roundUp? c.offset align >>= fun start => e.alloc? >>= fun size =>
        Word.add? start size >>= fun offset => some ⟨offset, max c.align align⟩ := by
    cases packed <;> rfl
  rw [hplace]
  apply Asserted.given_bind
  intro align halign
  rw [Word.assertedRoundUp_eq c.offset align (h.inStruct packed halign), h.assertedAlloc_eq]
  apply Asserted.given_bind
  intro start _
  apply Asserted.given_bind
  intro size _
  apply Asserted.given_bind
  intro offset _
  rfl

/-- The alignment of a struct is a power of two, so its last rounding passes as well. -/
theorem assertedPlaced_eq (packed : Bool) {fields : List Extent} (h : ∀ e ∈ fields, e.Aligned) :
    assertedPlaced packed fields = given (placed? packed fields) := by
  have hfold := Asserted.foldlM_given (fun e he c => (h e he).assertedPlace_eq packed c) {}
  rw [assertedPlaced, hfold]
  apply Asserted.given_bind
  intro c hc
  have hpow := align_isPowerOfTwo_of_foldlM (c := {}) h isPowerOfTwo_one hc
  rw [Word.assertedRoundUp_eq c.offset c.align hpow]
  apply Asserted.given_bind
  intro size _
  rfl

end Extent

namespace Layout

theorem assertedExtents_eq {L : Layout} {ts : List Ty} (h : ∀ t ∈ ts, L.assertedExtent t = pure (L.extent t)) :
    L.assertedExtents ts = pure (L.extents ts) := by
  induction ts with
  | nil => rfl
  | cons t ts ih =>
    obtain ⟨ht, hts⟩ := List.forall_mem_cons.mp h
    rw [assertedExtents, ht, pure_bind, ih hts, pure_bind, extents]

theorem assertedExtent_eq (L : Layout) (t : Ty) : L.assertedExtent t = pure (L.extent t) := by
  induction t with
  | array elem len ih =>
    rw [assertedExtent, ih, pure_bind, (L.aligned_extent elem).assertedAlloc_eq]
    rfl
  | struct packed fields ih =>
    rw [assertedExtent, assertedExtents_eq ih, pure_bind, Extent.assertedPlaced_eq packed (L.aligned_extents fields)]
    rfl
  | _ => rfl

theorem assertedAllocSize_eq (L : Layout) (t : Ty) : L.assertedAllocSize t = pure (L.allocSize? t) := by
  rw [assertedAllocSize, assertedExtent_eq, pure_bind]
  exact congrArg OptionT.run (L.aligned_extent t).assertedAlloc_eq

end Layout

/-- Alignments and sizes in any layout. Every alignment is a power of two, and so is every other number that is
rounded up to on the way to the extent of a type and to its size: asserting it before each rounding changes nothing,
nor does clearing bits in place of cutting off the remainder. A type with a size has a store size and an alignment, and
the size is the first multiple of the alignment that is not below the store size. For pointers, arrays and structs the
two sizes are the same, also in that they may be missing. -/
theorem layout_alignment_invariants (L : Layout) (t : Ty) :
    (∀ align, L.abiAlign? t = some align → ∃ k, align.toNat = 2 ^ k) ∧
    L.assertedExtent t = .ok (L.extent t) ∧
    L.assertedAllocSize t = .ok (L.allocSize? t) ∧
    (∀ size, L.allocSize? t = some size → ∃ store align, L.storeSize? t = some store ∧
      L.abiAlign? t = some align ∧ align.toNat ∣ size.toNat ∧ store.toNat ≤ size.toNat ∧
      size.toNat < store.toNat + align.toNat) ∧
    L.allocSize? .ptr = L.storeSize? .ptr ∧
    (∀ elem len, L.allocSize? (.array elem len) = L.storeSize? (.array elem len)) ∧
    ∀ packed fields, L.allocSize? (.struct packed fields) = L.storeSize? (.struct packed fields) := by
  refine ⟨?_, L.assertedExtent_eq t, L.assertedAllocSize_eq t, fun _ => Layout.exists_of_allocSize?,
    L.allocSize?_ptr_eq_storeSize?, L.allocSize?_array_eq_storeSize?, L.allocSize?_struct_eq_storeSize?⟩
  intro align halign
  exact (L.aligned_extent t align halign).exists_eq

example : (Word.assertedRoundUp 5 6).run = .error 6 := rfl

/-- Pointers of four bytes, and integers with no larger alignment. -/
def narrowLayout : Layout :=
  ⟨.bits32, ⟨4, isPowerOfTwo_two_pow 2⟩⟩

/-- Nine bytes would ask for an alignment of sixteen, which is capped, and are rounded up to twelve. -/
theorem layout_alignment_invariants_narrow :
    narrowLayout.abiAlign? (.int 72) = some 4 ∧ narrowLayout.allocSize? (.int 72) = some 12 ∧
    (∃ k, (4 : Word).toNat = 2 ^ k) ∧ narrowLayout.assertedAllocSize (.int 72) = .ok (some 12) ∧
    ∃ store, narrowLayout.storeSize? (.int 72) = some store ∧ store.toNat ≤ 12 ∧ 12 < store.toNat + 4 := by
  obtain ⟨hpow, _, hasserted, hsize, _⟩ := layout_alignment_invariants narrowLayout (.int 72)
  have halign : narrowLayout.abiAlign? (.int 72) = some 4 := by decide
  have halloc : narrowLayout.allocSize? (.int 72) = some 12 := by decide
  obtain ⟨store, align, hstore, halign', _, hle, hlt⟩ := hsize 12 halloc
  obtain rfl : 4 = align := Option.some.inj (halign.symm.trans halign')
  rw [halloc] at hasserted
  exact ⟨halign, halloc, hpow 4 halign, hasserted, store, hstore, hle, hlt⟩

end PointerQuery

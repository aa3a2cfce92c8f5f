/-!
Byte counts are 64-bit words. Arithmetic on them is done in the natural numbers and is refused when the
result is no word, so that no count ever wraps.
-/

namespace PointerQuery

abbrev Word := UInt64

namespace Word

/-- The word that stands for `n`, if there is one. -/
def ofNat? (n : Nat) : Option Word :=
  if h : n < UInt64.size then some (UInt64.ofNatLT n h) else none

theorem ofNat?_eq_some_iff {n : Nat} {w : Word} : ofNat? n = some w ↔ w.toNat = n := by
  unfold ofNat?
  split
  · rename_i h
    simp only [Option.some.injEq]
    constructor
    · rintro rfl; exact UInt64.toNat_ofNatLT
    · rintro rfl; exact UInt64.toNat_inj.1 UInt64.toNat_ofNatLT
  · rename_i h
    simp only [reduceCtorEq, false_iff]
    rintro rfl
    exact h w.toNat_lt

theorem ofNat?_eq_none_iff {n : Nat} : ofNat? n = none ↔ UInt64.size ≤ n := by
  unfold ofNat?
  split <;> simp_all

theorem ofNat?_toNat (w : Word) : ofNat? w.toNat = some w :=
  ofNat?_eq_some_iff.2 rfl

def add? (a b : Word) : Option Word :=
  ofNat? (a.toNat + b.toNat)

def mul? (a b : Word) : Option Word :=
  ofNat? (a.toNat * b.toNat)

/-- The largest word. -/
def top : Word :=
  UInt64.ofNatLT (UInt64.size - 1) (by decide)

/-- The least multiple of `align` that is not below `w`, for an alignment that is a power of two. It is
refused as soon as `w` and the padding leave the words, which for such an alignment is when that multiple is
no word. -/
def roundUp? (w align : Word) : Option Word :=
  let reach := w.toNat + (align.toNat - 1)
  (ofNat? reach).map fun r => r - r % align

/-- The least power of two that is not below `n`. -/
def powerAbove (n : Nat) : Nat :=
  if n ≤ 1 then 1 else 1 <<< ((n - 1).log2 + 1)

end Word

/-- Powers of two: the numbers that their leading bit alone makes up. -/
def IsPowerOfTwo (n : Nat) : Prop :=
  1 <<< n.log2 = n

instance (n : Nat) : Decidable (IsPowerOfTwo n) :=
  inferInstanceAs (Decidable (1 <<< n.log2 = n))

theorem isPowerOfTwo_iff {n : Nat} : IsPowerOfTwo n ↔ ∃ k, n = 1 <<< k := by
  constructor
  · intro h; exact ⟨n.log2, h.symm⟩
  · rintro ⟨k, rfl⟩
    simp only [IsPowerOfTwo, Nat.one_shiftLeft, Nat.log2_two_pow]

end PointerQuery

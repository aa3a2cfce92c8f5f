import Mathlib.Algebra.Order.Floor.Div
import Mathlib.Data.Nat.Log
import PointerQuery.Word

namespace PointerQuery

/-- The least multiple of `align` that is not below `n`. -/
def roundUp (n align : Nat) : Nat :=
  align * (n ⌈/⌉ align)

section Multiple

variable {n m align : Nat}

theorem dvd_roundUp (n align : Nat) : align ∣ roundUp n align :=
  Nat.dvd_mul_right align _

theorem le_roundUp (n : Nat) (hpos : 0 < align) : n ≤ roundUp n align :=
  le_smul_ceilDiv hpos

theorem roundUp_le (hpos : 0 < align) (hle : n ≤ m) (hdvd : align ∣ m) : roundUp n align ≤ m := by
  obtain ⟨k, rfl⟩ := hdvd
  exact Nat.mul_le_mul_left align ((ceilDiv_le_iff_le_mul hpos).mpr hle)

theorem roundUp_eq_self (hpos : 0 < align) (hdvd : align ∣ n) : roundUp n align = n :=
  Nat.le_antisymm (roundUp_le hpos le_rfl hdvd) (le_roundUp n hpos)

theorem roundUp_lt_add (n : Nat) (hpos : 0 < align) : roundUp n align < n + align := by
  have hle : roundUp n align ≤ n + align - 1 := Nat.mul_div_le (n + align - 1) align
  omega

theorem roundUp_one (n : Nat) : roundUp n 1 = n :=
  roundUp_eq_self Nat.one_pos (Nat.one_dvd n)

/-- Cutting off the remainder of what the padding can reach gives the least multiple. -/
theorem reach_sub_mod (n : Nat) (hpos : 0 < align) :
    n + (align - 1) - (n + (align - 1)) % align = roundUp n align := by
  have hreach : n + (align - 1) = n + align - 1 := by omega
  rw [hreach, roundUp, Nat.ceilDiv_eq_add_pred_div]
  have hsplit := Nat.div_add_mod (n + align - 1) align
  omega

end Multiple

theorem isPowerOfTwo_two_pow (k : Nat) : IsPowerOfTwo (2 ^ k) :=
  isPowerOfTwo_iff.mpr ⟨k, (Nat.one_shiftLeft k).symm⟩

theorem isPowerOfTwo_one : IsPowerOfTwo 1 :=
  isPowerOfTwo_two_pow 0

theorem IsPowerOfTwo.exists_eq {n : Nat} (h : IsPowerOfTwo n) : ∃ k, n = 2 ^ k := by
  obtain ⟨k, hk⟩ := isPowerOfTwo_iff.mp h
  exact ⟨k, hk.trans (Nat.one_shiftLeft k)⟩

theorem IsPowerOfTwo.pos {n : Nat} (h : IsPowerOfTwo n) : 0 < n := by
  obtain ⟨k, rfl⟩ := h.exists_eq
  exact Nat.two_pow_pos k

namespace Word

theorem size_eq : UInt64.size = 2 ^ 64 := by
  decide

theorem map_ofNat? {n : Nat} (h : n < UInt64.size) : (ofNat? n).map UInt64.toNat = some n :=
  Option.map_eq_some_iff.mpr ⟨UInt64.ofNatLT n h, ofNat?_eq_some_iff.mpr UInt64.toNat_ofNatLT, UInt64.toNat_ofNatLT⟩

theorem exists_exponent (align : Word) (h : IsPowerOfTwo align.toNat) : ∃ k < 64, align.toNat = 2 ^ k := by
  obtain ⟨k, hk⟩ := h.exists_eq
  have hlt : 2 ^ k < 2 ^ 64 := by
    rw [← hk, ← size_eq]
    exact align.toNat_lt_size
  exact ⟨k, (Nat.pow_lt_pow_iff_right Nat.one_lt_two).mp hlt, hk⟩

theorem dvd_size (align : Word) (h : IsPowerOfTwo align.toNat) : align.toNat ∣ UInt64.size := by
  obtain ⟨k, hlt, hk⟩ := align.exists_exponent h
  rw [hk, size_eq]
  exact Nat.pow_dvd_pow 2 hlt.le

/-- Cutting off a remainder does not wrap around. -/
theorem toNat_sub_mod (w align : Word) : (w - w % align).toNat = w.toNat - w.toNat % align.toNat := by
  have hmod : w % align ≤ w := by
    rw [UInt64.le_iff_toNat_le, UInt64.toNat_mod]
    exact Nat.mod_le w.toNat align.toNat
  rw [UInt64.toNat_sub_of_le w (w % align) hmod, UInt64.toNat_mod]

theorem toNat_sub_one (align : Word) (h : IsPowerOfTwo align.toNat) : (align - 1).toNat = align.toNat - 1 :=
  UInt64.toNat_sub_of_le align 1 (UInt64.le_iff_toNat_le.mpr h.pos)

/-- A multiple that is a word leaves room for the padding in front of it. -/
theorem reach_lt_size (v align : Word) (h : IsPowerOfTwo align.toNat)
    (hlt : roundUp v.toNat align.toNat < UInt64.size) : v.toNat + (align.toNat - 1) < UInt64.size := by
  have hpos := h.pos
  have hle := le_roundUp v.toNat hpos
  have hnext : roundUp v.toNat align.toNat + align.toNat ≤ UInt64.size := by
    obtain ⟨k, hk⟩ := dvd_roundUp v.toNat align.toNat
    obtain ⟨l, hl⟩ := align.dvd_size h
    rw [hk, hl] at hlt
    have hkl : k + 1 ≤ l := Nat.lt_of_mul_lt_mul_left hlt
    calc
      roundUp v.toNat align.toNat + align.toNat = align.toNat * (k + 1) := by rw [hk, Nat.mul_succ]
      _ ≤ align.toNat * l := Nat.mul_le_mul_left align.toNat hkl
      _ = UInt64.size := hl.symm
  omega

/-- Rounding up on words is exact, and it is refused only if the rounded number is no word. -/
theorem roundUp?_eq (v align : Word) (h : IsPowerOfTwo align.toNat) :
    roundUp? v align = ofNat? (roundUp v.toNat align.toNat) := by
  have hpos := h.pos
  change (ofNat? (v.toNat + (align.toNat - 1))).map (fun r => r - r % align) = _
  cases hreach : ofNat? (v.toNat + (align.toNat - 1)) with
  | none =>
    have hbig : UInt64.size ≤ v.toNat + (align.toNat - 1) := ofNat?_eq_none_iff.mp hreach
    have hnone : UInt64.size ≤ roundUp v.toNat align.toNat := by
      by_contra hsmall
      have hlt := reach_lt_size v align h (Nat.lt_of_not_le hsmall)
      omega
    exact (ofNat?_eq_none_iff.mpr hnone).symm
  | some r =>
    have hr : r.toNat = v.toNat + (align.toNat - 1) := ofNat?_eq_some_iff.mp hreach
    symm
    apply ofNat?_eq_some_iff.mpr
    calc
      (r - r % align).toNat = r.toNat - r.toNat % align.toNat := toNat_sub_mod r align
      _ = roundUp v.toNat align.toNat := by rw [hr, reach_sub_mod v.toNat hpos]

theorem roundUp?_eq_some_iff {v align r : Word} (h : IsPowerOfTwo align.toNat) :
    roundUp? v align = some r ↔ r.toNat = roundUp v.toNat align.toNat := by
  rw [roundUp?_eq v align h, ofNat?_eq_some_iff]

theorem roundUp?_eq_none_iff {v align : Word} (h : IsPowerOfTwo align.toNat) :
    roundUp? v align = none ↔ UInt64.size ≤ roundUp v.toNat align.toNat := by
  rw [roundUp?_eq v align h, ofNat?_eq_none_iff]

theorem add?_eq_some_iff {a b w : Word} : add? a b = some w ↔ w.toNat = a.toNat + b.toNat :=
  ofNat?_eq_some_iff

/-- The least power of two that is not below a number. -/
theorem powerAbove_eq (n : Nat) : powerAbove n = 2 ^ Nat.clog 2 n := by
  unfold powerAbove
  split
  · rename_i hsmall
    rw [Nat.clog_of_right_le_one hsmall, pow_zero]
  · rename_i hlarge
    have hpred : n - 1 ≠ 0 := by omega
    have hupper : Nat.clog 2 n ≤ (n - 1).log2 + 1 := by
      apply (Nat.clog_le_iff_le_pow Nat.one_lt_two).mpr
      have hlt : n - 1 < 2 ^ ((n - 1).log2 + 1) := Nat.lt_log2_self
      omega
    have hlower : (n - 1).log2 < Nat.clog 2 n := by
      apply (Nat.lt_clog_iff_pow_lt Nat.one_lt_two).mpr
      have hle : 2 ^ (n - 1).log2 ≤ n - 1 := Nat.log2_self_le hpred
      omega
    have hclog : Nat.clog 2 n = (n - 1).log2 + 1 := by omega
    rw [hclog, Nat.one_shiftLeft]

end Word

/-- A number from one on is rounded up to the least power of two above it in one step. -/
theorem roundUp_two_pow_clog {n : Nat} (hpos : 0 < n) : roundUp n (2 ^ Nat.clog 2 n) = 2 ^ Nat.clog 2 n := by
  have hpow : 0 < 2 ^ Nat.clog 2 n := Nat.two_pow_pos _
  have hle : n ≤ 2 ^ Nat.clog 2 n := Nat.le_pow_clog Nat.one_lt_two n
  apply Nat.le_antisymm
  · exact roundUp_le hpow hle dvd_rfl
  · exact Nat.le_of_dvd (hpos.trans_le (le_roundUp n hpow)) (dvd_roundUp n _)

end PointerQuery

import Mathlib.Data.Int.ModEq
import Mathlib.Data.Nat.Bitwise
import PointerQuery.IntConst

namespace PointerQuery

theorem modulus_eq (width : Nat) : modulus width = 2 ^ width :=
  Nat.one_shiftLeft width

namespace IntConst

theorem eq_iff {c d : IntConst} : c = d ↔ c.width = d.width ∧ c.value = d.value := by
  cases c
  cases d
  simp

theorem value_lt_two_pow (c : IntConst) : c.value < 2 ^ c.width := by
  rw [← modulus_eq]
  exact c.value_lt

/-- The mask keeps the remainder. -/
theorem and_mask (width n : Nat) : n &&& mask width = n % 2 ^ width := by
  rw [mask, modulus_eq]
  exact Nat.and_two_pow_sub_one_eq_mod n width

@[simp]
theorem width_ofNat (width n : Nat) : (ofNat width n).width = width := by
  unfold ofNat
  split <;> rfl

@[simp]
theorem width_ofInt (width : Nat) (v : Int) : (ofInt width v).width = width := by
  cases v with
  | ofNat n => exact width_ofNat width n
  | negSucc k => rfl

theorem value_ofNat (width n : Nat) : (ofNat width n).value = n % 2 ^ width := by
  unfold ofNat
  split
  · rename_i hbits
    have hlt : n < 2 ^ width := by
      rw [← modulus_eq]
      exact (bitLength_le_iff n width).mp hbits
    exact (Nat.mod_eq_of_lt hlt).symm
  · exact and_mask width n

/-- The complement within the mask: nothing is borrowed, as no remainder is above the mask. -/
theorem value_negSucc_add (width k : Nat) :
    (ofInt width (Int.negSucc k)).value + (k &&& mask width) = mask width :=
  Nat.sub_add_cancel Nat.and_le_right

theorem value_ofInt (width : Nat) (v : Int) : ((ofInt width v).value : Int) = v % 2 ^ width := by
  have hpow : ((2 ^ width : Nat) : Int) = 2 ^ width := Nat.cast_pow 2 width
  have hmod (n : Nat) : ((n % 2 ^ width : Nat) : Int) = n % 2 ^ width := by
    rw [Int.natCast_emod, hpow]
  cases v with
  | ofNat n =>
    calc
      ((ofNat width n).value : Int) = ((n % 2 ^ width : Nat) : Int) := by rw [value_ofNat]
      _ = n % 2 ^ width := hmod n
  | negSucc k =>
    have hsum : (ofInt width (Int.negSucc k)).value + k % 2 ^ width = mask width := by
      rw [← and_mask]
      exact value_negSucc_add width k
    have hmask : mask width + 1 = 2 ^ width := by
      rw [mask, modulus_eq]
      exact Nat.sub_add_cancel Nat.one_le_two_pow
    have hpos : (0 : Int) < 2 ^ width := Int.pow_pos (by decide)
    rw [Int.negSucc_emod k hpos, ← hmod, ← hpow]
    omega

/-- The number that a constant holds is the only one of its width with the same remainder. -/
theorem value_ofInt_eq_iff (width : Nat) (v : Int) (x : Nat) :
    (ofInt width v).value = x ↔ x < 2 ^ width ∧ x ≡ v [ZMOD 2 ^ width] := by
  constructor
  · intro h
    have hlt := (ofInt width v).value_lt_two_pow
    rw [width_ofInt, h] at hlt
    refine ⟨hlt, ?_⟩
    rw [← h, value_ofInt]
    exact Int.mod_modEq v _
  · intro h
    have hx : (x : Int) % 2 ^ width = x := Int.emod_eq_of_lt (Int.natCast_nonneg x) (by exact_mod_cast h.1)
    have hvalue : ((ofInt width v).value : Int) = x :=
      calc
        ((ofInt width v).value : Int) = v % 2 ^ width := value_ofInt width v
        _ = (x : Int) % 2 ^ width := h.2.symm
        _ = x := hx
    exact Int.natCast_inj.mp hvalue

theorem value_ofNat_eq_iff (width n x : Nat) :
    (ofNat width n).value = x ↔ x < 2 ^ width ∧ x ≡ n [MOD 2 ^ width] := by
  have hint := value_ofInt_eq_iff width n x
  rw [← Int.natCast_modEq_iff]
  exact_mod_cast hint

theorem ofInt_eq_ofInt_iff (width : Nat) (a b : Int) :
    ofInt width a = ofInt width b ↔ a ≡ b [ZMOD 2 ^ width] := by
  have hvalues : (ofInt width a).value = (ofInt width b).value ↔ a % 2 ^ width = b % 2 ^ width := by
    rw [← value_ofInt, ← value_ofInt, Int.natCast_inj]
  rw [eq_iff, width_ofInt, width_ofInt, hvalues]
  exact and_iff_right rfl

theorem ofNat_value (c : IntConst) : ofNat c.width c.value = c := by
  rw [eq_iff, width_ofNat, value_ofNat, Nat.mod_eq_of_lt c.value_lt_two_pow]
  exact ⟨rfl, rfl⟩

theorem toWord?_eq (c : IntConst) : c.toWord? = Word.ofNat? c.value := by
  have hzero := bitLength_le_iff c.value 0
  have hword := bitLength_le_iff c.value 64
  rw [modulus_eq] at hzero hword
  unfold toWord? numDigits
  split
  · rename_i hnone
    have hvalue : c.value = 0 := by omega
    rw [hvalue]
    rfl
  · rename_i hone
    have hlt : c.value < UInt64.size := hword.mp (by omega)
    exact (Word.ofNat?_eq_some_iff.mpr (UInt64.toNat_ofNat_of_lt' hlt)).symm
  · rename_i hnone hone
    have hge : UInt64.size ≤ c.value := by
      apply Nat.le_of_not_lt
      intro hlt
      have hbits : bitLength c.value ≤ 64 := hword.mpr hlt
      have hdigits : (bitLength c.value + 63) / 64 ≤ 1 := by omega
      rcases Nat.le_one_iff_eq_zero_or_eq_one.mp hdigits with hzero | hdigit
      · exact hnone hzero
      · exact hone hdigit
    exact (Word.ofNat?_eq_none_iff.mpr hge).symm

theorem toWord?_eq_some_iff {c : IntConst} {w : Word} : c.toWord? = some w ↔ w.toNat = c.value := by
  rw [toWord?_eq, Word.ofNat?_eq_some_iff]

theorem toWord?_eq_none_iff {c : IntConst} : c.toWord? = none ↔ UInt64.size ≤ c.value := by
  rw [toWord?_eq, Word.ofNat?_eq_none_iff]

/-- A value beyond the words counts as the largest one. -/
theorem saturated_toNat (c : IntConst) : c.saturated.toNat = min c.value (UInt64.size - 1) := by
  rw [saturated]
  cases hc : c.toWord? with
  | some w =>
    have hw := toWord?_eq_some_iff.mp hc
    have hlt := w.toNat_lt_size
    rw [Option.getD_some]
    omega
  | none =>
    have hbig := toWord?_eq_none_iff.mp hc
    have htop : Word.top.toNat = UInt64.size - 1 := UInt64.toNat_ofNatLT
    rw [Option.getD_none]
    omega

theorem isZero_iff (c : IntConst) : c.isZero = true ↔ c.value = 0 :=
  beq_iff_eq

end IntConst

/-- What a constant holds. Made from any number, it holds the one number below the power of two of its width that is
congruent to it; the complement that negative numbers are made with borrows nothing. So two numbers give the same
constant just if they are congruent, and a constant is made again from its width and its value. It is read as a word
if the value is one, else as none or as the largest word, and it is zero just if the power of two divides the number
that it was made from. -/
theorem constants_exact_residues (width : Nat) :
    (∀ n x : Nat, (IntConst.ofNat width n).value = x ↔ x < 2 ^ width ∧ x ≡ n [MOD 2 ^ width]) ∧
    (∀ (v : Int) (x : Nat), (IntConst.ofInt width v).value = x ↔ x < 2 ^ width ∧ x ≡ v [ZMOD 2 ^ width]) ∧
    (∀ (n : Nat) (v : Int), (IntConst.ofNat width n).width = width ∧ (IntConst.ofInt width v).width = width) ∧
    (∀ k : Nat, (IntConst.ofInt width (-(k + 1))).value + (k &&& IntConst.mask width) = IntConst.mask width) ∧
    (∀ a b : Int, IntConst.ofInt width a = IntConst.ofInt width b ↔ a ≡ b [ZMOD 2 ^ width]) ∧
    (∀ (n : Nat) (v : Int), ((IntConst.ofNat width n).isZero = true ↔ n % 2 ^ width = 0) ∧
      ((IntConst.ofInt width v).isZero = true ↔ v % 2 ^ width = 0)) ∧
    ∀ c : IntConst, IntConst.ofNat c.width c.value = c ∧
      (∀ w, c.toWord? = some w ↔ c.value = w.toNat) ∧ (c.toWord? = none ↔ 2 ^ 64 ≤ c.value) ∧
      c.saturated.toNat = min c.value (2 ^ 64 - 1) := by
  refine ⟨IntConst.value_ofNat_eq_iff width, IntConst.value_ofInt_eq_iff width,
    fun n v => ⟨IntConst.width_ofNat width n, IntConst.width_ofInt width v⟩, fun k => ?_,
    IntConst.ofInt_eq_ofInt_iff width, fun n v => ⟨?_, ?_⟩, fun c => ⟨c.ofNat_value, fun w => ?_, ?_, ?_⟩⟩
  · rw [← Int.negSucc_eq]
    exact IntConst.value_negSucc_add width k
  · rw [IntConst.isZero_iff, IntConst.value_ofNat]
  · rw [IntConst.isZero_iff, ← Int.natCast_eq_zero, IntConst.value_ofInt]
  · exact IntConst.toWord?_eq_some_iff.trans eq_comm
  · exact IntConst.toWord?_eq_none_iff
  · exact c.saturated_toNat

example : [(-1, 8), (-2, 64), (0x1FF, 8), (-9223372036854775808, 64)].map (fun p => (IntConst.ofInt p.2 p.1).value) =
    [0xFF, 2 ^ 64 - 2, 0xFF, 2 ^ 63] := by
  decide

end PointerQuery

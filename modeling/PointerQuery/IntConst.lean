import PointerQuery.Text.Hex
import PointerQuery.Word

namespace PointerQuery

/-- How many numbers there are of a width in bits. -/
def modulus (width : Nat) : Nat :=
  1 <<< width

theorem modulus_pos (width : Nat) : 0 < modulus width := by
  rw [modulus, Nat.one_shiftLeft]
  exact Nat.two_pow_pos width

/-- The number of binary digits of a number; zero has none. -/
def bitLength (n : Nat) : Nat :=
  if n = 0 then 0 else n.log2 + 1

theorem bitLength_le_iff (n width : Nat) : bitLength n ≤ width ↔ n < modulus width := by
  unfold bitLength
  split
  · rename_i h
    rw [h]
    exact iff_of_true (Nat.zero_le width) (modulus_pos width)
  · rename_i h
    rw [modulus, Nat.one_shiftLeft]
    exact Nat.succ_le_iff.trans (Nat.log2_lt h)

structure IntConst where
  width : Nat
  value : Nat
  value_lt : value < modulus width
  deriving DecidableEq

namespace IntConst

/-- The number whose `width` lowest bits are set and no others. -/
def mask (width : Nat) : Nat :=
  modulus width - 1

theorem mask_lt (width : Nat) : mask width < modulus width :=
  Nat.sub_lt (modulus_pos width) Nat.one_pos

/-- Drops the bits of `n` from `width` on. The mask is not computed when there are none: a width may be far larger
than the number. -/
def ofNat (width n : Nat) : IntConst :=
  if h : bitLength n ≤ width then ⟨width, n, (bitLength_le_iff n width).1 h⟩
  else ⟨width, n &&& mask width, Nat.lt_of_le_of_lt Nat.and_le_right (mask_lt width)⟩

/-- The two's complement form: `-(k + 1)` has the bits that `k` has not. -/
def ofInt (width : Nat) : Int → IntConst
  | .ofNat n => ofNat width n
  | .negSucc k => ⟨width, mask width - (k &&& mask width), Nat.lt_of_le_of_lt (Nat.sub_le ..) (mask_lt width)⟩

def isZero (c : IntConst) : Bool :=
  c.value == 0

/-- The number of digits to the base of the words. -/
def numDigits (n : Nat) : Nat :=
  (bitLength n + 63) / 64

/-- The value, if it has no more than one digit to the base of the words. -/
def toWord? (c : IntConst) : Option Word :=
  match numDigits c.value with
  | 0 => some 0
  | 1 => some (UInt64.ofNat c.value)
  | _ => none

/-- The value, or the largest word if it is beyond. -/
def saturated (c : IntConst) : Word :=
  c.toWord?.getD Word.top

def render (c : IntConst) : String :=
  "i" ++ Nat.repr c.width ++ " " ++ Nat.repr c.value

def renderHex (c : IntConst) : String :=
  Text.hex c.value ++ ":i" ++ Nat.repr c.width

end IntConst

end PointerQuery

import PointerQuery.Diagnostic
import PointerQuery.Text.KeyNumberList

namespace PointerQuery

inductive PointerWidth where
  | bits16
  | bits32
  | bits64
  deriving DecidableEq

namespace PointerWidth

def bits : PointerWidth → Nat
  | bits16 => 16
  | bits32 => 32
  | bits64 => 64

def ofBits? : Nat → Option PointerWidth
  | 16 => some bits16
  | 32 => some bits32
  | 64 => some bits64
  | _ => none

theorem ofBits?_eq_some_iff {n : Nat} {w : PointerWidth} : ofBits? n = some w ↔ n = w.bits := by
  constructor
  · intro h
    unfold ofBits? at h
    split at h <;> cases h <;> rfl
  · rintro rfl
    cases w <;> rfl

/-- The size of a pointer in bytes. -/
def bytes (w : PointerWidth) : Word :=
  UInt64.ofNat (w.bits / 8)

/-- The largest number of the width. -/
def max (w : PointerWidth) : Word :=
  Word.top >>> UInt64.ofNat (64 - w.bits)

end PointerWidth

/-- An alignment in bytes: a power of two that is a word. -/
structure Alignment where
  bytes : Word
  isPowerOfTwo : IsPowerOfTwo bytes.toNat
  deriving DecidableEq

namespace Alignment

def ofBytes? (bytes : Word) : Option Alignment :=
  if h : IsPowerOfTwo bytes.toNat then some ⟨bytes, h⟩ else none

theorem isPowerOfTwo_of_bits {n : Nat} (h : (8 ≤ n ∧ n ≤ 128) ∧ IsPowerOfTwo n) :
    IsPowerOfTwo (UInt64.ofNat (n / 8)).toNat := by
  obtain ⟨k, hk⟩ := isPowerOfTwo_iff.1 h.2
  have hword : n / 8 < UInt64.size := Nat.lt_of_le_of_lt (Nat.div_le_div_right h.1.2) (by decide)
  have hpow : n = 2 ^ k := by rw [hk, Nat.one_shiftLeft]
  have hle : 3 ≤ k := (Nat.pow_le_pow_iff_right (by decide)).1 (hpow ▸ h.1.1 : 2 ^ 3 ≤ 2 ^ k)
  rw [UInt64.toNat_ofNat_of_lt' hword, isPowerOfTwo_iff]
  refine ⟨k - 3, ?_⟩
  rw [Nat.one_shiftLeft, hpow]
  exact Nat.pow_div hle (by decide)

/-- Integer alignments that a layout description may ask for, given in bits. -/
def ofBits? (n : Nat) : Option Alignment :=
  if h : (8 ≤ n ∧ n ≤ 128) ∧ IsPowerOfTwo n then some ⟨UInt64.ofNat (n / 8), isPowerOfTwo_of_bits h⟩ else none

end Alignment

structure Layout where
  pointerWidth : PointerWidth := .bits64
  /-- Integers are aligned to their size, but never to more than this. -/
  maxIntAlign : Alignment := ⟨8, by decide⟩
  deriving DecidableEq

inductive LayoutError where
  | pointerWidth (bits : Nat)
  | intAlign
  deriving DecidableEq

def LayoutError.message : LayoutError → String
  | pointerWidth bits => "Unsupported pointer width: " ++ Nat.repr bits
  | intAlign => "Integer alignment must be a power of two."

namespace Layout

/-- The layout that counts where nothing else is said. -/
def standard : Layout :=
  {}

/-- The layout with a pointer width in bits and a largest integer alignment in bytes. -/
def ofParts (pointerBits : Nat) (maxIntAlign : Word) : Except LayoutError Layout :=
  match PointerWidth.ofBits? pointerBits with
  | none => .error (.pointerWidth pointerBits)
  | some width =>
    match Alignment.ofBytes? maxIntAlign with
    | none => .error .intAlign
    | some align => .ok ⟨width, align⟩

/-- The size of a pointer in bytes. -/
def pointerSize (L : Layout) : Word :=
  L.pointerWidth.bytes

/-- The largest number of pointer width. -/
def nativeMax (L : Layout) : Word :=
  L.pointerWidth.max

open Text.KeyNumberList (Entry)

/-- One entry of a layout description: `p` gives the pointer width and `i` the largest integer alignment,
both in bits. -/
def set? (L : Layout) (e : Entry) : Option Layout :=
  match e.key with
  | "p" => (PointerWidth.ofBits? e.number.toNat).map fun w => { L with pointerWidth := w }
  | "i" => (Alignment.ofBits? e.number.toNat).map fun a => { L with maxIntAlign := a }
  | _ => none

/-- Takes over the entries from first to last, up to the first that is not understood. -/
def setAll (L : Layout) : List Entry → Logged (Option Layout)
  | [] => pure (some L)
  | e :: es =>
    match L.set? e with
    | some L => L.setAll es
    | none => do
      Logged.report .warn
        ("Invalid data layout entry '" ++ e.key ++ ":" ++ Nat.repr e.number.toNat ++ "'")
      pure none

/-- Reads a description such as `p:32, i:64`. What it does not mention is as in the standard layout, and of two
entries for one key the last counts. -/
def ofText (text : String) : Logged (Option Layout) :=
  match Text.KeyNumberList.parse? text with
  | none => pure none
  | some entries => standard.setAll entries

end Layout

end PointerQuery

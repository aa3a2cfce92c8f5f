import PointerQuery.Proofs.ExactSize

namespace PointerQuery

namespace Slot

variable {s : Slot} (hpos : 0 < s.align) (hdvd : s.align ∣ s.size)

include hpos hdvd

/-- From a multiple of the alignment on, equal fields stand close together. -/
theorem foldl_stopFrom_replicate (n : Nat) {offset : Nat} (hoffset : s.align ∣ offset) :
    (List.replicate n s).foldl stopFrom offset = offset + n * s.size := by
  induction n generalizing offset with
  | zero => simp
  | succ n ih =>
    have hnext : s.align ∣ offset + s.size := Nat.dvd_add hoffset hdvd
    have hstop : s.stopFrom offset = offset + s.size := by
      rw [stopFrom, roundUp_eq_self hpos hoffset]
    rw [List.replicate_succ, List.foldl_cons, hstop, ih hnext, Nat.succ_mul]
    omega

/-- The last field ends at a multiple of the alignment, so nothing is added behind it. -/
theorem tight_replicate (n : Nat) : tight (List.replicate n s) = n * s.size := by
  have hmax (p : Nat → Prop) (hone : p 1) (hs : p s.align) : p (maxAlign (List.replicate n s)) := by
    apply maxAlign_rec hone
    intro r hr
    rw [List.eq_of_mem_replicate hr]
    exact hs
  have hmaxPos : 0 < maxAlign (List.replicate n s) := hmax (0 < ·) Nat.one_pos hpos
  have hmaxDvd : maxAlign (List.replicate n s) ∣ n * s.size :=
    hmax (· ∣ n * s.size) (one_dvd _) (hdvd.mul_left n)
  have hstop : stop (List.replicate n s) = n * s.size := by
    rw [stop, foldl_stopFrom_replicate hpos hdvd n (Nat.dvd_zero _), Nat.zero_add]
  rw [tight, hstop, roundUp_eq_self hmaxPos hmaxDvd]

omit hdvd in
theorem maxAlign_replicate {n : Nat} (hn : n ≠ 0) : maxAlign (List.replicate n s) = s.align := by
  have hsame (n : Nat) : (List.replicate n s).foldl (fun align r => max align r.align) s.align = s.align := by
    induction n with
    | zero => rfl
    | succ n ih => rw [List.replicate_succ, List.foldl_cons, max_self, ih]
  obtain ⟨m, rfl⟩ := Nat.exists_eq_succ_of_ne_zero hn
  rw [maxAlign, List.replicate_succ, List.foldl_cons, max_eq_right hpos, hsame]

end Slot

namespace Layout

variable {L : Layout} {t : Ty} {s : Slot}

theorem HasSlot.align_pos (h : L.HasSlot t s) : 0 < s.align :=
  (h.inStruct false).isPowerOfTwo.pos

theorem HasSlot.replicate (h : L.HasSlot t s) (n : Nat) :
    List.Forall₂ L.HasSlot (List.replicate n t) (List.replicate n s) := by
  induction n with
  | zero => exact .nil
  | succ n ih => exact .cons h ih

theorem HasSlot.allocSize?_replicate (h : L.HasSlot t s) (packed : Bool) (n : Nat) :
    L.allocSize? (.struct packed (List.replicate n t)) = Word.ofNat? (n * s.size) := by
  have hdvd := h.align_dvd_size
  rw [allocSize?_struct (h.replicate n) packed, List.map_replicate]
  cases packed with
  | true => exact congrArg Word.ofNat? (Slot.tight_replicate Nat.one_pos (one_dvd s.size) n)
  | false => exact congrArg Word.ofNat? (Slot.tight_replicate h.align_pos hdvd n)

theorem HasSlot.abiAlign?_replicate (h : L.HasSlot t s) {n : Nat} (hn : n ≠ 0) {size : Word}
    (hsize : L.allocSize? (.struct false (List.replicate n t)) = some size) :
    L.abiAlign? (.struct false (List.replicate n t)) = L.abiAlign? t := by
  have halign := abiAlign?_struct (h.replicate n) false hsize
  rw [List.map_replicate] at halign
  have hmax : Slot.maxAlign (List.replicate n (s.inStruct false)) = s.align :=
    Slot.maxAlign_replicate h.align_pos hn
  rw [hmax, ← h.align] at halign
  exact Option.map_injective (fun _ _ => UInt64.toNat_inj.mp) halign

end Layout

/-- An array of at least one element and the struct with as many fields of that type, packed or not, have the same
size, and none of them has one where another has none. If there is a size, the struct that is not packed also has the
alignment of the array. -/
theorem repeated_fields_like_array (L : Layout) (t : Ty) (n : UInt64) (hn : 1 ≤ n) :
    L.allocSize? (.struct false (List.replicate n.toNat t)) = L.allocSize? (.array t n) ∧
    L.allocSize? (.struct true (List.replicate n.toNat t)) = L.allocSize? (.array t n) ∧
    ∀ size, L.allocSize? (.struct false (List.replicate n.toNat t)) = some size →
      L.abiAlign? (.struct false (List.replicate n.toNat t)) = L.abiAlign? (.array t n) := by
  have hne : n.toNat ≠ 0 := by
    have hle := UInt64.le_iff_toNat_le.mp hn
    change 1 ≤ n.toNat at hle
    omega
  cases hsize : L.allocSize? t with
  | none =>
    have hmem : t ∈ List.replicate n.toNat t := List.mem_replicate.mpr ⟨hne, rfl⟩
    have hstruct (packed : Bool) : L.allocSize? (.struct packed (List.replicate n.toNat t)) = none := by
      refine Option.eq_none_iff_forall_ne_some.mpr fun total htotal => ?_
      obtain ⟨size, hsome⟩ := Layout.exists_allocSize?_of_struct htotal t hmem
      rw [hsize] at hsome
      cases hsome
    rw [hstruct, hstruct, Layout.allocSize?_array_eq_none hsize]
    exact ⟨rfl, rfl, fun _ h => nomatch h⟩
  | some size =>
    have hslot := Layout.hasSlot_of_allocSize? hsize
    have hstruct (packed : Bool) :
        L.allocSize? (.struct packed (List.replicate n.toNat t)) = L.allocSize? (.array t n) := by
      rw [hslot.allocSize?_replicate, Layout.allocSize?_array hslot]
    exact ⟨hstruct false, hstruct true, fun _ htotal => hslot.abiAlign?_replicate hne htotal⟩

example : Layout.standard.abiAlign? (.array (.int 64) 0) = some 8 ∧
    Layout.standard.abiAlign? (.struct false []) = some 1 ∧
    Layout.standard.allocSize? (.array .void 0) = none ∧ Layout.standard.allocSize? (.struct false []) = some 0 := by
  decide

/-- An element of nine bytes with seven bytes of padding. -/
def paddedElem : Ty :=
  .struct false [.int 64, .int 8]

/-- So many elements that the next one would not fit among the words. -/
def mostPadded : UInt64 :=
  0x0FFFFFFFFFFFFFFF

theorem repeated_fields_like_array_padded : 1 ≤ mostPadded ∧
    Layout.standard.allocSize? (.struct false (List.replicate mostPadded.toNat paddedElem)) =
      some 0xFFFFFFFFFFFFFFF0 ∧
    Layout.standard.allocSize? (.struct true (List.replicate mostPadded.toNat paddedElem)) =
      some 0xFFFFFFFFFFFFFFF0 ∧
    Layout.standard.abiAlign? (.struct false (List.replicate mostPadded.toNat paddedElem)) = some 8 ∧
    Layout.standard.allocSize? (.struct false (List.replicate (mostPadded + 1).toNat paddedElem)) = none := by
  obtain ⟨hplain, hpacked, halign⟩ := repeated_fields_like_array .standard paddedElem mostPadded (by decide)
  obtain ⟨hnext, _⟩ := repeated_fields_like_array .standard paddedElem (mostPadded + 1) (by decide)
  have hsize : Layout.standard.allocSize? (.array paddedElem mostPadded) = some 0xFFFFFFFFFFFFFFF0 := by decide
  have hnone : Layout.standard.allocSize? (.array paddedElem (mostPadded + 1)) = none := by decide
  have harray : Layout.standard.abiAlign? (.array paddedElem mostPadded) = some 8 := by decide
  rw [hsize] at hplain hpacked
  rw [hnone] at hnext
  rw [harray] at halign
  exact ⟨by decide, hplain, hpacked, halign _ hplain, hnext⟩

end PointerQuery

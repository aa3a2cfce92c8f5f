import PointerQuery.Layout.Extent
import PointerQuery.Proofs.Rounding

namespace PointerQuery

namespace Layout

theorem bytesFor_toNat (bits : UInt32) : (bytesFor bits).toNat = bits.toNat ⌈/⌉ 8 := by
  have hbits : bits.toNat < 2 ^ 32 := bits.toNat_lt
  have hsum : (bits.toUInt64 + 7).toNat = bits.toNat + 7 := by
    rw [UInt64.toNat_add, UInt32.toNat_toUInt64]
    exact Nat.mod_eq_of_lt (by change bits.toNat + 7 < _; omega)
  rw [bytesFor, UInt64.toNat_div, hsum]
  rfl

theorem bytes_le (bits : UInt32) : bits.toNat ⌈/⌉ 8 ≤ 2 ^ 29 := by
  have hbits : bits.toNat < 2 ^ 32 := bits.toNat_lt
  apply (ceilDiv_le_iff_le_mul (by decide)).mpr
  omega

theorem two_pow_clog_bytes_le (bits : UInt32) : 2 ^ Nat.clog 2 (bits.toNat ⌈/⌉ 8) ≤ 2 ^ 29 :=
  Nat.pow_le_pow_right (by decide) (Nat.clog_le_of_le_pow (bytes_le bits))

theorem naturalAlign_toNat (bits : UInt32) :
    (naturalAlign (bytesFor bits)).toNat = 2 ^ Nat.clog 2 (bits.toNat ⌈/⌉ 8) := by
  have hle := two_pow_clog_bytes_le bits
  rw [naturalAlign, Word.powerAbove_eq, bytesFor_toNat]
  apply UInt64.toNat_ofNat_of_lt
  change _ < 2 ^ 64
  omega

end Layout

namespace Extent

/-- The alignment is a power of two, if there is one. -/
def Aligned (e : Extent) : Prop :=
  ∀ align, e.align? = some align → IsPowerOfTwo align.toNat

/-- What a field is aligned to in a struct is a power of two as well. -/
theorem Aligned.inStruct {e : Extent} (h : e.Aligned) (packed : Bool) {align : Word}
    (halign : (if packed then some 1 else e.align?) = some align) : IsPowerOfTwo align.toNat := by
  cases packed with
  | true =>
    cases halign
    exact isPowerOfTwo_one
  | false => exact h align halign

/-- What it takes to put a field behind others. -/
theorem Cursor.place?_eq_some_iff {packed : Bool} {c c' : Cursor} {e : Extent} :
    c.place? packed e = some c' ↔ ∃ align start size offset,
      (if packed then some 1 else e.align?) = some align ∧ Word.roundUp? c.offset align = some start ∧
      e.alloc? = some size ∧ Word.add? start size = some offset ∧ ⟨offset, max c.align align⟩ = c' := by
  cases packed <;> simp [place?, Option.bind_eq_some_iff]

theorem align_isPowerOfTwo_of_foldlM {packed : Bool} {fields : List Extent} {c c' : Cursor}
    (hfields : ∀ e ∈ fields, e.Aligned) (hc : IsPowerOfTwo c.align.toNat)
    (h : fields.foldlM (Cursor.place? packed) c = some c') : IsPowerOfTwo c'.align.toNat := by
  induction fields generalizing c with
  | nil =>
    cases h
    exact hc
  | cons e fields ih =>
    obtain ⟨he, hfields⟩ := List.forall_mem_cons.mp hfields
    obtain ⟨d, hd, hrest⟩ := Option.bind_eq_some_iff.mp h
    obtain ⟨align, _, _, _, halign, _, _, _, rfl⟩ := Cursor.place?_eq_some_iff.mp hd
    refine ih hfields ?_ hrest
    rw [UInt64.toNat_max]
    exact max_rec' IsPowerOfTwo hc (he.inStruct packed halign)

/-- The size and the alignment of a struct. -/
def placed? (packed : Bool) (fields : List Extent) : Option (Word × Word) := do
  let c ← fields.foldlM (Cursor.place? packed) {}
  let size ← Word.roundUp? c.offset c.align
  some (size, c.align)

theorem struct_eq (packed : Bool) (fields : List Extent) :
    struct packed fields = ⟨(placed? packed fields).map Prod.fst, (placed? packed fields).map Prod.snd⟩ :=
  rfl

theorem placed?_eq_some_iff {packed : Bool} {fields : List Extent} {size align : Word} :
    placed? packed fields = some (size, align) ↔ ∃ c, fields.foldlM (Cursor.place? packed) {} = some c ∧
      Word.roundUp? c.offset c.align = some size ∧ c.align = align := by
  simp [placed?, Option.bind_eq_some_iff]

theorem Aligned.struct (packed : Bool) {fields : List Extent} (hfields : ∀ e ∈ fields, e.Aligned) :
    (struct packed fields).Aligned := by
  intro align halign
  obtain ⟨⟨size, _⟩, hplaced, rfl⟩ := Option.map_eq_some_iff.mp halign
  obtain ⟨c, hc, _, rfl⟩ := placed?_eq_some_iff.mp hplaced
  exact align_isPowerOfTwo_of_foldlM (c := {}) hfields isPowerOfTwo_one hc

/-- The size of a struct is a multiple of its alignment already. -/
theorem alloc?_struct (packed : Bool) {fields : List Extent} (hfields : ∀ e ∈ fields, e.Aligned) :
    (struct packed fields).alloc? = (placed? packed fields).map Prod.fst := by
  have haligned := Aligned.struct packed hfields
  cases hplaced : placed? packed fields with
  | none =>
    rw [alloc?, struct_eq, hplaced]
    rfl
  | some p =>
    obtain ⟨size, align⟩ := p
    have hpow : IsPowerOfTwo align.toNat := by
      apply haligned
      rw [struct_eq, hplaced]
      rfl
    have hdvd : align.toNat ∣ size.toNat := by
      obtain ⟨c, _, hsize, rfl⟩ := placed?_eq_some_iff.mp hplaced
      rw [(Word.roundUp?_eq_some_iff hpow).mp hsize]
      exact dvd_roundUp _ _
    rw [alloc?, struct_eq, hplaced]
    apply (Word.roundUp?_eq_some_iff hpow).mpr
    exact (roundUp_eq_self hpow.pos hdvd).symm

end Extent

namespace Layout

theorem aligned_extent (L : Layout) (t : Ty) : (L.extent t).Aligned := by
  induction t with
  | void | func | incomplete => exact fun _ h => nomatch h
  | int bits =>
    intro align halign
    unfold extent at halign
    split at halign
    · cases halign
    · cases halign
      rw [UInt64.toNat_min, naturalAlign_toNat]
      exact min_rec' IsPowerOfTwo (isPowerOfTwo_two_pow _) L.maxIntAlign.isPowerOfTwo
  | float bits =>
    intro align halign
    unfold extent at halign
    split at halign
    · cases halign
    · cases halign
      rw [naturalAlign_toNat]
      exact isPowerOfTwo_two_pow _
  | ptr =>
    intro align halign
    cases halign
    unfold pointerSize
    cases L.pointerWidth <;> decide
  | array elem len ih => exact ih
  | struct packed fields ih =>
    apply Extent.Aligned.struct
    rw [extents_eq_map]
    exact List.forall_mem_map.mpr ih

theorem aligned_extents (L : Layout) (ts : List Ty) : ∀ e ∈ L.extents ts, e.Aligned := by
  rw [extents_eq_map]
  exact List.forall_mem_map.mpr fun t _ => L.aligned_extent t

/-- The size is the store size rounded up, so it is less than one alignment above. -/
theorem exists_of_allocSize? {L : Layout} {t : Ty} {size : Word} (h : L.allocSize? t = some size) :
    ∃ store align, L.storeSize? t = some store ∧ L.abiAlign? t = some align ∧ align.toNat ∣ size.toNat ∧
      store.toNat ≤ size.toNat ∧ size.toNat < store.toNat + align.toNat := by
  obtain ⟨store, hstore, hround⟩ := Option.bind_eq_some_iff.mp h
  obtain ⟨align, halign, hround⟩ := Option.bind_eq_some_iff.mp hround
  have hpow := L.aligned_extent t align halign
  refine ⟨store, align, hstore, halign, ?_⟩
  rw [(Word.roundUp?_eq_some_iff hpow).mp hround]
  exact ⟨dvd_roundUp _ _, le_roundUp _ hpow.pos, roundUp_lt_add _ hpow.pos⟩

/-- A store size that is a multiple of the alignment is not rounded up. -/
theorem allocSize?_eq_some_of_dvd {L : Layout} {t : Ty} {store align : Word} (hstore : L.storeSize? t = some store)
    (halign : L.abiAlign? t = some align) (hdvd : align.toNat ∣ store.toNat) : L.allocSize? t = some store := by
  have hpow := L.aligned_extent t align halign
  apply Option.bind_eq_some_iff.mpr
  refine ⟨store, hstore, Option.bind_eq_some_iff.mpr ⟨align, halign, ?_⟩⟩
  exact (Word.roundUp?_eq_some_iff hpow).mpr (roundUp_eq_self hpow.pos hdvd).symm

theorem allocSize?_eq_none_of_storeSize? {L : Layout} {t : Ty} (h : L.storeSize? t = none) :
    L.allocSize? t = none :=
  Option.bind_eq_none_iff.mpr fun _ hstore => nomatch h.symm.trans hstore

theorem allocSize?_ptr_eq_storeSize? (L : Layout) : L.allocSize? .ptr = L.storeSize? .ptr := by
  have hstore : L.storeSize? .ptr = some L.pointerSize := rfl
  have halign : L.abiAlign? .ptr = some L.pointerSize := rfl
  rw [hstore]
  exact allocSize?_eq_some_of_dvd hstore halign dvd_rfl

theorem storeSize?_array (L : Layout) (elem : Ty) (len : UInt64) :
    L.storeSize? (.array elem len) = (L.allocSize? elem).bind fun size => Word.mul? size len :=
  rfl

/-- The elements of an array are a multiple of their alignment apart, so there is nothing to round up. -/
theorem allocSize?_array_eq_storeSize? (L : Layout) (elem : Ty) (len : UInt64) :
    L.allocSize? (.array elem len) = L.storeSize? (.array elem len) := by
  cases hstore : L.storeSize? (.array elem len) with
  | none => exact allocSize?_eq_none_of_storeSize? hstore
  | some store =>
    rw [storeSize?_array] at hstore
    obtain ⟨size, hsize, hmul⟩ := Option.bind_eq_some_iff.mp hstore
    obtain ⟨_, align, _, halign, hdvd, _⟩ := exists_of_allocSize? hsize
    refine allocSize?_eq_some_of_dvd hstore halign ?_
    rw [Word.ofNat?_eq_some_iff.mp hmul]
    exact hdvd.mul_right len.toNat

theorem allocSize?_struct_eq_storeSize? (L : Layout) (packed : Bool) (fields : List Ty) :
    L.allocSize? (.struct packed fields) = L.storeSize? (.struct packed fields) :=
  Extent.alloc?_struct packed (L.aligned_extents fields)

end Layout

end PointerQuery

import PointerQuery.Proofs.StructPlacement

namespace PointerQuery

/-- The types that occur in a type: itself, and what occurs in its elements or fields. -/
inductive Ty.Within (u : Ty) : Ty → Prop where
  | self : Within u u
  | elem {elem : Ty} (len : UInt64) : Within u elem → Within u (.array elem len)
  | field {fields : List Ty} {t : Ty} (packed : Bool) : t ∈ fields → Within u t → Within u (.struct packed fields)

namespace Layout

mutual

/-- The room that a value of a sized type asks for by the layout rules, whether it is a word or not. -/
def slot (L : Layout) : Ty → Slot
  | .void | .func | .incomplete => ⟨0, 1⟩
  | .int bits =>
    let bytes := bits.toNat ⌈/⌉ 8
    let align := min (2 ^ Nat.clog 2 bytes) L.maxIntAlign.bytes.toNat
    ⟨roundUp bytes align, align⟩
  | .float bits => ⟨2 ^ Nat.clog 2 (bits.toNat ⌈/⌉ 8), 2 ^ Nat.clog 2 (bits.toNat ⌈/⌉ 8)⟩
  | .ptr => ⟨L.pointerWidth.bits / 8, L.pointerWidth.bits / 8⟩
  | .array elem len => ⟨len.toNat * (L.slot elem).size, (L.slot elem).align⟩
  | .struct packed fields =>
    ⟨Slot.tight ((L.slots fields).map (Slot.inStruct packed)),
      Slot.maxAlign ((L.slots fields).map (Slot.inStruct packed))⟩

def slots (L : Layout) : List Ty → List Slot
  | [] => []
  | t :: ts => L.slot t :: L.slots ts

end

theorem slots_eq_map (L : Layout) (ts : List Ty) : L.slots ts = ts.map L.slot := by
  induction ts with
  | nil => rfl
  | cons t ts ih => rw [slots, ih, List.map_cons]

/-- The size of the type and of all types inside are words. -/
def Fits (L : Layout) (t : Ty) : Prop :=
  ∀ u : Ty, u.Within t → (L.slot u).size < UInt64.size

theorem fits_array_iff (L : Layout) (elem : Ty) (len : UInt64) :
    L.Fits (.array elem len) ↔ (L.slot (.array elem len)).size < UInt64.size ∧ L.Fits elem := by
  constructor
  · intro h
    exact ⟨h _ .self, fun u hu => h u (.elem len hu)⟩
  · intro h u hu
    cases hu with
    | self => exact h.1
    | elem _ hu => exact h.2 u hu

theorem fits_struct_iff (L : Layout) (packed : Bool) (fields : List Ty) :
    L.Fits (.struct packed fields) ↔
      (L.slot (.struct packed fields)).size < UInt64.size ∧ ∀ t ∈ fields, L.Fits t := by
  constructor
  · intro h
    exact ⟨h _ .self, fun t ht u hu => h u (.field packed ht hu)⟩
  · intro h u hu
    cases hu with
    | self => exact h.1
    | field _ ht hu => exact h.2 _ ht u hu

end Layout

theorem Extent.exists_alloc?_of_foldlM {packed : Bool} {fields : List Extent} {c c' : Cursor}
    (h : fields.foldlM (Cursor.place? packed) c = some c') :
    ∀ e ∈ fields, ∃ size, e.alloc? = some size := by
  induction fields generalizing c with
  | nil => exact fun e he => absurd he List.not_mem_nil
  | cons e fields ih =>
    obtain ⟨d, hd, hrest⟩ := Option.bind_eq_some_iff.mp h
    obtain ⟨_, _, size, _, _, _, hsize, _⟩ := Cursor.place?_eq_some_iff.mp hd
    exact List.forall_mem_cons.mpr ⟨⟨size, hsize⟩, ih hrest⟩

namespace Layout

/-- A struct is placed only if all its fields have sizes. -/
theorem exists_allocSize?_of_placed? {L : Layout} {packed : Bool} {fields : List Ty} {p : Word × Word}
    (h : Extent.placed? packed (L.extents fields) = some p) : ∀ t ∈ fields, ∃ size, L.allocSize? t = some size := by
  obtain ⟨c, hc, _⟩ := Extent.placed?_eq_some_iff.mp h
  have hall := Extent.exists_alloc?_of_foldlM hc
  rw [extents_eq_map, List.forall_mem_map] at hall
  exact hall

theorem exists_allocSize?_of_struct {L : Layout} {packed : Bool} {fields : List Ty} {n : Word}
    (h : L.allocSize? (.struct packed fields) = some n) : ∀ t ∈ fields, ∃ size, L.allocSize? t = some size := by
  rw [allocSize?_struct_eq_storeSize?] at h
  obtain ⟨p, hp, _⟩ := Option.map_eq_some_iff.mp h
  exact exists_allocSize?_of_placed? hp

theorem extent_eq_unsized (L : Layout) {t : Ty} (h : t.isSized = false) : L.extent t = Extent.unsized := by
  induction t with
  | void | func | incomplete => rfl
  | int bits | float bits =>
    have hzero : bits = 0 := by simpa [Ty.isSized] using h
    rw [hzero]
    rfl
  | ptr => cases h
  | array elem len ih =>
    rw [extent, ih h]
    rfl
  | struct packed fields ih =>
    rw [Ty.isSized, Ty.allSized_eq_all, List.all_eq_false] at h
    obtain ⟨t, ht, hsized⟩ := h
    have hnone : L.extent t = Extent.unsized := ih t ht (Bool.not_eq_true _ ▸ hsized)
    have hplaced : Extent.placed? packed (L.extents fields) = none := by
      by_contra hsome
      obtain ⟨p, hp⟩ := Option.ne_none_iff_exists'.mp hsome
      obtain ⟨size, hsize⟩ := exists_allocSize?_of_placed? hp t ht
      rw [allocSize?, hnone] at hsize
      cases hsize
    rw [extent, Extent.struct_eq, hplaced]
    rfl

section Slots

variable {L : Layout} {t : Ty} {s : Slot}

theorem HasSlot.size_lt (h : L.HasSlot t s) : s.size < UInt64.size := by
  obtain ⟨size, _, heq⟩ := Option.map_eq_some_iff.mp h.size
  rw [← heq]
  exact size.toNat_lt_size

theorem HasSlot.align_dvd_size (h : L.HasSlot t s) : s.align ∣ s.size := by
  obtain ⟨size, hsize, hsizeNat⟩ := Option.map_eq_some_iff.mp h.size
  obtain ⟨align, halign, halignNat⟩ := Option.map_eq_some_iff.mp h.align
  obtain ⟨_, align', _, halign', hdvd, _⟩ := exists_of_allocSize? hsize
  obtain rfl : align = align' := Option.some.inj (halign.symm.trans halign')
  rw [← hsizeNat, ← halignNat]
  exact hdvd

theorem hasSlot_of_extent {store align : Word} (h : L.extent t = ⟨some store, some align⟩)
    (hlt : roundUp store.toNat align.toNat < UInt64.size) :
    L.HasSlot t ⟨roundUp store.toNat align.toNat, align.toNat⟩ := by
  have hpow : IsPowerOfTwo align.toNat := L.aligned_extent t align (by rw [h])
  have halloc : L.allocSize? t = Word.ofNat? (roundUp store.toNat align.toNat) := by
    rw [allocSize?, h]
    exact Word.roundUp?_eq store align hpow
  constructor
  · rw [halloc, Word.map_ofNat? hlt]
  · rw [abiAlign?, h]
    rfl

end Slots

theorem hasSlot_int (L : Layout) {bits : UInt32} (hbits : bits ≠ 0) : L.HasSlot (.int bits) (L.slot (.int bits)) := by
  have hextent : L.extent (.int bits) =
      ⟨some (bytesFor bits), some (min (naturalAlign (bytesFor bits)) L.maxIntAlign.bytes)⟩ := if_neg hbits
  have halign : (min (naturalAlign (bytesFor bits)) L.maxIntAlign.bytes).toNat =
      min (2 ^ Nat.clog 2 (bits.toNat ⌈/⌉ 8)) L.maxIntAlign.bytes.toNat := by
    rw [UInt64.toNat_min, naturalAlign_toNat]
  have hpos : 0 < min (2 ^ Nat.clog 2 (bits.toNat ⌈/⌉ 8)) L.maxIntAlign.bytes.toNat :=
    lt_min (Nat.two_pow_pos _) L.maxIntAlign.isPowerOfTwo.pos
  have hlt := roundUp_lt_add (bits.toNat ⌈/⌉ 8) hpos
  have hbytes := bytes_le bits
  have hclog := two_pow_clog_bytes_le bits
  have hmin := min_le_left (2 ^ Nat.clog 2 (bits.toNat ⌈/⌉ 8)) L.maxIntAlign.bytes.toNat
  have hslot := hasSlot_of_extent hextent
  rw [bytesFor_toNat, halign] at hslot
  apply hslot
  rw [Word.size_eq]
  omega

theorem hasSlot_float (L : Layout) {bits : UInt32} (hbits : bits ≠ 0) :
    L.HasSlot (.float bits) (L.slot (.float bits)) := by
  have hextent : L.extent (.float bits) = ⟨some (bytesFor bits), some (naturalAlign (bytesFor bits))⟩ :=
    if_neg hbits
  have hnat : bits.toNat ≠ 0 := fun h => hbits (UInt32.toNat_inj.mp h)
  have hpos : 0 < bits.toNat ⌈/⌉ 8 := by
    rw [Nat.ceilDiv_eq_add_pred_div]
    omega
  have hclog := two_pow_clog_bytes_le bits
  have hslot := hasSlot_of_extent hextent
  rw [bytesFor_toNat, naturalAlign_toNat, roundUp_two_pow_clog hpos] at hslot
  apply hslot
  rw [Word.size_eq]
  omega

theorem hasSlot_ptr (L : Layout) : L.HasSlot .ptr (L.slot .ptr) := by
  have hsize : L.pointerSize.toNat = L.pointerWidth.bits / 8 := by
    unfold pointerSize
    cases L.pointerWidth <;> rfl
  have hpow : IsPowerOfTwo L.pointerSize.toNat := L.aligned_extent .ptr L.pointerSize rfl
  have hslot := hasSlot_of_extent (L := L) (t := .ptr) rfl
  rw [roundUp_eq_self hpow.pos dvd_rfl, hsize] at hslot
  apply hslot
  rw [← hsize]
  exact L.pointerSize.toNat_lt_size

theorem allocSize?_array {L : Layout} {elem : Ty} {s : Slot} (h : L.HasSlot elem s) (len : UInt64) :
    L.allocSize? (.array elem len) = Word.ofNat? (len.toNat * s.size) := by
  obtain ⟨size, hsize, hsizeNat⟩ := Option.map_eq_some_iff.mp h.size
  rw [allocSize?_array_eq_storeSize?, storeSize?_array, hsize, Option.bind_some, Word.mul?, hsizeNat, Nat.mul_comm]

theorem allocSize?_array_eq_none {L : Layout} {elem : Ty} (h : L.allocSize? elem = none) (len : UInt64) :
    L.allocSize? (.array elem len) = none := by
  rw [allocSize?_array_eq_storeSize?, storeSize?_array, h, Option.bind_none]

/-- The size is exact: it is there for a sized type that fits, and for no other one. -/
structure Exact (L : Layout) (t : Ty) : Prop where
  hasSlot : t.isSized = true → L.Fits t → L.HasSlot t (L.slot t)
  sound : ∀ n, L.allocSize? t = some n → t.isSized = true ∧ L.Fits t

variable {L : Layout}

theorem Exact.of_unsized {t : Ty} (h : t.isSized = false) : L.Exact t := by
  constructor
  · intro hsized
    rw [h] at hsized
    cases hsized
  · intro n hn
    rw [allocSize?, L.extent_eq_unsized h] at hn
    cases hn

theorem Exact.of_scalar {t : Ty} (hsized : t.isSized = true) (hslot : L.HasSlot t (L.slot t))
    (honly : ∀ u : Ty, u.Within t → u = t) : L.Exact t := by
  constructor
  · exact fun _ _ => hslot
  · intro n hn
    refine ⟨hsized, fun u hu => ?_⟩
    rw [honly u hu]
    exact hslot.size_lt

theorem Exact.array {elem : Ty} (helem : L.Exact elem) (len : UInt64) : L.Exact (.array elem len) := by
  constructor
  · intro hsized hfits
    obtain ⟨hlt, hfits⟩ := (L.fits_array_iff elem len).mp hfits
    have hslot := helem.hasSlot hsized hfits
    refine ⟨?_, hslot.align⟩
    rw [allocSize?_array hslot len]
    exact Word.map_ofNat? hlt
  · intro n hn
    have hsome : L.allocSize? elem ≠ none := by
      intro hnone
      rw [allocSize?_array_eq_none hnone] at hn
      cases hn
    obtain ⟨size, hsize⟩ := Option.ne_none_iff_exists'.mp hsome
    obtain ⟨hsized, hfits⟩ := helem.sound size hsize
    rw [allocSize?_array (helem.hasSlot hsized hfits) len, Word.ofNat?_eq_some_iff] at hn
    refine ⟨hsized, (L.fits_array_iff elem len).mpr ⟨?_, hfits⟩⟩
    change len.toNat * (L.slot elem).size < UInt64.size
    rw [← hn]
    exact n.toNat_lt_size

theorem Exact.struct (packed : Bool) {fields : List Ty} (hfields : ∀ t ∈ fields, L.Exact t) :
    L.Exact (.struct packed fields) := by
  have hsized_iff : (Ty.struct packed fields).isSized = true ↔ ∀ t ∈ fields, t.isSized = true := by
    rw [Ty.isSized, Ty.allSized_eq_all, List.all_eq_true]
  have hslots (hsized : ∀ t ∈ fields, t.isSized = true) (hfits : ∀ t ∈ fields, L.Fits t) :
      List.Forall₂ L.HasSlot fields (L.slots fields) := by
    rw [slots_eq_map, List.forall₂_map_right_iff, List.forall₂_same]
    exact fun t ht => (hfields t ht).hasSlot (hsized t ht) (hfits t ht)
  constructor
  · intro hsized hfits
    obtain ⟨hlt, hfits⟩ := (L.fits_struct_iff packed fields).mp hfits
    have hslots := hslots (hsized_iff.mp hsized) hfits
    have hsize : (L.allocSize? (.struct packed fields)).map UInt64.toNat =
        some (L.slot (.struct packed fields)).size := by
      rw [allocSize?_struct hslots packed]
      exact Word.map_ofNat? hlt
    obtain ⟨size, hsome, _⟩ := Option.map_eq_some_iff.mp hsize
    exact ⟨hsize, abiAlign?_struct hslots packed hsome⟩
  · intro n hn
    have hall : ∀ t ∈ fields, t.isSized = true ∧ L.Fits t := by
      intro t ht
      obtain ⟨size, hsize⟩ := exists_allocSize?_of_struct hn t ht
      exact (hfields t ht).sound size hsize
    have hsized : ∀ t ∈ fields, t.isSized = true := fun t ht => (hall t ht).1
    have hfits : ∀ t ∈ fields, L.Fits t := fun t ht => (hall t ht).2
    rw [allocSize?_struct (hslots hsized hfits) packed, Word.ofNat?_eq_some_iff] at hn
    refine ⟨hsized_iff.mpr hsized, (L.fits_struct_iff packed fields).mpr ⟨?_, hfits⟩⟩
    change Slot.tight ((L.slots fields).map (Slot.inStruct packed)) < UInt64.size
    rw [← hn]
    exact n.toNat_lt_size

theorem extent_exact (L : Layout) (t : Ty) : L.Exact t := by
  induction t with
  | void | func | incomplete => exact .of_unsized rfl
  | int bits =>
    by_cases hbits : bits = 0
    · exact .of_unsized (by rw [hbits]; rfl)
    · exact .of_scalar (by simpa [Ty.isSized] using hbits) (L.hasSlot_int hbits) fun u hu => by cases hu; rfl
  | float bits =>
    by_cases hbits : bits = 0
    · exact .of_unsized (by rw [hbits]; rfl)
    · exact .of_scalar (by simpa [Ty.isSized] using hbits) (L.hasSlot_float hbits) fun u hu => by cases hu; rfl
  | ptr => exact .of_scalar rfl L.hasSlot_ptr fun u hu => by cases hu; rfl
  | array elem len ih => exact ih.array len
  | struct packed fields ih => exact .struct packed ih

theorem hasSlot_of_allocSize? {t : Ty} {n : Word} (h : L.allocSize? t = some n) : L.HasSlot t (L.slot t) := by
  have hexact := L.extent_exact t
  obtain ⟨hsized, hfits⟩ := hexact.sound n h
  exact hexact.hasSlot hsized hfits

end Layout

/-- The size of a type is the room that it asks for by the layout rules, and it is there exactly if the type is sized
and this room is a word for it and for every type inside. Each step of the computation is refused only if its exact
result is no word. A type that is not sized has no store size, no alignment and no allocation size. -/
theorem type_sizes_exact (L : Layout) (t : Ty) :
    (∀ n, L.allocSize? t = some n ↔ t.isSized = true ∧
      (∀ u : Ty, u.Within t → (L.slot u).size < UInt64.size) ∧ n.toNat = (L.slot t).size) ∧
    (∀ v align : Word, IsPowerOfTwo align.toNat →
      (Word.roundUp? v align = none ↔ UInt64.size ≤ roundUp v.toNat align.toNat)) ∧
    (∀ v w : Word, Word.add? v w = none ↔ UInt64.size ≤ v.toNat + w.toNat) ∧
    (∀ v w : Word, Word.mul? v w = none ↔ UInt64.size ≤ v.toNat * w.toNat) ∧
    (t.isSized = false → L.storeSize? t = none ∧ L.abiAlign? t = none ∧ L.allocSize? t = none) := by
  have hexact := L.extent_exact t
  refine ⟨fun n => ⟨?_, ?_⟩, fun _ _ => Word.roundUp?_eq_none_iff, fun _ _ => Word.ofNat?_eq_none_iff,
    fun _ _ => Word.ofNat?_eq_none_iff, ?_⟩
  · intro hn
    obtain ⟨hsized, hfits⟩ := hexact.sound n hn
    have hsize := (hexact.hasSlot hsized hfits).size
    rw [hn] at hsize
    exact ⟨hsized, hfits, Option.some.inj hsize⟩
  · intro h
    obtain ⟨hsized, hfits, hn⟩ := h
    obtain ⟨size, hsize, hsizeNat⟩ := Option.map_eq_some_iff.mp (hexact.hasSlot hsized hfits).size
    rw [hsize, UInt64.toNat_inj.mp (hsizeNat.trans hn.symm)]
  · intro hsized
    have hnone := L.extent_eq_unsized hsized
    rw [Layout.storeSize?, Layout.abiAlign?, Layout.allocSize?, hnone]
    exact ⟨rfl, rfl, rfl⟩

example : ([16, 32, 64, 80, 128].map fun bits => (Layout.standard.slot (.float bits)).size) = [2, 4, 8, 16, 16] := by
  decide

/-- Fields that take up as many bytes as there are words. -/
def wholeSpace : Ty :=
  .struct true [.array (.int 64) 0x1FFFFFFFFFFFFFFF, .int 64]

/-- An array of no elements asks for no room, but it has a size only if its elements have. -/
theorem type_sizes_exact_wholeSpace : (Ty.array wholeSpace 0).isSized = true ∧
    (Layout.standard.slot (.array wholeSpace 0)).size = 0 ∧
    (Layout.standard.slot wholeSpace).size = UInt64.size ∧
    Layout.standard.allocSize? (.array wholeSpace 0) = none := by
  obtain ⟨hsome, _⟩ := type_sizes_exact .standard (.array wholeSpace 0)
  have hwhole : (Layout.standard.slot wholeSpace).size = UInt64.size := by decide
  refine ⟨rfl, by decide, hwhole, ?_⟩
  apply Option.eq_none_iff_forall_ne_some.mpr
  intro n hn
  obtain ⟨_, hfits, _⟩ := (hsome n).mp hn
  have hlt := hfits wholeSpace (.elem 0 .self)
  omega

end PointerQuery

import PointerQuery.Proofs.Alignment

/-!
Structs are laid out as tightly as they can be. A placement gives every field a place of its alignment behind the
field before it, and a total that all fields fit in. Putting each field at the first suitable place gives a placement,
and no other one has a smaller total. The size of a struct is that total, or missing if it is no word.
-/

namespace PointerQuery

/-- The room that a field asks for: a number of bytes, and the alignment of its first one. -/
structure Slot where
  size : Nat
  align : Nat

namespace Slot

/-- The fields of a packed struct are not aligned. -/
def inStruct (packed : Bool) (s : Slot) : Slot :=
  if packed then { s with align := 1 } else s

/-- The largest of the alignments and one. -/
def maxAlign (slots : List Slot) : Nat :=
  slots.foldl (fun align s => max align s.align) 1

/-- Where a field ends that is put at the first suitable place from `offset` on. -/
def stopFrom (offset : Nat) (s : Slot) : Nat :=
  roundUp offset s.align + s.size

/-- Where the last field ends if each is put at the first suitable place behind the one before it. -/
def stop (slots : List Slot) : Nat :=
  slots.foldl stopFrom 0

/-- The bytes that a struct takes up if its fields are put at the first suitable places. -/
def tight (slots : List Slot) : Nat :=
  roundUp (stop slots) (maxAlign slots)

end Slot

/-- Places for the fields of a struct in their order, and a number of bytes that they all fit in. -/
structure Placement (slots : List Slot) where
  offset : Fin slots.length → Nat
  total : Nat
  aligned : ∀ i, (slots.get i).align ∣ offset i
  apart : ∀ i j, j.val = i.val + 1 → offset i + (slots.get i).size ≤ offset j
  within : ∀ i, i.val + 1 = slots.length → offset i + (slots.get i).size ≤ total
  total_aligned : Slot.maxAlign slots ∣ total

namespace Slot

theorem stop_take_succ (slots : List Slot) (i : Fin slots.length) :
    stop (slots.take (i + 1)) = stopFrom (stop (slots.take i)) (slots.get i) := by
  rw [List.take_succ_eq_append_getElem i.isLt, stop, List.foldl_append]
  rfl

variable {slots : List Slot}

/-- The largest alignment has what one and all alignments have. -/
theorem maxAlign_rec {p : Nat → Prop} (hone : p 1) (h : ∀ s ∈ slots, p s.align) : p (maxAlign slots) := by
  have hfold (align : Nat) (halign : p align) : p (slots.foldl (fun align s => max align s.align) align) := by
    induction slots generalizing align with
    | nil => exact halign
    | cons s slots ih =>
      obtain ⟨hs, hslots⟩ := List.forall_mem_cons.mp h
      exact ih hslots (max align s.align) (max_rec' p halign hs)
  exact hfold 1 hone

theorem maxAlign_isPowerOfTwo (h : ∀ s ∈ slots, IsPowerOfTwo s.align) : IsPowerOfTwo (maxAlign slots) :=
  maxAlign_rec isPowerOfTwo_one h

/-- There may be padding between the fields, but they never overlap. -/
theorem add_sum_le_foldl_stopFrom (h : ∀ s ∈ slots, IsPowerOfTwo s.align) (offset : Nat) :
    offset + (slots.map size).sum ≤ slots.foldl stopFrom offset := by
  induction slots generalizing offset with
  | nil => exact le_rfl
  | cons s slots ih =>
    obtain ⟨hs, hslots⟩ := List.forall_mem_cons.mp h
    have hstart : offset ≤ roundUp offset s.align := le_roundUp offset hs.pos
    calc
      offset + ((s :: slots).map size).sum = offset + s.size + (slots.map size).sum := by
        rw [List.map_cons, List.sum_cons, Nat.add_assoc]
      _ ≤ stopFrom offset s + (slots.map size).sum := by
        rw [stopFrom]
        omega
      _ ≤ slots.foldl stopFrom (stopFrom offset s) := ih hslots _

theorem stop_le_tight (h : ∀ s ∈ slots, IsPowerOfTwo s.align) : stop slots ≤ tight slots :=
  le_roundUp _ (maxAlign_isPowerOfTwo h).pos

end Slot

namespace Placement

variable {slots : List Slot} (hpow : ∀ s ∈ slots, IsPowerOfTwo s.align)

include hpow

/-- A field that does not start too early does not end before it can. -/
theorem stop_take_succ_le (p : Placement slots) (i : Fin slots.length)
    (h : Slot.stop (slots.take i) ≤ p.offset i) :
    Slot.stop (slots.take (i + 1)) ≤ p.offset i + (slots.get i).size := by
  have hpos : 0 < (slots.get i).align := (hpow _ (List.get_mem slots i)).pos
  have hstart : roundUp (Slot.stop (slots.take i)) (slots.get i).align ≤ p.offset i :=
    roundUp_le hpos h (p.aligned i)
  rw [Slot.stop_take_succ]
  exact Nat.add_le_add_right hstart _

/-- No field of a placement starts before the fields in front of it can end. -/
theorem stop_take_le_offset (p : Placement slots) (k : Nat) (hk : k < slots.length) :
    Slot.stop (slots.take k) ≤ p.offset ⟨k, hk⟩ := by
  induction k with
  | zero => exact Nat.zero_le _
  | succ k ih =>
    -- the field before this one starts late enough, so it also ends late enough
    let i : Fin slots.length := ⟨k, Nat.lt_of_succ_lt hk⟩
    calc
      Slot.stop (slots.take (k + 1)) ≤ p.offset i + (slots.get i).size :=
        p.stop_take_succ_le hpow i (ih i.isLt)
      _ ≤ p.offset ⟨k + 1, hk⟩ := p.apart i ⟨k + 1, hk⟩ rfl

theorem stop_le_total (p : Placement slots) : Slot.stop slots ≤ p.total := by
  rcases Nat.eq_zero_or_pos slots.length with hnil | hcons
  · have hstop : Slot.stop slots = 0 := by
      rw [List.length_eq_zero_iff.mp hnil]
      rfl
    omega
  · let i : Fin slots.length := ⟨slots.length - 1, by omega⟩
    have hlast : i.val + 1 = slots.length := Nat.succ_pred_eq_of_pos hcons
    calc
      Slot.stop slots = Slot.stop (slots.take (i + 1)) := by rw [hlast, List.take_length]
      _ ≤ p.offset i + (slots.get i).size :=
        p.stop_take_succ_le hpow i (p.stop_take_le_offset hpow i.val i.isLt)
      _ ≤ p.total := p.within i hlast

theorem tight_le_total (p : Placement slots) : Slot.tight slots ≤ p.total :=
  roundUp_le (Slot.maxAlign_isPowerOfTwo hpow).pos (p.stop_le_total hpow) p.total_aligned

/-- Every field at the first suitable place. -/
def first : Placement slots where
  offset i := roundUp (Slot.stop (slots.take i)) (slots.get i).align
  total := Slot.tight slots
  aligned i := dvd_roundUp _ _
  apart i j hj := by
    have hpos : 0 < (slots.get j).align := (hpow _ (List.get_mem slots j)).pos
    calc
      roundUp (Slot.stop (slots.take i)) (slots.get i).align + (slots.get i).size =
          Slot.stop (slots.take (i + 1)) := (Slot.stop_take_succ slots i).symm
      _ ≤ roundUp (Slot.stop (slots.take (i + 1))) (slots.get j).align := le_roundUp _ hpos
      _ = roundUp (Slot.stop (slots.take j)) (slots.get j).align := by rw [hj]
  within i hlast :=
    calc
      roundUp (Slot.stop (slots.take i)) (slots.get i).align + (slots.get i).size =
          Slot.stop (slots.take (i + 1)) := (Slot.stop_take_succ slots i).symm
      _ = Slot.stop slots := by rw [hlast, List.take_length]
      _ ≤ Slot.tight slots := Slot.stop_le_tight hpow
  total_aligned := dvd_roundUp _ _

end Placement

namespace Layout

/-- The room that a value of a type asks for. -/
structure HasSlot (L : Layout) (t : Ty) (s : Slot) : Prop where
  size : (L.allocSize? t).map UInt64.toNat = some s.size
  align : (L.abiAlign? t).map UInt64.toNat = some s.align

/-- The room that a type asks for as a field of a struct. -/
structure HasFieldSlot (L : Layout) (packed : Bool) (t : Ty) (s : Slot) : Prop where
  size : ∃ size : Word, (L.extent t).alloc? = some size ∧ size.toNat = s.size
  align : ∃ align : Word, (if packed then some 1 else (L.extent t).align?) = some align ∧ align.toNat = s.align

theorem HasSlot.inStruct {L : Layout} {t : Ty} {s : Slot} (h : L.HasSlot t s) (packed : Bool) :
    L.HasFieldSlot packed t (s.inStruct packed) := by
  have hsize := Option.map_eq_some_iff.mp h.size
  have halign := Option.map_eq_some_iff.mp h.align
  cases packed with
  | true => exact ⟨hsize, 1, rfl, rfl⟩
  | false => exact ⟨hsize, halign⟩

end Layout

theorem Extent.Cursor.exists_eq {offset align : Nat} (hoffset : offset < UInt64.size) (halign : align < UInt64.size) :
    ∃ c : Cursor, c.offset.toNat = offset ∧ c.align.toNat = align :=
  ⟨⟨UInt64.ofNatLT offset hoffset, UInt64.ofNatLT align halign⟩, UInt64.toNat_ofNatLT, UInt64.toNat_ofNatLT⟩

namespace Layout

section Struct

variable {L : Layout} {packed : Bool}

theorem HasFieldSlot.isPowerOfTwo {t : Ty} {s : Slot} (h : L.HasFieldSlot packed t s) : IsPowerOfTwo s.align := by
  obtain ⟨align, halign, heq⟩ := h.align
  rw [← heq]
  exact (L.aligned_extent t).inStruct packed halign

theorem HasFieldSlot.align_lt_size {t : Ty} {s : Slot} (h : L.HasFieldSlot packed t s) :
    s.align < UInt64.size := by
  obtain ⟨align, _, heq⟩ := h.align
  rw [← heq]
  exact align.toNat_lt_size

/-- A field is put at the first suitable place, if it ends at a word there. -/
theorem HasFieldSlot.place?_eq_some_iff {t : Ty} {s : Slot} (h : L.HasFieldSlot packed t s)
    {c c' : Extent.Cursor} :
    c.place? packed (L.extent t) = some c' ↔
      c'.offset.toNat = s.stopFrom c.offset.toNat ∧ c'.align.toNat = max c.align.toNat s.align := by
  have hpow := h.isPowerOfTwo
  obtain ⟨⟨size, hsize, hsizeNat⟩, align, halign, halignNat⟩ := h
  rw [← halignNat] at hpow
  rw [Extent.Cursor.place?_eq_some_iff, Slot.stopFrom, ← hsizeNat, ← halignNat, ← UInt64.toNat_max]
  constructor
  · intro hplace
    obtain ⟨align', start, size', offset, halign', hstart, hsize', hoffset, rfl⟩ := hplace
    obtain rfl : align = align' := Option.some.inj (halign.symm.trans halign')
    obtain rfl : size = size' := Option.some.inj (hsize.symm.trans hsize')
    refine ⟨?_, rfl⟩
    rw [← (Word.roundUp?_eq_some_iff hpow).mp hstart]
    exact Word.add?_eq_some_iff.mp hoffset
  · intro hplace
    obtain ⟨hoffset, halign'⟩ := hplace
    have hlt : roundUp c.offset.toNat align.toNat < UInt64.size := by
      have hend := c'.offset.toNat_lt_size
      omega
    have hstart : (UInt64.ofNatLT _ hlt).toNat = roundUp c.offset.toNat align.toNat := UInt64.toNat_ofNatLT
    refine ⟨align, UInt64.ofNatLT _ hlt, size, c'.offset, halign, (Word.roundUp?_eq_some_iff hpow).mpr hstart,
      hsize, Word.add?_eq_some_iff.mpr ?_, ?_⟩
    · rw [hstart]
      exact hoffset
    · rw [← UInt64.toNat_inj.mp halign']

variable {fields : List Ty} {slots : List Slot} (h : List.Forall₂ (L.HasFieldSlot packed) fields slots)

include h

theorem forall_mem_slots {p : Slot → Prop} (hp : ∀ t s, L.HasFieldSlot packed t s → p s) : ∀ s ∈ slots, p s := by
  induction h with
  | nil => exact fun s hs => absurd hs List.not_mem_nil
  | cons hfield _ ih => exact List.forall_mem_cons.mpr ⟨hp _ _ hfield, ih⟩

theorem slots_isPowerOfTwo : ∀ s ∈ slots, IsPowerOfTwo s.align :=
  forall_mem_slots h fun _ _ => HasFieldSlot.isPowerOfTwo

/-- All fields are put at the first suitable places, if the last one ends at a word there. -/
theorem foldlM_place?_eq_some_iff (c c' : Extent.Cursor) :
    (L.extents fields).foldlM (Extent.Cursor.place? packed) c = some c' ↔
      c'.offset.toNat = slots.foldl Slot.stopFrom c.offset.toNat ∧
        c'.align.toNat = slots.foldl (fun align s => max align s.align) c.align.toNat := by
  induction h generalizing c with
  | nil =>
    obtain ⟨offset, align⟩ := c
    obtain ⟨offset', align'⟩ := c'
    simp [extents, UInt64.toNat_inj, eq_comm]
  | @cons t s fields slots hfield hrest ih =>
    have hpow := slots_isPowerOfTwo hrest
    rw [extents, List.foldlM_cons, Option.bind_eq_bind, Option.bind_eq_some_iff]
    constructor
    · intro hfold
      obtain ⟨d, hd, hfold⟩ := hfold
      obtain ⟨hoffset, halign⟩ := hfield.place?_eq_some_iff.mp hd
      rw [List.foldl_cons, List.foldl_cons, ← hoffset, ← halign]
      exact (ih d).mp hfold
    · intro hends
      obtain ⟨hoffset, halign⟩ := hends
      have hstop : s.stopFrom c.offset.toNat < UInt64.size := by
        have hle := Slot.add_sum_le_foldl_stopFrom hpow (s.stopFrom c.offset.toNat)
        have hend := c'.offset.toNat_lt_size
        rw [hoffset, List.foldl_cons] at hend
        omega
      have hmax : max c.align.toNat s.align < UInt64.size := max_lt c.align.toNat_lt_size hfield.align_lt_size
      obtain ⟨d, hd⟩ := Extent.Cursor.exists_eq hstop hmax
      refine ⟨d, hfield.place?_eq_some_iff.mpr hd, (ih d).mpr ⟨?_, ?_⟩⟩
      · rw [hoffset, List.foldl_cons, hd.1]
      · rw [halign, List.foldl_cons, hd.2]

theorem placed?_eq_some_iff {size align : Word} :
    Extent.placed? packed (L.extents fields) = some (size, align) ↔
      size.toNat = Slot.tight slots ∧ align.toNat = Slot.maxAlign slots := by
  have hpow := slots_isPowerOfTwo h
  rw [Extent.placed?_eq_some_iff]
  constructor
  · intro hplaced
    obtain ⟨c, hc, hsize, rfl⟩ := hplaced
    obtain ⟨hoffset, halign⟩ := (foldlM_place?_eq_some_iff h {} c).mp hc
    have hmax : c.align.toNat = Slot.maxAlign slots := halign
    have hround := hmax ▸ Slot.maxAlign_isPowerOfTwo hpow
    refine ⟨?_, hmax⟩
    rw [(Word.roundUp?_eq_some_iff hround).mp hsize, hoffset, hmax]
    rfl
  · intro hplaced
    obtain ⟨hsize, halign⟩ := hplaced
    have hstop : Slot.stop slots < UInt64.size :=
      (Slot.stop_le_tight hpow).trans_lt (hsize ▸ size.toNat_lt_size)
    obtain ⟨c, hoffset, hmax⟩ := Extent.Cursor.exists_eq hstop align.toNat_lt_size
    obtain rfl : c.align = align := UInt64.toNat_inj.mp hmax
    have hround := halign ▸ Slot.maxAlign_isPowerOfTwo hpow
    refine ⟨c, (foldlM_place?_eq_some_iff h {} c).mpr ⟨hoffset, halign⟩, ?_, rfl⟩
    apply (Word.roundUp?_eq_some_iff hround).mpr
    rw [hsize, hoffset, halign]
    rfl

end Struct

section Fields

variable {L : Layout} {fields : List Ty} {slots : List Slot} (h : List.Forall₂ L.HasSlot fields slots) (packed : Bool)

include h

theorem forall₂_inStruct : List.Forall₂ (L.HasFieldSlot packed) fields (slots.map (Slot.inStruct packed)) :=
  List.forall₂_map_right_iff.mpr (h.imp fun _ _ hslot => hslot.inStruct packed)

theorem maxAlign_lt_size : Slot.maxAlign (slots.map (Slot.inStruct packed)) < UInt64.size :=
  Slot.maxAlign_rec (p := (· < UInt64.size)) (by decide)
    (forall_mem_slots (forall₂_inStruct h packed) fun _ _ => HasFieldSlot.align_lt_size)

theorem allocSize?_struct : L.allocSize? (.struct packed fields) =
    Word.ofNat? (Slot.tight (slots.map (Slot.inStruct packed))) := by
  have hslots := forall₂_inStruct h packed
  rw [allocSize?_struct_eq_storeSize?]
  change (Extent.placed? packed (L.extents fields)).map Prod.fst = _
  apply Option.ext
  intro size
  rw [Word.ofNat?_eq_some_iff, Option.map_eq_some_iff]
  constructor
  · intro hsize
    obtain ⟨⟨_, align⟩, hsome, rfl⟩ := hsize
    exact ((placed?_eq_some_iff hslots).mp hsome).1
  · intro hsize
    exact ⟨(size, UInt64.ofNatLT _ (maxAlign_lt_size h packed)),
      (placed?_eq_some_iff hslots).mpr ⟨hsize, UInt64.toNat_ofNatLT⟩, rfl⟩

/-- A struct with a size has the largest alignment of its fields. -/
theorem abiAlign?_struct {size : Word} (hsize : L.allocSize? (.struct packed fields) = some size) :
    (L.abiAlign? (.struct packed fields)).map UInt64.toNat =
      some (Slot.maxAlign (slots.map (Slot.inStruct packed))) := by
  rw [allocSize?_struct h packed, Word.ofNat?_eq_some_iff] at hsize
  have halign : (UInt64.ofNatLT _ (maxAlign_lt_size h packed)).toNat =
      Slot.maxAlign (slots.map (Slot.inStruct packed)) := UInt64.toNat_ofNatLT
  have hplaced := (placed?_eq_some_iff (forall₂_inStruct h packed)).mpr ⟨hsize, halign⟩
  change ((Extent.placed? packed (L.extents fields)).map Prod.snd).map UInt64.toNat = _
  rw [hplaced, Option.map_some, Option.map_some, halign]

end Fields

end Layout

namespace Slot

/-- Without alignment the fields stand close together. -/
theorem tight_packed (slots : List Slot) : tight (slots.map (inStruct true)) = (slots.map size).sum := by
  have hstop (offset : Nat) :
      (slots.map (inStruct true)).foldl stopFrom offset = offset + (slots.map size).sum := by
    induction slots generalizing offset with
    | nil => rfl
    | cons s slots ih =>
      have hstart : (s.inStruct true).stopFrom offset = offset + s.size :=
        congrArg (· + s.size) (roundUp_one offset)
      rw [List.map_cons, List.foldl_cons, ih, hstart, List.map_cons, List.sum_cons, Nat.add_assoc]
  have hmax : maxAlign (slots.map (inStruct true)) = 1 := by
    apply maxAlign_rec (p := (· = 1)) rfl
    exact List.forall_mem_map.mpr fun s _ => rfl
  rw [tight, hmax, roundUp_one, stop, hstop, Nat.zero_add]

theorem sum_le_tight {slots : List Slot} (h : ∀ s ∈ slots, IsPowerOfTwo s.align) :
    (slots.map size).sum ≤ tight slots :=
  calc
    (slots.map size).sum = 0 + (slots.map size).sum := (Nat.zero_add _).symm
    _ ≤ stop slots := add_sum_le_foldl_stopFrom h 0
    _ ≤ tight slots := stop_le_tight h

end Slot

/-- A struct whose fields have sizes takes up as many bytes as the tightest placement of the fields, with the largest
of their alignments. It has no size only if no placement has a total that is a word. So a packed struct is as large as
its fields together, and never larger than the struct with the same fields that is not packed. -/
theorem struct_layout_tightest (L : Layout) (fields : List Ty) (slots : List Slot)
    (h : List.Forall₂ L.HasSlot fields slots) :
    (∀ packed,
      (∀ size, L.allocSize? (.struct packed fields) = some size →
        (L.abiAlign? (.struct packed fields)).map UInt64.toNat =
          some (Slot.maxAlign (slots.map (Slot.inStruct packed))) ∧
        (∃ p : Placement (slots.map (Slot.inStruct packed)), p.total = size.toNat) ∧
        ∀ p : Placement (slots.map (Slot.inStruct packed)), size.toNat ≤ p.total) ∧
      (L.allocSize? (.struct packed fields) = none →
        ∀ p : Placement (slots.map (Slot.inStruct packed)), UInt64.size ≤ p.total)) ∧
    (∀ size, L.allocSize? (.struct true fields) = some size ↔ size.toNat = (slots.map Slot.size).sum) ∧
    ∀ size, L.allocSize? (.struct false fields) = some size →
      ∃ size', L.allocSize? (.struct true fields) = some size' ∧ size' ≤ size := by
  have hpow (packed : Bool) := Layout.slots_isPowerOfTwo (Layout.forall₂_inStruct h packed)
  have hsome (packed : Bool) (size : Word) : L.allocSize? (.struct packed fields) = some size ↔
      size.toNat = Slot.tight (slots.map (Slot.inStruct packed)) := by
    rw [Layout.allocSize?_struct h packed, Word.ofNat?_eq_some_iff]
  have hpacked (size : Word) : L.allocSize? (.struct true fields) = some size ↔
      size.toNat = (slots.map Slot.size).sum := by
    rw [hsome, Slot.tight_packed]
  refine ⟨fun packed => ⟨?_, ?_⟩, hpacked, ?_⟩
  · intro size hsize
    have htight := (hsome packed size).mp hsize
    refine ⟨Layout.abiAlign?_struct h packed hsize, ⟨Placement.first (hpow packed), htight.symm⟩, fun p => ?_⟩
    rw [htight]
    exact p.tight_le_total (hpow packed)
  · intro hnone p
    rw [Layout.allocSize?_struct h packed, Word.ofNat?_eq_none_iff] at hnone
    exact hnone.trans (p.tight_le_total (hpow packed))
  · intro size hsize
    have hsum : (slots.map Slot.size).sum ≤ size.toNat := by
      have hle := Slot.sum_le_tight (hpow false)
      rw [← (hsome false size).mp hsize, List.map_map] at hle
      exact hle
    let sum : Word := UInt64.ofNatLT (slots.map Slot.size).sum (hsum.trans_lt size.toNat_lt_size)
    have hnat : sum.toNat = (slots.map Slot.size).sum := UInt64.toNat_ofNatLT
    exact ⟨sum, (hpacked sum).mpr hnat, UInt64.le_iff_toNat_le.mpr (hnat ▸ hsum)⟩

/-- Integers of eight bytes that leave eight bytes of all words free, and one byte behind them. -/
def brimFields : List Ty :=
  [.array (.int 64) 0x1FFFFFFFFFFFFFFF, .int 8]

def brimSlots : List Slot :=
  [⟨0xFFFFFFFFFFFFFFF8, 8⟩, ⟨1, 1⟩]

/-- The padding behind the last byte does not fit, and no other placement avoids it. -/
theorem struct_layout_tightest_brim : List.Forall₂ Layout.standard.HasSlot brimFields brimSlots ∧
    Layout.standard.allocSize? (.struct false brimFields) = none ∧
    (∀ p : Placement brimSlots, UInt64.size ≤ p.total) ∧
    Layout.standard.allocSize? (.struct true brimFields) = some 0xFFFFFFFFFFFFFFF9 := by
  have hslots : List.Forall₂ Layout.standard.HasSlot brimFields brimSlots :=
    .cons ⟨by decide, by decide⟩ (.cons ⟨by decide, by decide⟩ .nil)
  obtain ⟨hlayout, hpacked, _⟩ := struct_layout_tightest .standard brimFields brimSlots hslots
  have hnone : Layout.standard.allocSize? (.struct false brimFields) = none := by decide
  exact ⟨hslots, hnone, (hlayout false).2 hnone, (hpacked _).mpr (by decide)⟩

end PointerQuery

import PointerQuery.Layout
import PointerQuery.Proofs.KeyNumberGrammar

namespace PointerQuery

open Text Text.KeyNumberList

namespace Text.KeyNumberList

/-- The entry gives a pointer width or a largest integer alignment in bits. -/
def Entry.DescribesLayout (e : Entry) : Prop :=
  e.key = "p" ∧ e.number.toNat ∈ [16, 32, 64] ∨ e.key = "i" ∧ e.number.toNat ∈ [8, 16, 32, 64, 128]

/-- The number of the last entry with a key. -/
def lastNumber? (key : String) (es : List Entry) : Option Nat :=
  (es.reverse.find? fun e => e.key == key).map fun e => e.number.toNat

/-- Whether a text is a list that has an entry with a key. -/
def mentions (text key : String) : Bool :=
  (parse? text).any fun es => es.any fun e => e.key == key

theorem lastNumber?_append (key : String) (es fs : List Entry) :
    lastNumber? key (es ++ fs) = (lastNumber? key fs).or (lastNumber? key es) := by
  rw [lastNumber?, List.reverse_append, List.find?_append, Option.map_or]
  rfl

theorem lastNumber?_singleton (key : String) (e : Entry) :
    lastNumber? key [e] = if e.key = key then some e.number.toNat else none := by
  by_cases h : e.key = key <;> simp [lastNumber?, h]

theorem mentions_eq {text : String} {es : List Entry} (h : parse? text = some es) (key : String) :
    mentions text key = (lastNumber? key es).isSome := by
  rw [mentions, h, Option.any_some, lastNumber?, Option.isSome_map, List.isSome_find?, List.any_reverse]

end Text.KeyNumberList

theorem PointerWidth.bits_injective {v w : PointerWidth} (h : v.bits = w.bits) : v = w := by
  rw [← Option.some.injEq, ← PointerWidth.ofBits?_eq_some_iff.mpr h, PointerWidth.ofBits?_eq_some_iff.mpr rfl]

theorem PointerWidth.exists_bits_iff (n : Nat) : (∃ w : PointerWidth, n = w.bits) ↔ n ∈ [16, 32, 64] := by
  constructor
  · rintro ⟨w, rfl⟩
    cases w <;> decide
  · intro h
    simp only [List.mem_cons, List.not_mem_nil, or_false] at h
    rcases h with rfl | rfl | rfl
    · exact ⟨.bits16, rfl⟩
    · exact ⟨.bits32, rfl⟩
    · exact ⟨.bits64, rfl⟩

theorem Alignment.bytes_injective {a b : Alignment} (h : a.bytes.toNat = b.bytes.toNat) : a = b := by
  cases a
  cases b
  simpa using UInt64.toNat_inj.mp h

theorem Alignment.ofBits?_eq_none_iff {n : Nat} : ofBits? n = none ↔ n ∉ [8, 16, 32, 64, 128] := by
  have hlisted : ∀ m ≤ 128, 8 ≤ m → IsPowerOfTwo m → m ∈ [8, 16, 32, 64, 128] := by decide
  have hasked : ∀ m ∈ [8, 16, 32, 64, 128], (8 ≤ m ∧ m ≤ 128) ∧ IsPowerOfTwo m := by decide
  rw [ofBits?, dite_eq_right_iff]
  constructor
  · intro h hmem
    exact absurd (h (hasked n hmem)) (by simp)
  · intro h hn
    exact absurd (hlisted n hn.1.2 hn.1.1 hn.2) h

theorem Alignment.bytes_of_ofBits? {n : Nat} {a : Alignment} (h : ofBits? n = some a) :
    a.bytes.toNat = n / 8 := by
  unfold ofBits? at h
  split at h
  · rename_i hn
    obtain rfl := Option.some.inj h
    exact UInt64.toNat_ofNat_of_lt' (Nat.lt_of_le_of_lt (Nat.div_le_div_right hn.1.2) (by decide))
  · cases h

namespace Layout

/-- The layout that a list of entries describes. -/
structure Described (es : List Entry) (L : Layout) : Prop where
  entries : ∀ e ∈ es, e.DescribesLayout
  pointer : L.pointerWidth.bits = (lastNumber? "p" es).getD 64
  align : L.maxIntAlign.bytes.toNat = ((lastNumber? "i" es).map fun n => n / 8).getD 8

theorem Described.unique {es : List Entry} {L M : Layout} (hL : L.Described es) (hM : M.Described es) : L = M := by
  have hpointer := PointerWidth.bits_injective (hL.pointer.trans hM.pointer.symm)
  have halign := Alignment.bytes_injective (hL.align.trans hM.align.symm)
  cases L
  cases M
  exact congr (congrArg Layout.mk hpointer) halign

/-- A layout is the one that its parts make up. -/
theorem ofParts_self (L : Layout) : ofParts L.pointerWidth.bits L.maxIntAlign.bytes = .ok L := by
  have halign : Alignment.ofBytes? L.maxIntAlign.bytes = some L.maxIntAlign :=
    dif_pos L.maxIntAlign.isPowerOfTwo
  rw [ofParts, PointerWidth.ofBits?_eq_some_iff.mpr rfl, halign]

/-- What an entry can do to a layout. -/
theorem set?_cases (L : Layout) (e : Entry) :
    (e.key = "p" ∧ ∃ w, e.number.toNat = w.bits ∧ L.set? e = some { L with pointerWidth := w }) ∨
      (e.key = "i" ∧ ∃ a, Alignment.ofBits? e.number.toNat = some a ∧
        L.set? e = some { L with maxIntAlign := a }) ∨
      ¬e.DescribesLayout ∧ L.set? e = none := by
  obtain ⟨key, number⟩ := e
  by_cases hp : key = "p"
  · subst hp
    cases hw : PointerWidth.ofBits? number.toNat with
    | some w => exact Or.inl ⟨rfl, w, PointerWidth.ofBits?_eq_some_iff.mp hw, by simp [set?, hw]⟩
    | none =>
      refine Or.inr (Or.inr ⟨?_, by simp [set?, hw]⟩)
      rintro (⟨_, hmem⟩ | ⟨hkey, _⟩)
      · obtain ⟨w, hbits⟩ := (PointerWidth.exists_bits_iff number.toNat).mpr hmem
        rw [PointerWidth.ofBits?_eq_some_iff.mpr hbits] at hw
        cases hw
      · exact absurd hkey (by decide : "p" ≠ "i")
  · by_cases hi : key = "i"
    · subst hi
      cases ha : Alignment.ofBits? number.toNat with
      | some a => exact Or.inr (Or.inl ⟨rfl, a, rfl, by simp [set?, ha]⟩)
      | none =>
        refine Or.inr (Or.inr ⟨?_, by simp [set?, ha]⟩)
        rintro (⟨hkey, _⟩ | ⟨_, hmem⟩)
        · exact absurd hkey (by decide : "i" ≠ "p")
        · exact Alignment.ofBits?_eq_none_iff.mp ha hmem
    · refine Or.inr (Or.inr ⟨?_, by simp [set?]⟩)
      rintro (⟨hkey, _⟩ | ⟨hkey, _⟩)
      · exact hp hkey
      · exact hi hkey

theorem exists_set?_iff (L : Layout) (e : Entry) : (∃ M, L.set? e = some M) ↔ e.DescribesLayout := by
  rcases L.set?_cases e with ⟨hkey, w, hbits, hset⟩ | ⟨hkey, a, ha, hset⟩ | ⟨hnot, hnone⟩
  · have hmem := (PointerWidth.exists_bits_iff e.number.toNat).mp ⟨w, hbits⟩
    exact iff_of_true ⟨_, hset⟩ (Or.inl ⟨hkey, hmem⟩)
  · have hmem : e.number.toNat ∈ [8, 16, 32, 64, 128] := by
      refine Decidable.not_not.mp fun hmem => ?_
      rw [Alignment.ofBits?_eq_none_iff.mpr hmem] at ha
      cases ha
    exact iff_of_true ⟨_, hset⟩ (Or.inr ⟨hkey, hmem⟩)
  · refine iff_of_false ?_ hnot
    rintro ⟨M, hM⟩
    rw [hnone] at hM
    cases hM

/-- An entry sets what goes by its key and leaves the rest. -/
theorem numbers_of_set? {L M : Layout} {e : Entry} (h : L.set? e = some M) :
    M.pointerWidth.bits = (lastNumber? "p" [e]).getD L.pointerWidth.bits ∧
      M.maxIntAlign.bytes.toNat =
        ((lastNumber? "i" [e]).map fun n => n / 8).getD L.maxIntAlign.bytes.toNat := by
  simp only [lastNumber?_singleton]
  rcases L.set?_cases e with ⟨hkey, w, hbits, hset⟩ | ⟨hkey, a, ha, hset⟩ | ⟨_, hnone⟩
  · obtain rfl := Option.some.inj (hset.symm.trans h)
    simp [hkey, hbits]
  · obtain rfl := Option.some.inj (hset.symm.trans h)
    simp [hkey, Alignment.bytes_of_ofBits? ha]
  · rw [hnone] at h
    cases h

theorem value_setAll_cons (L : Layout) (e : Entry) (es : List Entry) :
    (L.setAll (e :: es)).value = (L.set? e).bind fun M => (M.setAll es).value := by
  rw [setAll]
  cases L.set? e <;> rfl

theorem exists_setAll_iff (L : Layout) (es : List Entry) :
    (∃ M, (L.setAll es).value = some M) ↔ ∀ e ∈ es, e.DescribesLayout := by
  induction es generalizing L with
  | nil => exact iff_of_true ⟨L, rfl⟩ nofun
  | cons e es ih =>
    rw [value_setAll_cons, List.forall_mem_cons, ← exists_set?_iff L]
    cases L.set? e with
    | some M => exact (ih M).trans (and_iff_right ⟨M, rfl⟩).symm
    | none => exact iff_of_false (fun ⟨_, hM⟩ => nomatch hM) fun ⟨⟨_, hM⟩, _⟩ => nomatch hM

/-- What was set last stays; a later entry for the same key replaces it. -/
theorem numbers_of_setAll {L M : Layout} {es : List Entry} (h : (L.setAll es).value = some M) :
    M.pointerWidth.bits = (lastNumber? "p" es).getD L.pointerWidth.bits ∧
      M.maxIntAlign.bytes.toNat =
        ((lastNumber? "i" es).map fun n => n / 8).getD L.maxIntAlign.bytes.toNat := by
  induction es generalizing L with
  | nil =>
    obtain rfl := Option.some.inj h
    exact ⟨rfl, rfl⟩
  | cons e es ih =>
    rw [value_setAll_cons] at h
    obtain ⟨N, hN, hM⟩ := Option.bind_eq_some_iff.mp h
    obtain ⟨hpointer, halign⟩ := ih hM
    obtain ⟨hpointer', halign'⟩ := numbers_of_set? hN
    have hcons (key : String) : lastNumber? key (e :: es) = (lastNumber? key es).or (lastNumber? key [e]) :=
      lastNumber?_append key [e] es
    rw [hcons, hcons, hpointer, halign, hpointer', halign']
    constructor
    · cases lastNumber? "p" es <;> rfl
    · cases lastNumber? "i" es <;> rfl

theorem setAll_standard_iff {es : List Entry} {L : Layout} :
    (standard.setAll es).value = some L ↔ L.Described es := by
  have hdescribed {M : Layout} (h : (standard.setAll es).value = some M) : M.Described es :=
    ⟨(exists_setAll_iff _ es).mp ⟨M, h⟩, (numbers_of_setAll h).1, (numbers_of_setAll h).2⟩
  constructor
  · exact hdescribed
  · intro hL
    obtain ⟨M, hM⟩ := (exists_setAll_iff standard es).mpr hL.entries
    rw [hM, hL.unique (hdescribed hM)]

theorem ofText_eq_some_iff {text : String} {L : Layout} :
    (ofText text).value = some L ↔ ∃ es, parse? text = some es ∧ L.Described es := by
  unfold ofText
  cases parse? text with
  | none => simp
  | some es => simp [setAll_standard_iff]

theorem exists_ofText_iff {text : String} : (∃ L, (ofText text).value = some L) ↔
    ∃ es, parse? text = some es ∧ ∀ e ∈ es, e.DescribesLayout := by
  constructor
  · rintro ⟨L, hL⟩
    obtain ⟨es, hes, hdescribed⟩ := ofText_eq_some_iff.mp hL
    exact ⟨es, hes, hdescribed.entries⟩
  · rintro ⟨es, hes, hall⟩
    obtain ⟨L, hL⟩ := (exists_setAll_iff standard es).mpr hall
    exact ⟨L, ofText_eq_some_iff.mpr ⟨es, hes, setAll_standard_iff.mp hL⟩⟩

/-- Entries that are put behind others override them and leave what they do not mention. -/
theorem Described.append {es fs : List Entry} {L M N : Layout} (hL : L.Described es) (hM : M.Described fs)
    (hN : N.Described (es ++ fs)) :
    N.pointerWidth = (if (lastNumber? "p" fs).isSome then M.pointerWidth else L.pointerWidth) ∧
      N.maxIntAlign = if (lastNumber? "i" fs).isSome then M.maxIntAlign else L.maxIntAlign := by
  have hpointer := hN.pointer
  have halign := hN.align
  rw [lastNumber?_append] at hpointer halign
  constructor
  · apply PointerWidth.bits_injective
    cases hlast : lastNumber? "p" fs with
    | some n => simpa [hlast, hM.pointer] using hpointer
    | none => simpa [hlast, hL.pointer] using hpointer
  · apply Alignment.bytes_injective
    cases hlast : lastNumber? "i" fs with
    | some n => simpa [hlast, hM.align] using halign
    | none => simpa [hlast, hL.align] using halign

/-- With a comma between them, two descriptions are understood if each of them is. -/
theorem exists_ofText_append_iff {s t : String} (hs : ¬AllBlank s.toList) (ht : ¬AllBlank t.toList) :
    (∃ N, (ofText (s ++ "," ++ t)).value = some N) ↔
      (∃ L, (ofText s).value = some L) ∧ ∃ M, (ofText t).value = some M := by
  rw [exists_ofText_iff, exists_ofText_iff, exists_ofText_iff, parse?_append hs ht]
  constructor
  · rintro ⟨_, hparse, hall⟩
    obtain ⟨es, hes, hmap⟩ := Option.bind_eq_some_iff.mp hparse
    obtain ⟨fs, hfs, rfl⟩ := Option.map_eq_some_iff.mp hmap
    obtain ⟨hall₁, hall₂⟩ := List.forall_mem_append.mp hall
    exact ⟨⟨es, hes, hall₁⟩, fs, hfs, hall₂⟩
  · rintro ⟨⟨es, hes, hall₁⟩, fs, hfs, hall₂⟩
    exact ⟨es ++ fs, by rw [hes, hfs]; rfl, List.forall_mem_append.mpr ⟨hall₁, hall₂⟩⟩

end Layout

/-- Reading a layout description. It gives a layout just if the text is a key and number list in which every entry
describes a layout, and then the one that the last entry for each key describes, with 64 bits and 8 bytes where there
is none; such a layout can also be put together from its parts. So two descriptions with a comma between them are
understood just if each of them is, and of the layout that they give, the second one determines what it mentions and
the first one the rest. -/
theorem layout_text_last_entry_counts (text : String) :
    (∀ L, (Layout.ofText text).value = some L ↔ ∃ es, parse? text = some es ∧ L.Described es) ∧
    ((∃ L, (Layout.ofText text).value = some L) ↔
      ∃ es, parse? text = some es ∧ ∀ e ∈ es, e.DescribesLayout) ∧
    (∀ L, (Layout.ofText text).value = some L →
      Layout.ofParts L.pointerWidth.bits L.maxIntAlign.bytes = .ok L) ∧
    ∀ more : String, ¬AllBlank text.toList → ¬AllBlank more.toList →
      ((∃ N, (Layout.ofText (text ++ "," ++ more)).value = some N) ↔
        (∃ L, (Layout.ofText text).value = some L) ∧ ∃ M, (Layout.ofText more).value = some M) ∧
      ∀ L M N, (Layout.ofText text).value = some L → (Layout.ofText more).value = some M →
        (Layout.ofText (text ++ "," ++ more)).value = some N →
        N.pointerWidth = (if mentions more "p" then M.pointerWidth else L.pointerWidth) ∧
        N.maxIntAlign = if mentions more "i" then M.maxIntAlign else L.maxIntAlign := by
  refine ⟨fun L => Layout.ofText_eq_some_iff, Layout.exists_ofText_iff, fun L _ => L.ofParts_self, ?_⟩
  intro more htext hmore
  refine ⟨Layout.exists_ofText_append_iff htext hmore, fun L M N hL hM hN => ?_⟩
  obtain ⟨es, hes, hL⟩ := Layout.ofText_eq_some_iff.mp hL
  obtain ⟨fs, hfs, hM⟩ := Layout.ofText_eq_some_iff.mp hM
  obtain ⟨gs, hgs, hN⟩ := Layout.ofText_eq_some_iff.mp hN
  obtain rfl : es ++ fs = gs := by
    rw [parse?_append htext hmore, hes, hfs] at hgs
    exact Option.some.inj hgs
  rw [mentions_eq hfs, mentions_eq hfs]
  exact hL.append hM hN

end PointerQuery

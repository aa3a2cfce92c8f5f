import Mathlib.Data.List.Induction
import Mathlib.Data.Nat.Digits.Defs
import PointerQuery.Proofs.Trimming
import PointerQuery.Text.KeyNumberList

/-!
The grammar of key and number lists. A spelling is one way to write an entry: its key, a colon and a numeral, with
any white space around each of the three. Reading accepts the blank texts and the texts that part spellings by
commas, and no others, and it gives back the entries that were spelled in their order.
-/

namespace PointerQuery.Text

/-- White space of any length. -/
abbrev Blanks := { text : List Char // AllBlank text }

/-- There is no white space among the visible characters of ASCII. -/
theorem isBlank_of_graphic {c low high : Char} (hc : low ≤ c ∧ c ≤ high) (hlow : '!' ≤ low) (hhigh : high ≤ '~') :
    isBlank c = false := by
  have h₁ : 0x21 ≤ c.toNat := Char.le_trans hlow hc.1
  have h₂ : c.toNat ≤ 0x7E := Char.le_trans hc.2 hhigh
  simp only [isBlank, blankRanges, List.any_cons, List.any_nil, Bool.or_false, Bool.or_eq_false_iff,
    Bool.and_eq_false_iff, decide_eq_false_iff_not]
  omega

/-- A run of characters ends where one stands that is not of its kind. -/
theorem span_append {p : Char → Bool} {run rest : List Char} (hrun : ∀ c ∈ run, p c = true)
    (hrest : ∀ c, rest.head? = some c → p c = false) :
    (run ++ rest).takeWhile p = run ∧ (run ++ rest).dropWhile p = rest := by
  rw [List.takeWhile_append_of_pos hrun, List.dropWhile_append_of_pos hrun]
  cases rest with
  | nil => simp
  | cons c cs => simp [hrest c rfl]

namespace KeyNumberList

/-- Keys are made up of one or more lower-case letters of ASCII. -/
def IsKey (key : List Char) : Prop :=
  key ≠ [] ∧ ∀ c ∈ key, 'a' ≤ c ∧ c ≤ 'z'

/-- Numerals are made up of one or more decimal digits, of which the first ones may be zero. -/
def IsNumeral (digits : List Char) : Prop :=
  digits ≠ [] ∧ ∀ c ∈ digits, '0' ≤ c ∧ c ≤ '9'

/-- The number that digits stand for: each counts by its place from the end. -/
def denoted (digits : List Char) : Nat :=
  Nat.ofDigits 10 (digits.reverse.map fun c => c.toNat - '0'.toNat)

/-- A way to write an entry. -/
structure Spelling where
  entry : Entry
  digits : List Char
  before : Blanks
  afterKey : Blanks
  afterColon : Blanks
  after : Blanks
  isKey : IsKey entry.key.toList
  isNumeral : IsNumeral digits
  denoted_eq : denoted digits = entry.number.toNat

namespace Spelling

/-- What is written, but for the white space at both ends. -/
def core (s : Spelling) : List Char :=
  s.entry.key.toList ++ (s.afterKey.val ++ ':' :: (s.afterColon.val ++ s.digits))

/-- What is written. -/
def text (s : Spelling) : List Char :=
  s.before.val ++ s.core ++ s.after.val

end Spelling

/-- Spellings with a comma between each two. -/
def listText (spellings : List Spelling) : List Char :=
  [','].intercalate (spellings.map Spelling.text)

theorem isLower_iff {c : Char} : c.isLower = true ↔ 'a' ≤ c ∧ c ≤ 'z' :=
  Bool.and_eq_true_iff.trans (and_congr decide_eq_true_iff decide_eq_true_iff)

theorem isDigit_iff {c : Char} : c.isDigit = true ↔ '0' ≤ c ∧ c ≤ '9' :=
  Bool.and_eq_true_iff.trans (and_congr decide_eq_true_iff decide_eq_true_iff)

theorem isLower_of_blank {c : Char} (h : isBlank c = true) : c.isLower = false := by
  rw [← Bool.not_eq_true, isLower_iff]
  intro hc
  rw [isBlank_of_graphic hc (by decide) (by decide)] at h
  cases h

/-- A key ends at white space or at the colon. -/
theorem isLower_of_head? {blanks rest : List Char} (hblanks : AllBlank blanks) {c : Char}
    (hc : (blanks ++ ':' :: rest).head? = some c) : c.isLower = false := by
  cases blanks with
  | nil =>
    obtain rfl : ':' = c := Option.some.inj hc
    decide
  | cons b bs =>
    obtain rfl : b = c := Option.some.inj hc
    exact isLower_of_blank (hblanks b List.mem_cons_self)

theorem IsKey.not_blank {key : List Char} (hkey : IsKey key) {c : Char} (hc : c ∈ key) : isBlank c = false :=
  isBlank_of_graphic (hkey.2 c hc) (by decide) (by decide)

theorem IsNumeral.not_blank {digits : List Char} (hdigits : IsNumeral digits) {c : Char} (hc : c ∈ digits) :
    isBlank c = false :=
  isBlank_of_graphic (hdigits.2 c hc) (by decide) (by decide)

theorem ofDigitChars_eq_denoted (digits : List Char) : Nat.ofDigitChars 10 digits 0 = denoted digits := by
  -- reading goes on at the end, where the place of every digit before is raised by one
  induction digits using List.reverseRecOn with
  | nil => rfl
  | append_singleton digits c ih =>
    calc
      Nat.ofDigitChars 10 (digits ++ [c]) 0 = 10 * Nat.ofDigitChars 10 digits 0 + (c.toNat - '0'.toNat) := by
        rw [Nat.ofDigitChars_append, Nat.ofDigitChars_cons, Nat.ofDigitChars_nil]
      _ = (c.toNat - '0'.toNat) + 10 * denoted digits := by rw [ih, Nat.add_comm]
      _ = denoted (digits ++ [c]) := by
        rw [denoted, denoted, List.reverse_append, List.reverse_singleton, List.singleton_append, List.map_cons,
          Nat.ofDigits_cons]

namespace Spelling

theorem tight_core (s : Spelling) : Tight s.core := by
  constructor
  · intro c hc
    have hsome : s.entry.key.toList.head?.isSome = true := List.isSome_head?.mpr s.isKey.1
    rw [core, List.head?_append, Option.or_of_isSome hsome] at hc
    exact s.isKey.not_blank (List.mem_of_head? hc)
  · intro c hc
    have hlast : s.core.getLast? = s.digits.getLast? := by
      have hsome : s.digits.getLast?.isSome = true := List.getLast?_isSome.mpr s.isNumeral.1
      rw [core, ← List.singleton_append, ← List.append_assoc, ← List.append_assoc, ← List.append_assoc,
        List.getLast?_append, Option.or_of_isSome hsome]
    rw [hlast] at hc
    exact s.isNumeral.not_blank (List.mem_of_getLast? hc)

theorem trim_text (s : Spelling) : trim s.text = s.core :=
  trim_eq_of_padded s.tight_core ⟨s.before, s.after, s.before.property, s.after.property, rfl⟩

theorem entry?_core (s : Spelling) : entry? s.core = some s.entry := by
  have hkey : ∀ c ∈ s.entry.key.toList, c.isLower = true := fun c hc => isLower_iff.mpr (s.isKey.2 c hc)
  have hcolon : (s.afterKey.val ++ ':' :: (s.afterColon.val ++ s.digits)).dropWhile isBlank =
      ':' :: (s.afterColon.val ++ s.digits) := by
    refine (span_append s.afterKey.property ?_).2
    intro c hc
    obtain rfl : ':' = c := Option.some.inj hc
    decide
  have hdigits : (s.afterColon.val ++ s.digits).dropWhile isBlank = s.digits := by
    refine (span_append s.afterColon.property ?_).2
    intro c hc
    exact s.isNumeral.not_blank (List.mem_of_head? hc)
  have hall : s.digits.all Char.isDigit = true :=
    List.all_eq_true.mpr fun c hc => isDigit_iff.mpr (s.isNumeral.2 c hc)
  obtain ⟨htake, hdrop⟩ := span_append hkey fun _ => isLower_of_head? s.afterKey.property
  have hnumber : Word.ofNat? (Nat.ofDigitChars 10 s.digits 0) = some s.entry.number := by
    rw [ofDigitChars_eq_denoted, s.denoted_eq, Word.ofNat?_toNat]
  have hguard : (s.entry.key.toList.isEmpty || s.digits.isEmpty || !s.digits.all Char.isDigit) = false := by
    simp [hall, s.isKey.1, s.isNumeral.1]
  unfold entry? core
  rw [htake, hdrop, hcolon]
  simp only [hdigits, hguard, hnumber, Bool.false_eq_true, if_false, Option.map_some, String.ofList_toList]

end Spelling

/-- What has been read as an entry was a spelling of it. -/
theorem exists_spelling {item : List Char} {e : Entry} (h : entry? (trim item) = some e) :
    ∃ s : Spelling, s.entry = e ∧ s.text = item := by
  obtain ⟨before, after, hbefore, hafter, hitem⟩ := padded_trim item
  generalize trim item = core at h hitem
  unfold entry? at h
  split at h
  · rename_i rest hrest
    dsimp only at h
    split at h
    · cases h
    · rename_i hguard
      simp only [Bool.or_eq_true, List.isEmpty_iff, Bool.not_eq_true', not_or, Bool.not_eq_false] at hguard
      obtain ⟨⟨hkey, hdigits⟩, hall⟩ := hguard
      obtain ⟨n, hn, rfl⟩ := Option.map_eq_some_iff.mp h
      rw [ofDigitChars_eq_denoted, Word.ofNat?_eq_some_iff] at hn
      have hgap : core.dropWhile Char.isLower =
          (core.dropWhile Char.isLower).takeWhile isBlank ++ ':' :: rest := by
        rw [← hrest, List.takeWhile_append_dropWhile]
      refine ⟨⟨⟨String.ofList (core.takeWhile Char.isLower), n⟩, rest.dropWhile isBlank, ⟨before, hbefore⟩,
        ⟨(core.dropWhile Char.isLower).takeWhile isBlank, fun c => List.mem_takeWhile_imp⟩,
        ⟨rest.takeWhile isBlank, fun c => List.mem_takeWhile_imp⟩, ⟨after, hafter⟩, ?_, ?_, hn.symm⟩, rfl, ?_⟩
      · rw [String.toList_ofList]
        exact ⟨hkey, fun c hc => isLower_iff.mp (List.mem_takeWhile_imp hc)⟩
      · exact ⟨hdigits, fun c hc => isDigit_iff.mp (List.all_eq_true.mp hall c hc)⟩
      · simp only [Spelling.text, Spelling.core, String.toList_ofList, List.takeWhile_append_dropWhile]
        rw [← hgap, List.takeWhile_append_dropWhile, ← hitem]
  · cases h

theorem entry?_trim_eq_some_iff {item : List Char} {e : Entry} :
    entry? (trim item) = some e ↔ ∃ s : Spelling, s.entry = e ∧ s.text = item := by
  constructor
  · exact exists_spelling
  · rintro ⟨s, rfl, rfl⟩
    rw [s.trim_text, s.entry?_core]

theorem mapM_entry?_eq_some_iff {items : List (List Char)} {es : List Entry} :
    (items.mapM fun item => entry? (trim item)) = some es ↔
      ∃ ss : List Spelling, ss.map Spelling.entry = es ∧ ss.map Spelling.text = items := by
  induction items generalizing es with
  | nil =>
    constructor
    · intro h
      exact ⟨[], Option.some.inj h, rfl⟩
    · rintro ⟨ss, rfl, htexts⟩
      rw [List.map_eq_nil_iff.mp htexts]
      rfl
  | cons item items ih =>
    rw [List.mapM_cons]
    simp only [Option.bind_eq_bind, Option.bind_eq_some_iff, Option.pure_def, Option.some.injEq, ih,
      entry?_trim_eq_some_iff]
    constructor
    · rintro ⟨_, ⟨s, rfl, rfl⟩, _, ⟨ss, rfl, rfl⟩, rfl⟩
      exact ⟨s :: ss, rfl, rfl⟩
    · rintro ⟨ss, rfl, htexts⟩
      cases ss with
      | nil => cases htexts
      | cons s ss =>
        obtain ⟨rfl, rfl⟩ := List.cons.inj htexts
        exact ⟨s.entry, ⟨s, rfl, rfl⟩, _, ⟨ss, rfl, rfl⟩, rfl⟩

theorem comma_not_mem_text (s : Spelling) : ',' ∉ s.text := by
  have hblank (w : Blanks) : ',' ∉ w.val := fun h => absurd (w.property ',' h) (by decide)
  have hkey : ',' ∉ s.entry.key.toList := fun h => absurd (s.isKey.2 ',' h).1 (by decide)
  have hdigits : ',' ∉ s.digits := fun h => absurd (s.isNumeral.2 ',' h).1 (by decide)
  simp [Spelling.text, Spelling.core, hblank, hkey, hdigits]

theorem not_allBlank_listText {ss : List Spelling} (hne : ss ≠ []) : ¬AllBlank (listText ss) := by
  obtain ⟨s, rest, rfl⟩ := List.exists_cons_of_ne_nil hne
  have hcolon : ':' ∈ s.text := by simp [Spelling.text, Spelling.core]
  have hmem : ':' ∈ listText (s :: rest) := by
    cases rest with
    | nil => simpa [listText] using hcolon
    | cons t rest => simp [listText, List.intercalate_cons_cons, hcolon]
  exact fun hblank => absurd (hblank ':' hmem) (by decide)

theorem splitOn_listText {ss : List Spelling} (hne : ss ≠ []) :
    (listText ss).splitOn ',' = ss.map Spelling.text := by
  refine List.splitOn_intercalate ',' ?_ (by simpa using hne)
  intro item hitem
  obtain ⟨s, _, rfl⟩ := List.mem_map.mp hitem
  exact comma_not_mem_text s

theorem parse?_of_blank {text : String} (h : AllBlank text.toList) : parse? text = some [] := by
  rw [parse?, trim_eq_nil_iff.mpr h]
  rfl

theorem parse?_of_not_blank {text : String} (h : ¬AllBlank text.toList) :
    parse? text = (text.toList.splitOn ',').mapM fun item => entry? (trim item) := by
  have hne : ¬(trim text.toList).isEmpty = true := by
    rw [List.isEmpty_iff, trim_eq_nil_iff]
    exact h
  rw [parse?, if_neg hne]

theorem parse?_eq_some_iff {text : String} (h : ¬AllBlank text.toList) {es : List Entry} :
    parse? text = some es ↔
      ∃ ss : List Spelling, ss ≠ [] ∧ ss.map Spelling.entry = es ∧ listText ss = text.toList := by
  rw [parse?_of_not_blank h, mapM_entry?_eq_some_iff]
  constructor
  · rintro ⟨ss, hentries, htexts⟩
    refine ⟨ss, ?_, hentries, ?_⟩
    · rintro rfl
      exact List.splitOn_ne_nil ',' text.toList htexts.symm
    · rw [listText, htexts, List.intercalate_splitOn]
  · rintro ⟨ss, hne, hentries, htext⟩
    exact ⟨ss, hentries, by rw [← htext, splitOn_listText hne]⟩

theorem parse?_listText {ss : List Spelling} (hne : ss ≠ []) :
    parse? (String.ofList (listText ss)) = some (ss.map Spelling.entry) := by
  have hblank : ¬AllBlank (String.ofList (listText ss)).toList := by
    rw [String.toList_ofList]
    exact not_allBlank_listText hne
  exact (parse?_eq_some_iff hblank).mpr ⟨ss, hne, rfl, String.toList_ofList.symm⟩

/-- With a comma between them, two lists are read as one. -/
theorem parse?_append {s t : String} (hs : ¬AllBlank s.toList) (ht : ¬AllBlank t.toList) :
    parse? (s ++ "," ++ t) = (parse? s).bind fun es => (parse? t).map fun fs => es ++ fs := by
  have htext : (s ++ "," ++ t).toList = s.toList ++ ',' :: t.toList := by
    simp [String.toList_append]
  have hst : ¬AllBlank (s ++ "," ++ t).toList := by
    rw [htext]
    exact fun h => hs fun c hc => h c (List.mem_append_left _ hc)
  rw [parse?_of_not_blank hst, parse?_of_not_blank hs, parse?_of_not_blank ht, htext,
    List.splitOn_append_cons_self, List.mapM_append]
  simp only [Option.bind_eq_bind, Option.pure_def, Option.map_eq_bind, Function.comp_def]

/-- An entry can be written with any white space. -/
theorem exists_spelling_with (e : Entry) (hkey : IsKey e.key.toList) (before afterKey afterColon after : Blanks) :
    ∃ s : Spelling, s.entry = e ∧ s.before = before ∧ s.afterKey = afterKey ∧ s.afterColon = afterColon ∧
      s.after = after := by
  have hdigits : IsNumeral (Nat.toDigits 10 e.number.toNat) :=
    ⟨Nat.toDigits_ne_nil, fun c hc => isDigit_iff.mp (Nat.isDigit_of_mem_toDigits (by decide) (by decide) hc)⟩
  have hdenoted : denoted (Nat.toDigits 10 e.number.toNat) = e.number.toNat := by
    rw [← ofDigitChars_eq_denoted, Nat.ofDigitChars_toDigits (by decide) (by decide)]
  exact ⟨⟨e, _, before, afterKey, afterColon, after, hkey, hdigits, hdenoted⟩, rfl, rfl, rfl, rfl, rfl⟩

end KeyNumberList

end PointerQuery.Text

namespace PointerQuery

open Text Text.KeyNumberList

/-- Reading a key and number list. A blank text is the empty list. Any other text is read just if it consists of one
or more spellings with commas between them, and then as the entries that they spell, in their order; all else is
refused. So a list that is not empty is read back from every text that spells it, and each of its entries can be
spelled with any white space as long as its key is one. -/
theorem key_number_list_grammar :
    (∀ text : String,
      (AllBlank text.toList → parse? text = some []) ∧
      (¬AllBlank text.toList → ∀ es, parse? text = some es ↔
        ∃ ss : List Spelling, ss ≠ [] ∧ ss.map Spelling.entry = es ∧ listText ss = text.toList) ∧
      (parse? text = none ↔ ¬AllBlank text.toList ∧ ∀ ss : List Spelling, ss ≠ [] → listText ss ≠ text.toList)) ∧
    (∀ ss : List Spelling, ss ≠ [] → parse? (String.ofList (listText ss)) = some (ss.map Spelling.entry)) ∧
    ∀ (e : Entry), IsKey e.key.toList → ∀ before afterKey afterColon after : Blanks, ∃ s : Spelling,
      s.entry = e ∧ s.before = before ∧ s.afterKey = afterKey ∧ s.afterColon = afterColon ∧ s.after = after := by
  refine ⟨fun text => ⟨parse?_of_blank, fun h es => parse?_eq_some_iff h, ?_⟩, fun ss => parse?_listText,
    exists_spelling_with⟩
  constructor
  · intro hnone
    have hblank : ¬AllBlank text.toList := by
      intro h
      rw [parse?_of_blank h] at hnone
      cases hnone
    refine ⟨hblank, fun ss hne htext => ?_⟩
    rw [(parse?_eq_some_iff hblank).mpr ⟨ss, hne, rfl, htext⟩] at hnone
    cases hnone
  · rintro ⟨hblank, hnone⟩
    rw [Option.eq_none_iff_forall_ne_some]
    intro es hes
    obtain ⟨ss, hne, _, htext⟩ := (parse?_eq_some_iff hblank).mp hes
    exact hnone ss hne htext

end PointerQuery

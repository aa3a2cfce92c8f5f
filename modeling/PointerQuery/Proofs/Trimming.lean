import Mathlib.Data.List.TakeWhile
import PointerQuery.Text.Blank

namespace PointerQuery.Text

/-- The text is nothing but white space. -/
def AllBlank (text : List Char) : Prop :=
  ∀ c ∈ text, isBlank c = true

/-- The text is `core` with white space before and after it, or on one side, or on none. -/
def Padded (core text : List Char) : Prop :=
  ∃ before after, AllBlank before ∧ AllBlank after ∧ text = before ++ core ++ after

/-- The text neither starts nor ends with white space. -/
structure Tight (text : List Char) : Prop where
  head : ∀ c, text.head? = some c → isBlank c = false
  last : ∀ c, text.getLast? = some c → isBlank c = false

theorem dropWhile_eq_self {text : List Char} (h : ∀ c, text.head? = some c → isBlank c = false) :
    text.dropWhile isBlank = text := by
  cases text with
  | nil => rfl
  | cons c cs =>
    apply List.dropWhile_cons_of_neg
    rw [h c rfl]
    decide

theorem head_dropWhile (text : List Char) {c : Char} (h : (text.dropWhile isBlank).head? = some c) :
    isBlank c = false := by
  have hnot := List.head?_dropWhile_not isBlank text
  rw [h] at hnot
  exact hnot

theorem dropWhile_eq_trim_append (text : List Char) :
    text.dropWhile isBlank = trim text ++ ((text.dropWhile isBlank).reverse.takeWhile isBlank).reverse := by
  rw [trim, ← List.reverse_append, List.takeWhile_append_dropWhile, List.reverse_reverse]

theorem padded_trim (text : List Char) : Padded (trim text) text := by
  refine ⟨text.takeWhile isBlank, ((text.dropWhile isBlank).reverse.takeWhile isBlank).reverse, ?_, ?_, ?_⟩
  · intro c hc
    exact List.mem_takeWhile_imp hc
  · intro c hc
    exact List.mem_takeWhile_imp (List.mem_reverse.mp hc)
  · rw [List.append_assoc, ← dropWhile_eq_trim_append, List.takeWhile_append_dropWhile]

theorem tight_trim (text : List Char) : Tight (trim text) := by
  constructor
  · intro c hc
    apply head_dropWhile text
    rw [dropWhile_eq_trim_append, List.head?_append, hc, Option.some_or]
  · intro c hc
    rw [trim, List.getLast?_reverse] at hc
    exact head_dropWhile _ hc

theorem trim_eq_of_padded {core text : List Char} (hcore : Tight core) (h : Padded core text) :
    trim text = core := by
  obtain ⟨before, after, hbefore, hafter, rfl⟩ := h
  rw [trim, List.append_assoc, List.dropWhile_append_of_pos hbefore]
  cases core with
  | nil =>
    have hnone : after.dropWhile isBlank = [] := List.dropWhile_eq_nil_iff.mpr hafter
    rw [List.nil_append, hnone]
    rfl
  | cons c cs =>
    have hfront : ((c :: cs) ++ after).dropWhile isBlank = (c :: cs) ++ after :=
      dropWhile_eq_self fun d hd => hcore.head d hd
    have hback : (c :: cs).reverse.dropWhile isBlank = (c :: cs).reverse := by
      apply dropWhile_eq_self
      rw [List.head?_reverse]
      exact hcore.last
    have hafter' : ∀ d ∈ after.reverse, isBlank d = true := fun d hd => hafter d (List.mem_reverse.mp hd)
    rw [hfront, List.reverse_append, List.dropWhile_append_of_pos hafter', hback, List.reverse_reverse]

theorem trim_eq_iff {core text : List Char} (hcore : Tight core) : trim text = core ↔ Padded core text := by
  constructor
  · rintro rfl
    exact padded_trim text
  · exact trim_eq_of_padded hcore

theorem trim_eq_nil_iff {text : List Char} : trim text = [] ↔ AllBlank text := by
  have hnil : Tight [] := ⟨nofun, nofun⟩
  rw [trim_eq_iff hnil]
  constructor
  · rintro ⟨before, after, hbefore, hafter, rfl⟩ c hc
    rcases List.mem_append.mp hc with hc | hc
    · exact hbefore c (by simpa using hc)
    · exact hafter c hc
  · intro h
    exact ⟨text, [], h, nofun, by simp⟩

/-- What trimming leaves has a tight ending just if the text has it up to white space behind it. -/
theorem suffix_trim_iff {ending : List Char} (hending : Tight ending) (hne : ending ≠ []) (text : List Char) :
    ending <:+ trim text ↔ ∃ file, Padded (file ++ ending) text := by
  constructor
  · rintro ⟨file, hfile⟩
    refine ⟨file, ?_⟩
    rw [hfile]
    exact padded_trim text
  · rintro ⟨file, before, after, hbefore, hafter, rfl⟩
    have hcore : Tight (file.dropWhile isBlank ++ ending) := by
      constructor
      · intro c hc
        cases hfront : file.dropWhile isBlank with
        | nil =>
          rw [hfront] at hc
          exact hending.head c hc
        | cons d ds =>
          apply head_dropWhile file
          rw [hfront] at hc ⊢
          exact hc
      · intro c hc
        rw [List.getLast?_append, Option.or_of_isSome (List.getLast?_isSome.mpr hne)] at hc
        exact hending.last c hc
    refine ⟨file.dropWhile isBlank, (trim_eq_of_padded hcore ?_).symm⟩
    refine ⟨before ++ file.takeWhile isBlank, after, ?_, hafter, ?_⟩
    · intro c hc
      rcases List.mem_append.mp hc with hc | hc
      · exact hbefore c hc
      · exact List.mem_takeWhile_imp hc
    · have hfile : file = file.takeWhile isBlank ++ file.dropWhile isBlank :=
        List.takeWhile_append_dropWhile.symm
      calc
        before ++ (file ++ ending) ++ after =
            before ++ (file.takeWhile isBlank ++ file.dropWhile isBlank ++ ending) ++ after := by rw [← hfile]
        _ = before ++ file.takeWhile isBlank ++ (file.dropWhile isBlank ++ ending) ++ after := by
          simp only [List.append_assoc]

/-- How a truth value is written. -/
def boolText : Bool → String
  | true => "true"
  | false => "false"

theorem tight_boolText (b : Bool) : Tight (boolText b).toList := by
  cases b <;> exact ⟨by simp [boolText]; decide, by simp [boolText]; decide⟩

theorem trimmed_eq_iff {core text : String} : trimmed text = core ↔ trim text.toList = core.toList := by
  rw [trimmed, ← String.toList_inj, String.toList_ofList]

theorem trimmed_eq_empty_iff {text : String} : trimmed text = "" ↔ AllBlank text.toList :=
  trimmed_eq_iff.trans trim_eq_nil_iff

theorem tight_trimmed (text : String) : Tight (trimmed text).toList := by
  rw [trimmed, String.toList_ofList]
  exact tight_trim text.toList

theorem padded_trimmed (text : String) : Padded (trimmed text).toList text.toList := by
  rw [trimmed, String.toList_ofList]
  exact padded_trim text.toList

theorem bool?_eq_some_iff {text : String} {b : Bool} :
    bool? text = some b ↔ Padded (boolText b).toList text.toList := by
  rw [← trim_eq_iff (tight_boolText b), ← trimmed_eq_iff]
  unfold bool?
  split <;> cases b <;> simp_all [boolText]

end PointerQuery.Text

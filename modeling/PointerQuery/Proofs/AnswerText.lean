import PointerQuery.Proofs.Numerals
import PointerQuery.Query

namespace PointerQuery

open Text

/-- Reads the number of an allocation and its size, with a blank between them. -/
def PointerInfo.ofText? (text : List Char) : Option PointerInfo :=
  match numeral? text with
  | some (site, ' ' :: rest) =>
    match numeral? rest with
    | some (size, []) => (Word.ofNat? size).map fun size => ⟨site, size⟩
    | _ => none
  | _ => none

namespace Answer

/-- The answers that are printed in fixed words. -/
def fixed : List Answer :=
  [verdict .no, verdict .unknown, verdict .yes, info none, unsupported]

/-- Reads an answer. -/
def ofText? (text : String) : Option Answer :=
  (fixed.find? fun a => a.render == text).or ((PointerInfo.ofText? text.toList).map fun i => info (some i))

end Answer

namespace PointerInfo

theorem toList_render (i : PointerInfo) :
    i.render.toList = (Nat.repr i.site).toList ++ ' ' :: (Nat.repr i.size.toNat).toList := by
  simp [render, String.toList_append]

theorem any_isDigit_head? (i : PointerInfo) : i.render.toList.head?.any Char.isDigit = true := by
  obtain ⟨c, cs, hrepr, hc⟩ := exists_digit_cons_repr i.site
  rw [toList_render, hrepr]
  exact hc

theorem ofText?_render (i : PointerInfo) : ofText? i.render.toList = some i := by
  have hsite : numeral? i.render.toList = some (i.site, ' ' :: (Nat.repr i.size.toNat).toList) := by
    rw [toList_render]
    exact numeral?_append i.site (endsNumeral_cons (by decide) _)
  have hsize : numeral? (Nat.repr i.size.toNat).toList = some (i.size.toNat, []) := by
    have happend := numeral?_append i.size.toNat endsNumeral_nil
    rwa [List.append_nil] at happend
  rw [ofText?, hsite]
  simp only [hsize, Word.ofNat?_toNat, Option.map_some]

theorem toList_of_ofText? {text : List Char} {i : PointerInfo} (h : ofText? text = some i) :
    i.render.toList = text := by
  unfold ofText? at h
  split at h
  · rename_i site rest hsite
    split at h
    · rename_i size hsize
      obtain ⟨word, hword, rfl⟩ := Option.map_eq_some_iff.mp h
      have hrest : rest = (Nat.repr size).toList := by
        rw [(numeral?_eq_some_iff.mp hsize).1, List.append_nil]
      rw [toList_render, Word.ofNat?_eq_some_iff.mp hword, ← hrest]
      exact (numeral?_eq_some_iff.mp hsite).1.symm
    · cases h
  · cases h

end PointerInfo

namespace Answer

/-- A fixed form begins with a letter, a printed number with a digit. -/
theorem render_ne_of_mem_fixed {a : Answer} (ha : a ∈ fixed) (i : PointerInfo) : a.render ≠ i.render := by
  have hletter : ∀ a ∈ fixed, a.render.toList.head?.any Char.isDigit = false := by decide
  intro h
  have hfirst := hletter a ha
  rw [h, i.any_isDigit_head?] at hfirst
  cases hfirst

theorem ofText?_render (a : Answer) : ofText? a.render = some a := by
  cases a with
  | verdict v => cases v <;> rfl
  | unsupported => rfl
  | info i =>
    cases i with
    | none => rfl
    | some i =>
      have hnone : (fixed.find? fun a => a.render == i.render) = none := by
        rw [List.find?_eq_none]
        intro a ha
        rw [beq_iff_eq]
        exact render_ne_of_mem_fixed ha i
      change ofText? i.render = _
      rw [ofText?, hnone, Option.none_or, PointerInfo.ofText?_render, Option.map_some]

theorem render_of_ofText? {text : String} {a : Answer} (h : ofText? text = some a) : a.render = text := by
  rw [ofText?, Option.or_eq_some_iff] at h
  rcases h with hfixed | ⟨_, hinfo⟩
  · have hrender := List.find?_some hfixed
    exact beq_iff_eq.mp hrender
  · obtain ⟨i, hi, rfl⟩ := Option.map_eq_some_iff.mp hinfo
    exact String.toList_inj.mp (PointerInfo.toList_of_ofText? hi)

end Answer

/-- The printed form of an answer is unambiguous: two answers that are printed alike are the same, and reading gives
an answer just for the text that is printed for it. -/
theorem answer_text_unambiguous :
    (∀ a b : Answer, a.render = b.render ↔ a = b) ∧
    ∀ (text : String) (a : Answer), Answer.ofText? text = some a ↔ a.render = text := by
  constructor
  · intro a b
    constructor
    · intro h
      have hread := Answer.ofText?_render a
      rw [h, Answer.ofText?_render b] at hread
      exact (Option.some.inj hread).symm
    · exact congrArg Answer.render
  · intro text a
    constructor
    · exact Answer.render_of_ofText?
    · intro h
      rw [← h]
      exact Answer.ofText?_render a

end PointerQuery

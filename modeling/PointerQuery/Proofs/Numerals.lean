import PointerQuery.Proofs.KeyNumberGrammar

namespace PointerQuery.Text

/-- No digit stands at the front, so that a number printed before it ends there. -/
def EndsNumeral (rest : List Char) : Prop :=
  ∀ c, rest.head? = some c → c.isDigit = false

/-- Reads a number off the front of a text in the form in which it is printed, and gives back the rest. -/
def numeral? (text : List Char) : Option (Nat × List Char) :=
  let digits := text.takeWhile Char.isDigit
  let n := Nat.ofDigitChars 10 digits 0
  if n.repr.toList = digits then some (n, text.dropWhile Char.isDigit) else none

theorem isDigit_of_mem_repr {n : Nat} {c : Char} (hc : c ∈ n.repr.toList) : c.isDigit = true := by
  rw [Nat.toList_repr] at hc
  exact Nat.isDigit_of_mem_toDigits (by decide) (by decide) hc

theorem exists_digit_cons_repr (n : Nat) : ∃ c cs, n.repr.toList = c :: cs ∧ c.isDigit = true := by
  cases hrepr : n.repr.toList with
  | nil =>
    rw [Nat.toList_repr] at hrepr
    exact absurd hrepr Nat.toDigits_ne_nil
  | cons c cs =>
    refine ⟨c, cs, rfl, isDigit_of_mem_repr (n := n) ?_⟩
    rw [hrepr]
    exact List.mem_cons_self

theorem ofDigitChars_repr (n : Nat) : Nat.ofDigitChars 10 n.repr.toList 0 = n := by
  rw [Nat.toList_repr, Nat.ofDigitChars_toDigits (by decide) (by decide)]

theorem endsNumeral_nil : EndsNumeral [] :=
  fun _ hc => nomatch hc

theorem endsNumeral_cons {c : Char} (hc : c.isDigit = false) (rest : List Char) : EndsNumeral (c :: rest) := by
  intro d hd
  rw [← Option.some.inj hd]
  exact hc

theorem endsNumeral_dropWhile (text : List Char) : EndsNumeral (text.dropWhile Char.isDigit) := by
  intro c hc
  have hhead := List.head?_dropWhile_not Char.isDigit text
  rw [hc] at hhead
  simpa using hhead

theorem numeral?_append (n : Nat) {rest : List Char} (h : EndsNumeral rest) :
    numeral? (n.repr.toList ++ rest) = some (n, rest) := by
  obtain ⟨htake, hdrop⟩ := span_append (fun _ => isDigit_of_mem_repr (n := n)) h
  have hdigits := ofDigitChars_repr n
  rw [numeral?, htake, hdrop, hdigits, if_pos rfl]

theorem repr_append_inj {m n : Nat} {rest rest' : List Char} (hrest : EndsNumeral rest) (hrest' : EndsNumeral rest')
    (h : m.repr.toList ++ rest = n.repr.toList ++ rest') : m = n ∧ rest = rest' := by
  have hread := numeral?_append m hrest
  rw [h, numeral?_append n hrest'] at hread
  obtain ⟨hn, heq⟩ := Prod.mk.inj (Option.some.inj hread)
  exact ⟨hn.symm, heq.symm⟩

/-- Reading is exact: it takes just what printing a number puts in front. -/
theorem numeral?_eq_some_iff {text rest : List Char} {n : Nat} :
    numeral? text = some (n, rest) ↔ text = n.repr.toList ++ rest ∧ EndsNumeral rest := by
  constructor
  · intro h
    rw [numeral?, Option.ite_none_right_eq_some] at h
    obtain ⟨hdigits, hread⟩ := h
    obtain ⟨rfl, rfl⟩ := Prod.mk.inj (Option.some.inj hread)
    refine ⟨?_, endsNumeral_dropWhile text⟩
    rw [hdigits, List.takeWhile_append_dropWhile]
  · intro h
    rw [h.1]
    exact numeral?_append n h.2

end PointerQuery.Text
